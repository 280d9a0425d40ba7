import Strukt.Session.CatalogValid
import Strukt.Session.Snapshot

/-!
# Persisted catalogs

A persisted catalog holds the sessions, all stopped, and the last screens of their panes. Both
writing and reading one go through `validate`, which `validate_iff` spells out.
-/

namespace Strukt

def currentSchema : UInt16 := 1
def maxHistories : Nat := 256

/-- The errors of the store's records; those of its files are not among them. -/
inductive SessionStoreError where
  | unsupportedSchema (schema : UInt16)
  | invalidHistory
  | catalog (error : CatalogError)
  deriving DecidableEq

structure PaneHistorySnapshot where
  pane : PaneId
  screen : PaneScreenSnapshot
  deriving DecidableEq

structure PersistedCatalog where
  schemaVersion : UInt16
  catalog : SessionCatalog
  histories : List PaneHistorySnapshot
  deriving DecidableEq

namespace PersistedCatalog

/-- Each history names a pane of the catalog that none before it named. -/
def validHistories (c : SessionCatalog) : List PaneHistorySnapshot → List PaneId → Bool
  | [], _ => true
  | history :: rest, panes =>
    c.containsPane history.pane && history.pane ∉ panes &&
      validHistories c rest (history.pane :: panes)

def validate (r : PersistedCatalog) : Except SessionStoreError Unit :=
  if r.schemaVersion ≠ currentSchema then .error (.unsupportedSchema r.schemaVersion)
  else do
    r.catalog.validate.mapError .catalog
    if r.histories.length > maxHistories then .error .invalidHistory
    else if validHistories r.catalog r.histories [] then .ok ()
    else .error .invalidHistory

def new (catalog : SessionCatalog) (histories : List PaneHistorySnapshot) :
    Except SessionStoreError PersistedCatalog := do
  let record : PersistedCatalog :=
    ⟨currentSchema, ← catalog.stoppedClone.mapError .catalog, histories⟩
  record.validate
  return record

/-- A record that `validate` accepts. -/
structure Valid (r : PersistedCatalog) : Prop where
  schema : r.schemaVersion = currentSchema
  catalog : r.catalog.Valid
  count : r.histories.length ≤ maxHistories
  panes : ∀ h ∈ r.histories, h.pane ∈ r.catalog.paneIds
  nodup : (r.histories.map (·.pane)).Nodup

theorem validHistories_iff {c : SessionCatalog} {hs : List PaneHistorySnapshot}
    {panes : List PaneId} :
    validHistories c hs panes ↔ (∀ h ∈ hs, h.pane ∈ c.paneIds) ∧ (hs.map (·.pane)).Nodup ∧
      ∀ h ∈ hs, h.pane ∉ panes := by
  induction hs generalizing panes with
  | nil => simp [validHistories]
  | cons h hs ih =>
    simp only [validHistories, Bool.and_eq_true, decide_eq_true_eq, ih,
      SessionCatalog.containsPane_iff, List.forall_mem_cons, List.map_cons, List.nodup_cons]
    simp only [List.mem_cons, not_or]
    constructor
    · rintro ⟨⟨h₁, h₂⟩, h₃, h₄, h₅⟩
      refine ⟨⟨h₁, h₃⟩, ⟨fun hm => ?_, h₄⟩, h₂, fun e he => (h₅ e he).2⟩
      obtain ⟨e, he, hp⟩ := List.mem_map.mp hm
      exact (h₅ e he).1 hp
    · rintro ⟨⟨h₁, h₃⟩, ⟨h₆, h₄⟩, h₂, h₅⟩
      refine ⟨⟨h₁, h₂⟩, h₃, h₄, fun e he => ⟨fun hp => ?_, h₅ e he⟩⟩
      exact h₆ (hp ▸ List.mem_map_of_mem he)

theorem validate_iff {r : PersistedCatalog} : r.validate = .ok () ↔ r.Valid := by
  unfold validate
  split
  · rename_i h
    simp only [reduceCtorEq, false_iff]
    exact fun hv => h hv.schema
  rename_i hs
  rw [not_not] at hs
  cases hc : r.catalog.validate with
  | error e =>
    simp only [Except.mapError, Except.bind, bind, reduceCtorEq, false_iff]
    intro hv
    rw [hv.catalog.validate] at hc
    cases hc
  | ok u =>
    have hcat := SessionCatalog.validate_iff.mp hc
    simp only [Except.mapError, Except.bind, bind]
    split
    · simp only [reduceCtorEq, false_iff]
      exact fun hv => absurd hv.count (by omega)
    split
    · rename_i hl hh
      obtain ⟨h₁, h₂, -⟩ := validHistories_iff.mp hh
      exact ⟨fun _ => ⟨hs, hcat, by omega, h₁, h₂⟩, fun _ => rfl⟩
    · rename_i hh
      simp only [reduceCtorEq, false_iff]
      exact fun hv => hh (validHistories_iff.mpr ⟨hv.panes, hv.nodup, by simp⟩)

/-- A record of a valid catalog, with at most one history for each of its panes. -/
theorem new_eq_ok {c : SessionCatalog} (hc : c.Valid) {m : SortedMap PaneId PaneScreenSnapshot}
    (hm : ∀ p ∈ m.keys, p ∈ c.paneIds) :
    new c (m.entries.map fun e => ⟨e.1, e.2⟩) =
      .ok ⟨currentSchema, c.stopPanes, m.entries.map fun e => ⟨e.1, e.2⟩⟩ := by
  have hkeys : (m.entries.map fun e => (⟨e.1, e.2⟩ : PaneHistorySnapshot)).map (·.pane) = m.keys := by
    simp [SortedMap.keys]
  have hvalid : Valid ⟨currentSchema, c.stopPanes, m.entries.map fun e => ⟨e.1, e.2⟩⟩ := by
    refine ⟨rfl, hc.stopPanes, ?_, fun h hh => ?_, hkeys ▸ m.nodup_keys⟩
    · calc (m.entries.map fun e => (⟨e.1, e.2⟩ : PaneHistorySnapshot)).length
          = m.keys.length := by rw [List.length_map, SortedMap.length_keys]; rfl
        _ ≤ c.paneIds.length := (List.subperm_of_subset m.nodup_keys hm).length_le
        _ ≤ maxHistories := hc.total
    · rw [SessionCatalog.paneIds_stopPanes]
      exact hm h.pane (hkeys ▸ List.mem_map_of_mem hh)
  simp only [new, SessionCatalog.stoppedClone_eq_ok.mpr ⟨hc, rfl⟩, Except.mapError, bind,
    Except.bind, validate_iff.mpr hvalid, pure, Except.pure]

end PersistedCatalog
end Strukt
