import Strukt.Session.CatalogSpec
import Strukt.Lib.Runs

/-!
# Runs of catalog operations

`CatalogOp` names every operation on the catalog with its arguments and the identifiers that it may
draw; `CatalogOp.step` is one of them from a catalog.

* **Atomic and versioned** (`CatalogOp.atomic`): an error leaves the catalog as it was, a revision
  that is not the catalog's is an error, a success raises the revision by one.
* **Valid** (`catalog_valid_of_runs`): the representation invariant holds along a run. The one
  operation that can break it is the import of a stopped session, which compares the supplied panes
  with each other but not with the catalog's (`import_breaks_validity`).
-/

namespace Strukt

open Method SessionCatalog

/-- An operation on the catalog. -/
inductive CatalogOp where
  | createSession (expectedRevision : UInt64) (name : String) (workingDirectory : PathBuf)
  | importStoppedSession (expectedRevision : UInt64) (name : String)
      (windows : List StoppedWindowDefinition) (activeWindowIndex : Nat)
  | renameSession (expectedRevision : UInt64) (session : SessionId) (name : String)
  | activateSession (expectedRevision : UInt64) (session : SessionId)
  | duplicateSession (expectedRevision : UInt64) (source : SessionId)
  | removeSession (expectedRevision : UInt64) (session : SessionId)
  | createWindow (expectedRevision : UInt64) (session : SessionId) (name : String)
      (workingDirectory : PathBuf)
  | renameWindow (expectedRevision : UInt64) (session : SessionId) (window : WindowId)
      (name : String)
  | activateWindow (expectedRevision : UInt64) (session : SessionId) (window : WindowId)
  | duplicateWindow (expectedRevision : UInt64) (session : SessionId) (source : WindowId)
  | closeWindow (expectedRevision : UInt64) (session : SessionId) (window : WindowId)
  | splitFocused (expectedRevision : UInt64) (session : SessionId) (axis : SplitAxis)
  | setFocusedSplitRatio (expectedRevision : UInt64) (session : SessionId)
      (ratioBasisPoints : UInt16)
  | focusPane (expectedRevision : UInt64) (session : SessionId) (pane : PaneId)
  | closePane (expectedRevision : UInt64) (session : SessionId) (pane : PaneId)
  | setPaneLifecycle (expectedRevision : UInt64) (session : SessionId) (pane : PaneId)
      (lifecycle : PaneLifecycle)
  | beginPaneGeneration (expectedRevision : UInt64) (session : SessionId) (pane : PaneId)
      (rows columns : UInt16)
  | setPaneSize (expectedRevision : UInt64) (session : SessionId) (pane : PaneId)
      (rows columns : UInt16)
  | setGenerationLifecycle (session : SessionId) (pane : PaneId) (generation : UInt64)
      (lifecycle : PaneLifecycle)

namespace CatalogOp

/-- The operation, its result dropped, with the identifiers it draws. -/
def run (rng : RandomSource) : CatalogOp → CatalogM Unit
  | createSession e name d => discard (SessionCatalog.createSession e name d rng)
  | importStoppedSession e name windows active =>
    discard (SessionCatalog.importStoppedSession e name windows active rng)
  | renameSession e s name => SessionCatalog.renameSession e s name
  | activateSession e s => SessionCatalog.activateSession e s
  | duplicateSession e s => discard (SessionCatalog.duplicateSession e s rng)
  | removeSession e s => SessionCatalog.removeSession e s
  | createWindow e s name d => discard (SessionCatalog.createWindow e s name d rng)
  | renameWindow e s w name => SessionCatalog.renameWindow e s w name
  | activateWindow e s w => SessionCatalog.activateWindow e s w
  | duplicateWindow e s w => discard (SessionCatalog.duplicateWindow e s w rng)
  | closeWindow e s w => SessionCatalog.closeWindow e s w
  | splitFocused e s axis => discard (SessionCatalog.splitFocused e s axis rng)
  | setFocusedSplitRatio e s ratio => SessionCatalog.setFocusedSplitRatio e s ratio
  | focusPane e s p => SessionCatalog.focusPane e s p
  | closePane e s p => SessionCatalog.closePane e s p
  | setPaneLifecycle e s p l => SessionCatalog.setPaneLifecycle e s p l
  | beginPaneGeneration e s p rows columns =>
    discard (SessionCatalog.beginPaneGeneration e s p rows columns)
  | setPaneSize e s p rows columns => SessionCatalog.setPaneSize e s p rows columns
  | setGenerationLifecycle s p g l => discard (SessionCatalog.setGenerationLifecycle s p g l)

/-- The revision that the operation expects, if it checks one. -/
def expectedRevision : CatalogOp → Option UInt64
  | createSession e .. | importStoppedSession e .. | renameSession e .. | activateSession e ..
  | duplicateSession e .. | removeSession e .. | createWindow e .. | renameWindow e ..
  | activateWindow e .. | duplicateWindow e .. | closeWindow e .. | splitFocused e ..
  | setFocusedSplitRatio e .. | focusPane e .. | closePane e .. | setPaneLifecycle e ..
  | beginPaneGeneration e .. | setPaneSize e .. => some e
  | setGenerationLifecycle .. => none

/-- The panes that an import supplies are new to the catalog. -/
def ImportsNew (c : SessionCatalog) : CatalogOp → Prop
  | importStoppedSession _ _ windows _ =>
    ∀ d ∈ windows, ∀ p ∈ d.panes.map (·.1), p ∉ c.paneIds
  | _ => True

/-- A lifecycle update of another generation, or of the lifecycle that the pane has. -/
def Redundant (c : SessionCatalog) : CatalogOp → Prop
  | setGenerationLifecycle s p g l =>
    ∃ r, (s, p, r) ∈ c.placements ∧ (r.generation ≠ g ∨ r.lifecycle = l)
  | _ => False

/-- What a success of the operation leaves. -/
structure Succeeds (op : CatalogOp) (rng : RandomSource) (c c' : SessionCatalog) : Prop where
  expected : ∀ e, op.expectedRevision = some e → e = c.revision
  revision : ¬op.Redundant c → c'.revision = c.revision.satSucc
  redundant : op.Redundant c → c' = c
  valid : rng.FreshIn c → op.ImportsNew c → c'.Valid

variable {α : Type} {op : CatalogOp} {rng : RandomSource} {c c' : SessionCatalog}

theorem succeeds_of_updates {fresh : Prop} {t : Turnover} {e : UInt64}
    (he : op.expectedRevision = some e)
    (hr : ¬op.Redundant c) (hf : rng.FreshIn c → op.ImportsNew c → fresh)
    (h : e = c.revision ∧ Updates fresh t c c') : op.Succeeds rng c c' where
  expected _ he' := (Option.some.inj (he.symm.trans he')) ▸ h.1
  revision _ := h.2.revision
  redundant h := absurd h hr
  valid h₁ h₂ := h.2.valid (hf h₁ h₂)

theorem succeeds_of_writesPane {k : SessionId} {pane : PaneId} {p : SessionPane}
    (he : ∀ e, op.expectedRevision = some e → e = c.revision) (hr : ¬op.Redundant c)
    (h : WritesPane k pane p c c') : op.Succeeds rng c c' :=
  ⟨he, fun _ => h.revision, fun h => absurd h hr, fun _ _ => h.valid⟩

/-- The specification of every operation on a valid catalog. -/
theorem run_spec (hv : c.Valid) (op : CatalogOp) (rng : RandomSource) :
    wp (op.run rng) (fun _ c' => op.Succeeds rng c c') (fun _ c' => c' = c) False c := by
  have of_applies : ∀ {α : Type} {x : CatalogM α} {e : UInt64} {fresh : Prop} {t : Turnover},
      op.expectedRevision = some e → ¬op.Redundant c →
      (rng.FreshIn c → op.ImportsNew c → fresh) → Applies x e fresh t c →
      wp x (fun _ c' => op.Succeeds rng c c') (fun _ c' => c' = c) False c :=
    fun he hr hf h => wp_mono h (fun _ _ => succeeds_of_updates he hr hf) (fun _ _ => id) id
  cases op with
  | createSession e name d =>
    simpa [run] using of_applies rfl id (fun h _ => h) (createSession_spec hv)
  | importStoppedSession e name windows active =>
    simpa [run] using of_applies rfl id (fun h h' => ⟨h, h'⟩) (importStoppedSession_spec hv)
  | renameSession e k name => exact of_applies rfl id (fun _ _ => trivial) (renameSession_spec hv)
  | activateSession e k => exact of_applies rfl id (fun _ _ => trivial) (activateSession_spec hv)
  | duplicateSession e k =>
    simpa [run] using of_applies rfl id (fun h _ => h) (duplicateSession_spec hv)
  | removeSession e k => exact of_applies rfl id (fun _ _ => trivial) (removeSession_spec hv)
  | createWindow e k name d =>
    simpa [run] using of_applies rfl id (fun h _ => h) (createWindow_spec hv)
  | renameWindow e k w name => exact of_applies rfl id (fun _ _ => trivial) (renameWindow_spec hv)
  | activateWindow e k w => exact of_applies rfl id (fun _ _ => trivial) (activateWindow_spec hv)
  | duplicateWindow e k w =>
    simpa [run] using of_applies rfl id (fun h _ => h) (duplicateWindow_spec hv)
  | closeWindow e k w => exact of_applies rfl id (fun _ _ => trivial) (closeWindow_spec hv)
  | splitFocused e k axis =>
    simpa [run] using of_applies rfl id (fun h _ => h) (splitFocused_spec hv)
  | setFocusedSplitRatio e k ratio =>
    exact of_applies rfl id (fun _ _ => trivial) (setFocusedSplitRatio_spec hv)
  | focusPane e k p => exact of_applies rfl id (fun _ _ => trivial) (focusPane_spec hv)
  | closePane e k p => exact of_applies rfl id (fun _ _ => trivial) (closePane_spec hv)
  | setPaneLifecycle e k p l =>
    refine wp_mono (setPaneLifecycle_spec hv) (fun _ _ h => ?_) (fun _ _ => id) id
    obtain ⟨he, r, -, hw⟩ := h
    exact succeeds_of_writesPane (by rintro e' ⟨⟩; exact he) id hw
  | beginPaneGeneration e k p rows columns =>
    simp only [run, wp_discard]
    refine wp_mono (beginPaneGeneration_spec hv) (fun _ _ h => ?_) (fun _ _ => id) id
    obtain ⟨he, r, -, -, hw⟩ := h
    exact succeeds_of_writesPane (by rintro e' ⟨⟩; exact he) id hw
  | setPaneSize e k p rows columns =>
    refine wp_mono (setPaneSize_spec hv) (fun _ _ h => ?_) (fun _ _ => id) id
    obtain ⟨he, r, -, hw⟩ := h
    exact succeeds_of_writesPane (by rintro e' ⟨⟩; exact he) id hw
  | setGenerationLifecycle k p g l =>
    simp only [run, wp_discard]
    refine wp_mono (setGenerationLifecycle_spec hv) (fun _ c' h => ?_) (fun _ _ => id) id
    obtain ⟨r, hr, ⟨-, hg, rfl⟩ | ⟨-, hg, hl, rfl⟩ | ⟨-, hg, hl, hw⟩⟩ := h
    · exact ⟨by rintro _ ⟨⟩, fun h => absurd ⟨r, hr, .inl hg⟩ h, fun _ => rfl, fun _ _ => hv⟩
    · exact ⟨by rintro _ ⟨⟩, fun h => absurd ⟨r, hr, .inr hl⟩ h, fun _ => rfl, fun _ _ => hv⟩
    · refine succeeds_of_writesPane (by rintro _ ⟨⟩) ?_ hw
      rintro ⟨r', hr', h⟩
      cases hv.placement_eq hr hr' rfl
      exact h.elim (absurd hg) hl

/-- Every operation on a valid catalog ends; its errors change nothing, a wrong expected revision
is an error, and a success raises the revision by one, or was redundant and changes nothing. -/
theorem atomic (hv : c.validate = .ok ()) (hr : c.revision.toNat < u64Max) (op : CatalogOp)
    (rng : RandomSource) :
    ∃ r c', (op.run rng).exec c = some (r, c') ∧
      (∀ e, r = .error e → c' = c) ∧
      (∀ e, op.expectedRevision = some e → e ≠ c.revision → ∃ err, r = .error err) ∧
      (r = .ok () → ¬op.Redundant c → c'.revision.toNat = c.revision.toNat + 1) ∧
      (r = .ok () → op.Redundant c → c' = c) := by
  have hspec := run_spec (validate_iff.mp hv) op rng
  obtain ⟨r, c', hx⟩ := hspec.ends
  refine ⟨r, c', hx, ?_, ?_, ?_, ?_⟩
  · rintro e rfl
    exact hspec.of_error hx
  · intro e he hne
    cases r with
    | ok u => exact absurd ((hspec.of_ok hx).expected e he) hne
    | error err => exact ⟨err, rfl⟩
  · rintro rfl hred
    rw [(hspec.of_ok hx).revision hred, toNat_satSucc_of_lt hr]
  · rintro rfl
    exact (hspec.of_ok hx).redundant

/-- From a new catalog, the creation of a session raises the revision to one. -/
theorem atomic_createSession :
    ∃ r c', ((createSession 0 "work" ⟨[47]⟩).run [1, 2, 3]).exec .new = some (r, c') ∧
      (r = .ok () → c'.revision.toNat = 1) := by
  obtain ⟨r, c', hx, -, -, hok, -⟩ :=
    atomic (c := SessionCatalog.new) rfl (by decide) (createSession 0 "work" ⟨[47]⟩) [1, 2, 3]
  exact ⟨r, c', hx, fun h => hok h id⟩

/-- The state that an operation with its identifiers leaves, an error's included. -/
def step (c : SessionCatalog) (o : CatalogOp × RandomSource) : Option SessionCatalog :=
  ((o.1.run o.2).exec c).map (·.2)

/-- The identifiers that the operation draws are new to the catalog. -/
abbrev Fresh (c : SessionCatalog) (o : CatalogOp × RandomSource) : Prop := o.2.FreshIn c

theorem step_valid {o : CatalogOp × RandomSource} (hv : c.Valid) (hf : Fresh c o)
    (hn : o.1.ImportsNew c) (hs : step c o = some c') : c'.Valid := by
  obtain ⟨⟨r, c''⟩, hx, rfl⟩ := Option.map_eq_some_iff.mp hs
  exact (wp_mono (run_spec hv o.1 o.2) (fun _ _ h => h.valid hf hn) (fun _ _ h => h ▸ hv) id).state
    hx

theorem importsNew_of_valid (hv : c.Valid) (hf : rng.FreshIn c) :
    wp (op.run rng) (fun _ c' => c'.Valid → op.ImportsNew c) (fun _ _ => True) True c := by
  cases op with
  | importStoppedSession e name windows active =>
    simp only [run, wp_discard]
    exact importStoppedSession_new hv hf
  | _ => exact wp_mono (run_spec hv _ rng) (fun _ _ _ _ => trivial) (fun _ _ _ => trivial) False.elim

/-- Along every run whose imports supply new panes, `validate` accepts the catalog; and from
there, a next success leaves a valid catalog exactly when it supplies new panes too. -/
theorem validate_runs (hv : c.validate = .ok ())
    (hrun : Runs step (fun c o => Fresh c o ∧ o.1.ImportsNew c) c c') :
    c'.validate = .ok () ∧ ∀ (o : CatalogOp × RandomSource) (d : SessionCatalog), Fresh c' o →
      (o.1.run o.2).exec c' = some (.ok (), d) → (d.validate = .ok () ↔ o.1.ImportsNew c') := by
  have hc' : c'.Valid := hrun.invariant (validate_iff.mp hv) fun c o c' hc hcond hs =>
    step_valid hc hcond.1 hcond.2 hs
  refine ⟨validate_iff.mpr hc', fun o d hf hx => ⟨fun hd => ?_, fun hn => ?_⟩⟩
  · exact (importsNew_of_valid hc' hf).of_ok hx (validate_iff.mp hd)
  · exact validate_iff.mpr (((run_spec hc' o.1 o.2).of_ok hx).valid hf hn)

/-- The creation of a session is such a run. -/
theorem validate_runs_createSession :
    ∃ c', step .new (createSession 0 "work" ⟨[47]⟩, [1, 2, 3]) = some c' ∧
      c'.validate = .ok () :=
  ⟨_, rfl, (validate_runs (c := SessionCatalog.new) rfl (Runs.single
    (o := (createSession 0 "work" ⟨[47]⟩, [1, 2, 3])) ⟨by decide, trivial⟩ rfl)).1⟩

/-- A session is created with pane 3; the import of a session whose pane is 3 succeeds, and leaves
a catalog that `validate` rejects. -/
theorem import_breaks_validity :
    ∃ c c', Fresh .new (createSession 0 "work" ⟨[47]⟩, [1, 2, 3]) ∧
      ((createSession 0 "work" ⟨[47]⟩).run [1, 2, 3]).exec .new = some (.ok (), c) ∧
      c.validate = .ok () ∧
      Fresh c (importStoppedSession 1 "old" [⟨"shell", .pane ⟨3⟩, ⟨3⟩, [(⟨3⟩, ⟨[47]⟩)]⟩] 0,
        [4, 5]) ∧
      ((importStoppedSession 1 "old" [⟨"shell", .pane ⟨3⟩, ⟨3⟩, [(⟨3⟩, ⟨[47]⟩)]⟩] 0).run
        [4, 5]).exec c = some (.ok (), c') ∧
      c'.validate = .error .invalidCatalog :=
  ⟨_, _, by decide, rfl, rfl, by decide, rfl, rfl⟩

end CatalogOp

end Strukt
