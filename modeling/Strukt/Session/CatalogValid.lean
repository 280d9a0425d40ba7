import Strukt.Session.Catalog

/-!
# Valid catalogs

`SessionCatalog.Valid` states the representation invariant of the catalog in its own terms, level
by level, and `validate_iff` says that `validate` decides it. In a valid catalog a pane identifier
names one pane: `placements` lists every pane with its session, and `pane_iff` reads the
catalog's lookup as membership in that list.
-/

namespace Strukt

/-- A window that `validate` accepts. -/
structure SessionWindow.Valid (w : SessionWindow) : Prop where
  revision : w.revision ≠ 0
  name : (validatedName w.name).toBool
  count : w.panes.length ≤ maxPanesPerWindow
  focused : w.focusedPane ∈ w.panes.keys
  sizes : ∀ p ∈ w.panes.values, 0 < p.requestedRows ∧ 0 < p.requestedColumns
  layout : w.root.Fits w.panes.keys
  ids : ∀ e ∈ w.panes.entries, e.1 = e.2.id
  directories : ∀ e ∈ w.panes.entries, e.2.workingDirectory.bytes ≠ []

/-- A session that `validate` accepts, its panes' uniqueness apart. -/
structure Session.Valid (s : Session) : Prop where
  revision : s.revision ≠ 0
  name : (validatedName s.name).toBool
  nonempty : s.windows ≠ []
  count : s.windows.length ≤ maxWindowsPerSession
  active : ∃ w ∈ s.windows, w.id = s.activeWindow
  windowIds : (s.windows.map (·.id)).Nodup
  windows : ∀ w ∈ s.windows, w.Valid

/-- The panes of a session with their identifiers. -/
def Session.placements (s : Session) : List (PaneId × SessionPane) :=
  s.windows.flatMap (·.panes.entries)

def Session.paneIds (s : Session) : List PaneId := s.placements.map (·.1)

namespace SessionCatalog

/-- The panes of the catalog, each with its session. -/
def placements (c : SessionCatalog) : List (SessionId × PaneId × SessionPane) :=
  c.sessions.values.flatMap fun s => s.placements.map fun e => (s.id, e)

def paneIds (c : SessionCatalog) : List PaneId := c.sessions.values.flatMap Session.paneIds

structure Valid (c : SessionCatalog) : Prop where
  count : c.sessions.length ≤ maxSessions
  active : c.sessions.isEmpty = c.activeSession.isNone
  activeMem : ∀ k, c.activeSession = some k → k ∈ c.sessions.keys
  keyed : ∀ e ∈ c.sessions.entries, e.1 = e.2.id
  sessions : ∀ s ∈ c.sessions.values, s.Valid
  paneIds : c.paneIds.Nodup
  total : c.paneIds.length ≤ maxTotalPanes

end SessionCatalog

theorem Session.paneIds_eq (s : Session) : s.paneIds = s.windows.flatMap (·.panes.keys) := by
  simp only [Session.paneIds, Session.placements, List.map_flatMap]
  rfl

/-! ## `validate` decides validity -/

theorem SessionWindow.validate_iff {w : SessionWindow} :
    w.validate ↔ w.panes.length ≤ maxPanesPerWindow ∧ w.focusedPane ∈ w.panes.keys ∧
      (∀ p ∈ w.panes.values, 0 < p.requestedRows ∧ 0 < p.requestedColumns) ∧
      w.root.Fits w.panes.keys := by
  have hne : w.focusedPane ∈ w.panes.keys → w.panes.isEmpty = false := by
    intro h
    rw [Bool.eq_false_iff, ne_eq, SortedMap.isEmpty_iff]
    exact List.ne_nil_of_mem h
  simp only [validate, Bool.and_eq_true, Bool.not_eq_true', decide_eq_true_eq, List.all_eq_true,
    SortedMap.containsKey_iff, SessionLayoutNode.validate_iff, gt_iff_lt]
  tauto

namespace SessionCatalog

theorem validatePanes_iff {es : List (PaneId × SessionPane)} {seen seen' : List PaneId} :
    validatePanes es seen = some seen' ↔
      seen' = (es.map (·.1)).reverse ++ seen ∧ (∀ e ∈ es, e.1 = e.2.id) ∧
        (∀ e ∈ es, e.2.workingDirectory.bytes ≠ []) ∧ (es.map (·.1)).Nodup ∧
        ∀ e ∈ es, e.1 ∉ seen := by
  induction es generalizing seen with
  | nil => simp [validatePanes, eq_comm]
  | cons e es ih =>
    obtain ⟨id, p⟩ := e
    simp only [validatePanes]
    split
    · rename_i h
      simp only [reduceCtorEq, false_iff]
      rintro ⟨-, h₁, h₂, -, h₃⟩
      rcases h with h | h | h
      · exact h (h₁ (id, p) (by simp))
      · exact h₂ (id, p) (by simp) h
      · exact h₃ (id, p) (by simp) h
    · rename_i h
      push Not at h
      rw [ih]
      simp only [List.map_cons, List.reverse_cons, List.append_assoc, List.cons_append,
        List.nil_append, List.forall_mem_cons, List.nodup_cons]
      constructor
      · rintro ⟨rfl, h₁, h₂, h₃, h₄⟩
        refine ⟨rfl, ⟨h.1, h₁⟩, ⟨h.2.1, h₂⟩, ⟨fun hm => ?_, h₃⟩, h.2.2,
          fun e he hs => h₄ e he (List.mem_cons_of_mem _ hs)⟩
        obtain ⟨e, he, rfl⟩ := List.mem_map.mp hm
        exact h₄ e he (List.mem_cons_self ..)
      · rintro ⟨rfl, ⟨-, h₁⟩, ⟨-, h₂⟩, ⟨h₅, h₃⟩, -, h₄⟩
        refine ⟨rfl, h₁, h₂, h₃, fun e he hm => ?_⟩
        rcases List.mem_cons.mp hm with rfl | hs
        · exact h₅ (List.mem_map_of_mem he)
        · exact h₄ e he hs

theorem validateWindows_iff {ws : List SessionWindow} {windowIds : List WindowId}
    {seen seen' : List PaneId} {n n' : Nat} (hseen : seen.Nodup) :
    validateWindows ws windowIds (seen, n) = some (seen', n') ↔
      seen' = (ws.flatMap (·.panes.keys)).reverse ++ seen ∧
        n' = n + (ws.flatMap (·.panes.keys)).length ∧ (∀ w ∈ ws, w.Valid) ∧
        (ws.map (·.id)).Nodup ∧ (∀ w ∈ ws, w.id ∉ windowIds) ∧ seen'.Nodup := by
  induction ws generalizing windowIds seen n with
  | nil =>
    simp only [validateWindows, Option.some.injEq, Prod.mk.injEq, List.flatMap_nil,
      List.reverse_nil, List.nil_append, List.length_nil, Nat.add_zero, List.not_mem_nil,
      false_implies, implies_true, List.map_nil, List.nodup_nil, true_and]
    constructor
    · rintro ⟨rfl, rfl⟩; exact ⟨rfl, rfl, hseen⟩
    · rintro ⟨rfl, rfl, -⟩; exact ⟨rfl, rfl⟩
  | cons w ws ih =>
    simp only [validateWindows]
    split
    · rename_i h
      simp only [reduceCtorEq, false_iff]
      rintro ⟨-, -, hv, -, hid, -⟩
      have hw := hv w (by simp)
      rcases h with h | h | h | h
      · exact hid w (by simp) h
      · exact hw.revision h
      · simp [hw.name] at h
      · rw [SessionWindow.validate_iff.mpr ⟨hw.count, hw.focused, hw.sizes, hw.layout⟩] at h
        cases h
    · rename_i h
      push Not at h
      obtain ⟨h₁, h₂, h₃, h₄⟩ := h
      obtain ⟨hc, hf, hz, hl⟩ := SessionWindow.validate_iff.mp (by simpa using h₄)
      cases hp : validatePanes w.panes.entries seen with
      | none =>
        simp only [Option.bind_eq_bind, Option.bind_none, reduceCtorEq, false_iff]
        rintro ⟨rfl, -, hv, -, -, hn⟩
        have hw := hv w (by simp)
        have : validatePanes w.panes.entries seen = some (w.panes.keys.reverse ++ seen) := by
          refine validatePanes_iff.mpr ⟨rfl, hw.ids, hw.directories, w.panes.nodup_keys, ?_⟩
          intro e he hs
          have hk : e.1 ∈ (List.flatMap (·.panes.keys) (w :: ws)).reverse :=
            List.mem_reverse.mpr (List.mem_flatMap.mpr ⟨w, by simp, List.mem_map_of_mem he⟩)
          exact (List.nodup_append.mp hn).2.2 e.1 hk e.1 hs rfl
        rw [hp] at this; cases this
      | some seen₁ =>
        obtain ⟨rfl, hid, hdir, -, hfresh⟩ := validatePanes_iff.mp hp
        have hseen₁ : ((w.panes.entries.map (·.1)).reverse ++ seen).Nodup := by
          refine List.nodup_append.mpr ⟨List.nodup_reverse.mpr w.panes.nodup_keys, hseen, ?_⟩
          rintro a ha b hb rfl
          obtain ⟨e, he, rfl⟩ := List.mem_map.mp (List.mem_reverse.mp ha)
          exact hfresh e he hb
        have hw : w.Valid := ⟨h₂, by simpa using h₃, hc, hf, hz, hl, hid, hdir⟩
        simp only [Option.bind_eq_bind, Option.bind_some, ih hseen₁, List.flatMap_cons,
          List.reverse_append, List.append_assoc, List.length_append, SortedMap.length_keys,
          List.forall_mem_cons, List.map_cons, List.nodup_cons]
        constructor
        · rintro ⟨rfl, rfl, hv, hn, hid', hn'⟩
          refine ⟨rfl, by omega, ⟨hw, hv⟩, ⟨fun hm => ?_, hn⟩,
            ⟨h₁, fun v hv hm => hid' v hv (List.mem_cons_of_mem _ hm)⟩, hn'⟩
          obtain ⟨v, hv, he⟩ := List.mem_map.mp hm
          exact hid' v hv (he ▸ List.mem_cons_self ..)
        · rintro ⟨rfl, rfl, ⟨-, hv⟩, ⟨hne, hn⟩, ⟨-, hid'⟩, hn'⟩
          refine ⟨rfl, by omega, hv, hn, fun v hv hm => ?_, hn'⟩
          rcases List.mem_cons.mp hm with he | hm
          · exact hne (he ▸ List.mem_map_of_mem hv)
          · exact hid' v hv hm

theorem validateSessions_iff {es : List (SessionId × Session)} {seen seen' : List PaneId}
    {n n' : Nat} (hseen : seen.Nodup) :
    validateSessions es (seen, n) = some (seen', n') ↔
      seen' = (es.flatMap (·.2.paneIds)).reverse ++ seen ∧
        n' = n + (es.flatMap (·.2.paneIds)).length ∧ (∀ e ∈ es, e.1 = e.2.id) ∧
        (∀ e ∈ es, e.2.Valid) ∧ seen'.Nodup := by
  induction es generalizing seen n with
  | nil =>
    simp only [validateSessions, Option.some.injEq, Prod.mk.injEq, List.flatMap_nil,
      List.reverse_nil, List.nil_append, List.length_nil, Nat.add_zero, List.not_mem_nil,
      false_implies, implies_true, true_and]
    constructor
    · rintro ⟨rfl, rfl⟩; exact ⟨rfl, rfl, hseen⟩
    · rintro ⟨rfl, rfl, -⟩; exact ⟨rfl, rfl⟩
  | cons e es ih =>
    obtain ⟨id, s⟩ := e
    simp only [validateSessions]
    split
    · rename_i h
      simp only [reduceCtorEq, false_iff]
      rintro ⟨-, -, hid, hv, -⟩
      have hs := hv (id, s) (by simp)
      rcases h with h | h | h | h | h | h
      · exact h (hid (id, s) (by simp))
      · exact hs.revision h
      · simp [hs.name] at h
      · exact hs.nonempty h
      · exact absurd h (by have := hs.count; simp only at this ⊢; omega)
      · obtain ⟨w, hw, ha⟩ := hs.active
        simp only [List.any_eq_false, decide_eq_true_eq] at h
        exact h w hw ha
    · rename_i h
      push Not at h
      obtain ⟨h₁, h₂, h₃, h₄, h₅, h₆⟩ := h
      rcases hw : validateWindows s.windows [] (seen, n) with _ | ⟨seen₁, n₁⟩
      · simp only [Option.bind_eq_bind, Option.bind_none, reduceCtorEq, false_iff]
        rintro ⟨rfl, -, -, hv, hn⟩
        have hs := hv (id, s) (by simp)
        simp only [List.flatMap_cons, List.reverse_append, List.append_assoc] at hn
        have hok : validateWindows s.windows [] (seen, n) = some (_, _) :=
          (validateWindows_iff hseen).mpr ⟨rfl, rfl, hs.windows, hs.windowIds, by simp,
            s.paneIds_eq ▸ (List.nodup_append.mp hn).2.1⟩
        rw [hw] at hok; cases hok
      · obtain ⟨rfl, rfl, hv, hn, -, hnd⟩ := (validateWindows_iff hseen).mp hw
        have hs : s.Valid := by
          refine ⟨h₂, by simpa using h₃, h₄, by omega, ?_, hn, hv⟩
          simpa [List.any_eq_true] using h₆
        simp only [Option.bind_eq_bind, Option.bind_some, ih hnd, List.flatMap_cons,
          List.reverse_append, List.append_assoc, List.length_append, List.forall_mem_cons,
          s.paneIds_eq]
        constructor
        · rintro ⟨rfl, rfl, hid, hv, hn'⟩
          exact ⟨rfl, by omega, ⟨h₁, hid⟩, ⟨hs, hv⟩, hn'⟩
        · rintro ⟨rfl, rfl, ⟨-, hid⟩, ⟨-, hv⟩, hn'⟩
          exact ⟨rfl, by omega, hid, hv, hn'⟩

theorem paneIds_eq_flatMap (c : SessionCatalog) :
    c.paneIds = c.sessions.entries.flatMap (·.2.paneIds) := by
  simp [paneIds, SortedMap.values, List.flatMap_map]

variable {c : SessionCatalog}

/-- `validate` accepts the valid catalogs. -/
theorem validate_iff : c.validate = .ok () ↔ c.Valid := by
  have hiff : ∀ seen' n', validateSessions c.sessions.entries ([], 0) = some (seen', n') ↔ _ :=
    fun _ _ => validateSessions_iff List.nodup_nil
  simp only [List.append_nil, Nat.zero_add, ← paneIds_eq_flatMap] at hiff
  have hany : (c.activeSession.any fun a => !c.sessions.containsKey a) = false ↔
      ∀ k, c.activeSession = some k → k ∈ c.sessions.keys := by
    rw [← Bool.not_eq_true, Option.any_eq_true]
    simp only [Bool.not_eq_true', not_exists, not_and, Bool.not_eq_false,
      SortedMap.containsKey_iff]
  unfold validate
  split
  · rename_i h
    simp only [reduceCtorEq, false_iff]
    exact fun hv => absurd hv.count (by omega)
  split
  · rename_i h
    simp only [reduceCtorEq, false_iff]
    intro hv
    rcases h with h | h
    · exact h hv.active
    · rw [hany.mpr hv.activeMem] at h; cases h
  rename_i h₁ h₂
  push Not at h₂
  have hactive := hany.mp (by simpa using h₂.2)
  split
  · rename_i h
    simp only [reduceCtorEq, false_iff]
    intro hv
    have := (hiff _ _).mpr ⟨rfl, rfl, hv.keyed,
      fun e he => hv.sessions e.2 (List.mem_map_of_mem he), List.nodup_reverse.mpr hv.paneIds⟩
    rw [h] at this; cases this
  · rename_i seen total h
    obtain ⟨rfl, rfl, hk, hs, hn⟩ := (hiff _ _).mp h
    split
    · simp only [reduceCtorEq, false_iff]
      exact fun hv => absurd hv.total (by omega)
    · simp only [true_iff]
      refine ⟨by omega, h₂.1, hactive, hk, fun s h => ?_, List.nodup_reverse.mp hn, by omega⟩
      obtain ⟨e, he, rfl⟩ := List.mem_map.mp h
      exact hs e he

theorem Valid.validate (hv : c.Valid) : c.validate = .ok () :=
  validate_iff.mpr hv

theorem valid_new : new.Valid := validate_iff.mp rfl

/-! ## Placements -/

theorem paneIds_eq_placements (c : SessionCatalog) : c.paneIds = c.placements.map (·.2.1) := by
  simp only [paneIds, placements, List.map_flatMap, List.map_map]
  rfl

theorem totalPanes_eq (c : SessionCatalog) : c.totalPanes = c.paneIds.length := by
  simp only [totalPanes, paneIds, List.length_flatMap, Session.paneIds_eq, SortedMap.length_keys]
  rfl

theorem mem_placements {x : SessionId × PaneId × SessionPane} :
    x ∈ c.placements ↔ ∃ s ∈ c.sessions.values, s.id = x.1 ∧ x.2 ∈ s.placements := by
  simp only [placements, List.mem_flatMap, List.mem_map]
  constructor
  · rintro ⟨s, hs, e, he, rfl⟩; exact ⟨s, hs, rfl, he⟩
  · rintro ⟨s, hs, h, he⟩; exact ⟨s, hs, x.2, he, by rw [h]⟩

theorem mem_paneIds_of_mem {x : SessionId × PaneId × SessionPane}
    (h : x ∈ c.placements) : x.2.1 ∈ c.paneIds := by
  rw [paneIds_eq_placements]; exact List.mem_map_of_mem h

theorem mem_paneIds_iff {p : PaneId} :
    p ∈ c.paneIds ↔ ∃ sid r, (sid, p, r) ∈ c.placements := by
  rw [paneIds_eq_placements, List.mem_map]
  constructor
  · rintro ⟨⟨sid, q, r⟩, h, rfl⟩; exact ⟨sid, r, h⟩
  · rintro ⟨sid, r, h⟩; exact ⟨_, h, rfl⟩

/-- In a valid catalog an identifier has one placement. -/
theorem Valid.placement_eq (hv : c.Valid)
    {x y : SessionId × PaneId × SessionPane} (hx : x ∈ c.placements) (hy : y ∈ c.placements)
    (h : x.2.1 = y.2.1) : x = y :=
  List.inj_on_of_nodup_map (paneIds_eq_placements c ▸ hv.paneIds) hx hy h

theorem containsPane_iff {p : PaneId} : c.containsPane p ↔ p ∈ c.paneIds := by
  simp only [containsPane, List.any_eq_true, SortedMap.containsKey_iff, paneIds,
    Session.paneIds_eq, List.mem_flatMap]

/-- The lookup finds a placement. -/
theorem pane_mem {p : PaneId} {sid : SessionId} {wid : WindowId}
    {r : SessionPane} (h : c.pane p = some (sid, wid, r)) : (sid, p, r) ∈ c.placements := by
  obtain ⟨s, hs, h⟩ := List.exists_of_findSome?_eq_some h
  obtain ⟨w, hw, h⟩ := List.exists_of_findSome?_eq_some h
  simp only [Option.map_eq_some_iff, Prod.mk.injEq] at h
  obtain ⟨r, hr, rfl, rfl, rfl⟩ := h
  exact mem_placements.mpr ⟨s, hs, rfl,
    List.mem_flatMap.mpr ⟨w, hw, SortedMap.get?_eq_some.mp hr⟩⟩

theorem pane_eq_none {p : PaneId} : c.pane p = none ↔ p ∉ c.paneIds := by
  simp only [pane, List.findSome?_eq_none_iff, Option.map_eq_none_iff, SortedMap.get?_eq_none,
    paneIds, Session.paneIds_eq, List.mem_flatMap, not_exists, not_and]

theorem Valid.pane_iff (hv : c.Valid) {p : PaneId} {sid : SessionId}
    {r : SessionPane} : (∃ wid, c.pane p = some (sid, wid, r)) ↔ (sid, p, r) ∈ c.placements := by
  constructor
  · rintro ⟨wid, h⟩; exact pane_mem h
  · intro h
    cases hp : c.pane p with
    | none => exact absurd (mem_paneIds_of_mem h) (pane_eq_none.mp hp)
    | some t =>
      have := hv.placement_eq h (pane_mem hp) rfl
      simp only [Prod.mk.injEq, true_and] at this
      exact ⟨t.2.1, by rw [this.1, this.2]⟩

end SessionCatalog

/-! ## Stopped catalogs -/

theorem SessionWindow.Valid.stopPanes {w : SessionWindow} (hw : w.Valid) : w.stopPanes.Valid where
  revision := hw.revision
  name := hw.name
  count := by simpa [SessionWindow.stopPanes] using hw.count
  focused := by simpa [SessionWindow.stopPanes] using hw.focused
  sizes := by simpa [SessionWindow.stopPanes, SessionPane.stop] using hw.sizes
  layout := by simpa [SessionWindow.stopPanes] using hw.layout
  ids := by
    intro e he
    obtain ⟨x, hx, rfl⟩ := List.mem_map.mp he
    exact hw.ids x hx
  directories := by
    intro e he
    obtain ⟨x, hx, rfl⟩ := List.mem_map.mp he
    exact hw.directories x hx

theorem Session.Valid.stopPanes {s : Session} (hs : s.Valid) : s.stopPanes.Valid where
  revision := hs.revision
  name := hs.name
  nonempty := by simpa [Session.stopPanes] using hs.nonempty
  count := by simpa [Session.stopPanes] using hs.count
  active := by simpa [Session.stopPanes, SessionWindow.stopPanes] using hs.active
  windowIds := by
    simpa [Session.stopPanes, SessionWindow.stopPanes, Function.comp_def] using hs.windowIds
  windows := by
    intro w hw
    obtain ⟨v, hv, rfl⟩ := List.mem_map.mp hw
    exact (hs.windows v hv).stopPanes

theorem Session.placements_stopPanes (s : Session) :
    s.stopPanes.placements = s.placements.map fun e => (e.1, e.2.stop) := by
  simp only [Session.placements, Session.stopPanes, List.flatMap_map, List.map_flatMap]
  rfl

namespace SessionCatalog

theorem placements_stopPanes (c : SessionCatalog) :
    c.stopPanes.placements = c.placements.map fun x => (x.1, x.2.1, x.2.2.stop) := by
  simp only [placements, stopPanes, SortedMap.values_mapValues, List.flatMap_map,
    List.map_flatMap, Session.placements_stopPanes, List.map_map]
  rfl

theorem paneIds_stopPanes (c : SessionCatalog) : c.stopPanes.paneIds = c.paneIds := by
  rw [paneIds_eq_placements, paneIds_eq_placements, placements_stopPanes, List.map_map]
  rfl

theorem Valid.stopPanes {c : SessionCatalog} (hv : c.Valid) : c.stopPanes.Valid where
  count := by simpa [SessionCatalog.stopPanes] using hv.count
  active := by simpa [SessionCatalog.stopPanes] using hv.active
  activeMem := by simpa [SessionCatalog.stopPanes] using hv.activeMem
  keyed := by
    intro e he
    obtain ⟨x, hx, rfl⟩ := List.mem_map.mp he
    exact hv.keyed x hx
  sessions := by
    intro s hs
    simp only [SessionCatalog.stopPanes, SortedMap.values_mapValues, List.mem_map] at hs
    obtain ⟨t, ht, rfl⟩ := hs
    exact (hv.sessions t ht).stopPanes
  paneIds := by rw [paneIds_stopPanes]; exact hv.paneIds
  total := by rw [paneIds_stopPanes]; exact hv.total

theorem stoppedClone_eq_ok {c c' : SessionCatalog} :
    c.stoppedClone = .ok c' ↔ c.Valid ∧ c' = c.stopPanes := by
  rw [← validate_iff]
  unfold stoppedClone
  cases c.validate with
  | error e => simp [bind, Except.bind]
  | ok u => simp [bind, Except.bind, pure, Except.pure, eq_comm]

end SessionCatalog
end Strukt
