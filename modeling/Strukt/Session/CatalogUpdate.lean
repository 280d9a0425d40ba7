import Strukt.Session.CatalogValid

/-!
# Updates of a valid catalog

The operations change a catalog in a few ways: they put a session in place of one
(`Valid.put`), among them a session with one window in place of another (`Valid.withWindow`), add a
session (`Valid.add`) or remove one (`Valid.remove`). Each lemma says what keeps the catalog valid:
the new part is valid by itself, its panes are old ones of that part or new to the catalog, and the
total stays within its limit.

`Evolves t c c'` says that `c'` has the panes of `c`, unchanged, but for those that the turnover `t`
gives up, and new stopped ones that it draws.
-/

namespace Strukt

/-- A pane at generation zero, stopped. -/
def SessionPane.IsNew (p : SessionPane) : Prop := p.generation = 0 ∧ p.lifecycle = .stopped

theorem SessionPane.stopped_isNew {id : PaneId} {d : PathBuf} {r k : UInt16} :
    (SessionPane.stopped id d r k).IsNew := ⟨rfl, rfl⟩

/-- The panes that an operation may add to a catalog and those that it may take from it. -/
structure Turnover where
  drawn : PaneId → Prop
  gone : PaneId → Prop

namespace Turnover

def none : Turnover := ⟨fun _ => False, fun _ => False⟩

def draws (rng : RandomSource) : Turnover := ⟨fun p => p.value ∈ rng, fun _ => False⟩

def drops (gone : PaneId → Prop) : Turnover := ⟨fun _ => False, gone⟩

end Turnover

/-! ## One window of a session -/

namespace Session

variable {s : Session} {p : SessionWindow → Bool} {w w' : SessionWindow}

/-- The window that `findWindow` finds has a slot, which `putWindow` fills. -/
theorem exists_slot (h : s.findWindow p = some w) :
    p w ∧ ∃ pre post, s.windows = pre ++ w :: post ∧
      ∀ v, (s.putWindow p v).windows = pre ++ v :: post := by
  obtain ⟨hp, pre, post, hs, hpre⟩ := List.find?_eq_some_iff_append.mp h
  refine ⟨hp, pre, post, hs, fun v => ?_⟩
  simp only [putWindow, hs]
  clear hs h
  induction pre with
  | nil => simp [List.replaceF, hp]
  | cons a pre ih =>
    have ha : p a = false := by simpa using hpre a (by simp)
    simp [List.replaceF, ha, ih fun b hb => hpre b (by simp [hb])]

theorem mem_of_findWindow (h : s.findWindow p = some w) : w ∈ s.windows :=
  List.mem_of_find?_eq_some h

theorem placements_of_slot {s' : Session} {pre post : List SessionWindow}
    (h : s'.windows = pre ++ w :: post) :
    s'.placements = pre.flatMap (·.panes.entries) ++ w.panes.entries ++
      post.flatMap (·.panes.entries) := by
  simp [placements, h]

theorem id_commitWindow : (s.commitWindow p w').id = s.id := rfl

theorem windows_commitWindow (w' : SessionWindow) {pre post : List SessionWindow}
    (h : ∀ v, (s.putWindow p v).windows = pre ++ v :: post) :
    (s.commitWindow p w').windows =
      pre ++ { w' with revision := w'.revision.satSucc } :: post :=
  h _

theorem Valid.commitWindow (hs : s.Valid) (h : s.findWindow p = some w) (hid : w'.id = w.id)
    (hw : w'.Valid) : (s.commitWindow p w').Valid := by
  obtain ⟨-, pre, post, hwin, hput⟩ := exists_slot h
  have hwin' := windows_commitWindow w' hput
  refine ⟨satSucc_ne_zero _, hs.name, ?_, ?_, ?_, ?_, ?_⟩
  · simp [hwin']
  · have := hs.count
    simp only [hwin', hwin, List.length_append, List.length_cons] at this ⊢
    exact this
  · obtain ⟨v, hv, ha⟩ := hs.active
    rw [hwin] at hv
    rw [hwin']
    simp only [List.mem_append, List.mem_cons] at hv ⊢
    rcases hv with hv | rfl | hv
    · exact ⟨v, .inl hv, ha⟩
    · exact ⟨_, .inr (.inl rfl), hid.trans ha⟩
    · exact ⟨v, .inr (.inr hv), ha⟩
  · have := hs.windowIds
    simpa [hwin', hwin, hid] using this
  · intro v hv
    rw [hwin', List.mem_append, List.mem_cons] at hv
    rcases hv with hv | rfl | hv
    · exact hs.windows v (by simp [hwin, hv])
    · exact ⟨satSucc_ne_zero _, hw.name, hw.count, hw.focused, hw.sizes, hw.layout, hw.ids,
        hw.directories⟩
    · exact hs.windows v (by simp [hwin, hv])

/-- The panes after a window was replaced: those of the other windows, and the new window's. -/
theorem mem_placements_commitWindow (h : s.findWindow p = some w) {e : PaneId × SessionPane} :
    e ∈ (s.commitWindow p w').placements → e ∈ w'.panes.entries ∨ e ∈ s.placements := by
  obtain ⟨-, pre, post, hwin, hput⟩ := exists_slot h
  rw [placements_of_slot (windows_commitWindow w' hput), placements_of_slot hwin]
  simp only [List.mem_append]
  tauto

theorem mem_commitWindow_placements (h : s.findWindow p = some w) {e : PaneId × SessionPane} :
    e ∈ s.placements → e ∈ w.panes.entries ∨ e ∈ (s.commitWindow p w').placements := by
  obtain ⟨-, pre, post, hwin, hput⟩ := exists_slot h
  rw [placements_of_slot (windows_commitWindow w' hput), placements_of_slot hwin]
  simp only [List.mem_append]
  tauto

theorem entries_subset_commitWindow (h : s.findWindow p = some w) {e : PaneId × SessionPane}
    (he : e ∈ w'.panes.entries) : e ∈ (s.commitWindow p w').placements := by
  obtain ⟨-, pre, post, -, hput⟩ := exists_slot h
  rw [placements_of_slot (windows_commitWindow w' hput)]
  simp only [List.mem_append]
  exact .inl (.inr he)

end Session

namespace SessionCatalog

variable {c c' : SessionCatalog} {k : SessionId} {s s' : Session} {t : Turnover}

/-- Every pane of `c'` is a pane of `c`, unchanged, or a new one; and every pane of `c` is a pane
of `c'`, unchanged, or given up. -/
structure Evolves (t : Turnover) (c c' : SessionCatalog) : Prop where
  backward : ∀ x ∈ c'.placements,
    x ∈ c.placements ∨ (x.2.1 ∉ c.paneIds ∧ t.drawn x.2.1 ∧ x.2.2.IsNew)
  forward : ∀ x ∈ c.placements, x ∈ c'.placements ∨ t.gone x.2.1

theorem Evolves.of_eq (h : c'.placements = c.placements) : Evolves t c c' :=
  ⟨fun _ hx => .inl (h ▸ hx), fun _ hx => .inl (h ▸ hx)⟩

/-- The sessions behind the panes. -/
theorem mem_placements_get {x : SessionId × PaneId × SessionPane} :
    x ∈ c.placements ↔
      ∃ j v, c.sessions.get? j = some v ∧ v.id = x.1 ∧ x.2 ∈ v.placements := by
  rw [mem_placements]
  constructor
  · rintro ⟨v, hval, hid, hx⟩
    obtain ⟨j, hj⟩ := SortedMap.mem_values_iff.mp hval
    exact ⟨j, v, hj, hid, hx⟩
  · rintro ⟨j, v, hj, hid, hx⟩
    exact ⟨v, SortedMap.mem_values_of_get? hj, hid, hx⟩

/-! ## Slots of the catalog -/

theorem Valid.session (hv : c.Valid) (hk : c.sessions.get? k = some s) : s.Valid ∧ s.id = k :=
  ⟨hv.sessions s (SortedMap.mem_values_of_get? hk),
    (hv.keyed (k, s) (SortedMap.get?_eq_some.mp hk)).symm⟩

/-- The pane identifiers around a session's slot. -/
theorem exists_paneIds_slot (hk : c.sessions.get? k = some s) :
    ∃ pre post, c.paneIds = pre ++ s.paneIds ++ post ∧ ∀ s' : Session, ∀ r a,
      paneIds ⟨r, c.sessions.insert k s', a⟩ = pre ++ s'.paneIds ++ post := by
  obtain ⟨pre, post, he⟩ := SortedMap.exists_split hk
  refine ⟨pre.flatMap (·.2.paneIds), post.flatMap (·.2.paneIds), ?_, fun s' r a => ?_⟩
  · simp [paneIds_eq_flatMap, he]
  · simp [paneIds_eq_flatMap, SortedMap.entries_insert_of_split he]

theorem Valid.nodup_session (hv : c.Valid) (hk : c.sessions.get? k = some s) : s.paneIds.Nodup := by
  obtain ⟨pre, post, hp, -⟩ := exists_paneIds_slot hk
  have := hv.paneIds
  rw [hp] at this
  exact (List.nodup_append.mp (List.nodup_append.mp this).1).2.1

theorem paneIds_of_session (hk : c.sessions.get? k = some s) {p : PaneId} (h : p ∈ s.paneIds) :
    p ∈ c.paneIds :=
  List.mem_flatMap.mpr ⟨s, SortedMap.mem_values_of_get? hk, h⟩

theorem keyed_insert (hc : ∀ e ∈ c.sessions.entries, e.1 = e.2.id) (hid : s'.id = k) :
    ∀ e ∈ (c.sessions.insert k s').entries, e.1 = e.2.id := by
  intro e he
  rcases SortedMap.mem_insert.mp he with rfl | ⟨-, he⟩
  · exact hid.symm
  · exact hc e he

variable {r : UInt64}

/-- A session in place of another. -/
theorem Valid.put (hv : c.Valid) (hk : c.sessions.get? k = some s) (hid : s'.id = k)
    (hs : s'.Valid) (hn : s'.paneIds.Nodup) (hnew : ∀ p ∈ s'.paneIds, p ∈ s.paneIds ∨ p ∉ c.paneIds)
    (ht : c.paneIds.length + s'.paneIds.length ≤ maxTotalPanes + s.paneIds.length) :
    Valid ⟨r, c.sessions.insert k s', c.activeSession⟩ := by
  obtain ⟨pre, post, hp, hp'⟩ := exists_paneIds_slot hk
  have hkeys := SortedMap.keys_insert_of_mem (w := s') hk
  have hnd := hv.paneIds
  rw [hp] at hnd
  obtain ⟨hnd₁, hnd₂, hd⟩ := List.nodup_append.mp hnd
  obtain ⟨hnd₃, -, hd'⟩ := List.nodup_append.mp hnd₁
  -- A pane of the new session is not one of another session's.
  have hout : ∀ p ∈ s'.paneIds, p ∉ pre ∧ p ∉ post := by
    intro p hps
    rcases hnew p hps with h | h
    · exact ⟨fun hpre => hd' p hpre p h rfl, fun hpost => hd p (by simp [h]) p hpost rfl⟩
    · rw [hp] at h
      simp only [List.mem_append, not_or] at h
      exact ⟨h.1.1, h.2⟩
  refine ⟨?_, ?_, fun j hj => hkeys ▸ hv.activeMem j hj, keyed_insert hv.keyed hid, ?_, ?_, ?_⟩
  · rw [SortedMap.length_insert_of_mem hk]; exact hv.count
  · rw [← hv.active, Bool.eq_iff_iff, SortedMap.isEmpty_iff, SortedMap.isEmpty_iff, hkeys]
  · intro v h
    rcases SortedMap.mem_values_insert h with rfl | h
    exacts [hs, hv.sessions v h]
  · rw [hp']
    refine List.nodup_append.mpr ⟨List.nodup_append.mpr ⟨hnd₃, hn, ?_⟩, hnd₂, ?_⟩
    · rintro a ha b hb rfl; exact (hout a hb).1 ha
    · rintro a ha b hb rfl
      rcases List.mem_append.mp ha with ha | ha
      · exact hd a (by simp [ha]) a hb rfl
      · exact (hout a ha).2 hb
  · rw [hp']
    rw [hp] at ht
    simp only [List.length_append] at ht ⊢
    omega

theorem Evolves.put (hk : c.sessions.get? k = some s) (hid : s'.id = s.id)
    (he : ∀ e ∈ s'.placements, e ∈ s.placements ∨ (e.1 ∉ c.paneIds ∧ t.drawn e.1 ∧ e.2.IsNew))
    (hg : ∀ e ∈ s.placements, e ∈ s'.placements ∨ t.gone e.1)
    {a : Option SessionId} : Evolves t c ⟨r, c.sessions.insert k s', a⟩ := by
  refine ⟨fun x hx => ?_, fun x hx => ?_⟩
  · obtain ⟨v, hval, hvid, hxe⟩ := mem_placements.mp hx
    rcases SortedMap.mem_values_insert hval with rfl | hval
    · rcases he _ hxe with h | h
      · exact .inl (mem_placements_get.mpr ⟨k, s, hk, hid ▸ hvid, h⟩)
      · exact .inr h
    · exact .inl (mem_placements.mpr ⟨v, hval, hvid, hxe⟩)
  · obtain ⟨j, v, hj, hvid, hxe⟩ := mem_placements_get.mp hx
    by_cases hjk : j = k
    · subst hjk
      cases hj.symm.trans hk
      refine (hg _ hxe).imp_left fun h => ?_
      exact mem_placements_get.mpr ⟨j, s', by simp, hid.trans hvid, h⟩
    · exact .inl (mem_placements_get.mpr ⟨j, v, by simp [hjk, hj], hvid, hxe⟩)

/-- A new session, made active. -/
theorem Valid.add (hv : c.Valid) (hk : k ∉ c.sessions.keys) (hc : c.sessions.length < maxSessions)
    (hid : s'.id = k) (hs : s'.Valid) (hn : s'.paneIds.Nodup)
    (ht : c.paneIds.length + s'.paneIds.length ≤ maxTotalPanes) :
    Valid ⟨r, c.sessions.insert k s', some k⟩ ↔ ∀ p ∈ s'.paneIds, p ∉ c.paneIds := by
  have hp : (SessionCatalog.paneIds ⟨r, c.sessions.insert k s', some k⟩).Perm
      (s'.paneIds ++ c.paneIds) := by
    rw [paneIds_eq_flatMap, paneIds_eq_flatMap]
    exact (SortedMap.perm_insert hk).flatMap_right _
  have hnd : (SessionCatalog.paneIds ⟨r, c.sessions.insert k s', some k⟩).Nodup ↔
      ∀ p ∈ s'.paneIds, p ∉ c.paneIds := by
    rw [hp.nodup_iff, List.nodup_append]
    constructor
    · rintro ⟨-, -, h⟩ p hp hp'; exact h p hp p hp' rfl
    · intro h; exact ⟨hn, hv.paneIds, by rintro a ha b hb rfl; exact h a ha hb⟩
  refine ⟨fun h => hnd.mp h.paneIds, fun h => ⟨?_, ?_, ?_, keyed_insert hv.keyed hid, ?_,
    hnd.mpr h, ?_⟩⟩
  · rw [SortedMap.length_insert_of_notMem hk]; omega
  · rw [Option.isNone_some, Bool.eq_false_iff, ne_eq, SortedMap.isEmpty_iff]
    exact List.ne_nil_of_mem (SortedMap.mem_keys_insert.mpr (.inl rfl))
  · rintro j hj
    cases hj
    exact SortedMap.mem_keys_insert.mpr (.inl rfl)
  · intro v h
    rcases SortedMap.mem_values_insert h with rfl | h
    exacts [hs, hv.sessions v h]
  · rw [hp.length_eq, List.length_append]; omega

theorem Evolves.add (hk : k ∉ c.sessions.keys)
    (he : ∀ e ∈ s'.placements, e.1 ∉ c.paneIds ∧ t.drawn e.1 ∧ e.2.IsNew)
    {a : Option SessionId} : Evolves t c ⟨r, c.sessions.insert k s', a⟩ := by
  refine ⟨fun x hx => ?_, fun x hx => ?_⟩
  · obtain ⟨v, hval, hvid, hxe⟩ := mem_placements.mp hx
    rcases SortedMap.mem_values_insert hval with rfl | hval
    · exact .inr (he _ hxe)
    · exact .inl (mem_placements.mpr ⟨v, hval, hvid, hxe⟩)
  · obtain ⟨j, v, hj, hvid, hxe⟩ := mem_placements_get.mp hx
    have hjk : j ≠ k := fun h => hk (h ▸ SortedMap.mem_keys_of_get? hj)
    exact .inl (mem_placements_get.mpr ⟨j, v, by simp [hjk, hj], hvid, hxe⟩)

/-- A session fewer; the active one is still a session. -/
theorem Valid.remove (hv : c.Valid) :
    Valid ⟨r, c.sessions.remove k,
      if c.activeSession = some k then (c.sessions.remove k).keys.head? else c.activeSession⟩ := by
  have hsub : (c.sessions.remove k).entries.Sublist c.sessions.entries := List.filter_sublist
  have hactive : ∀ j, (if c.activeSession = some k then (c.sessions.remove k).keys.head?
      else c.activeSession) = some j → j ∈ (c.sessions.remove k).keys := by
    intro j hj
    split at hj
    · exact List.mem_of_mem_head? hj
    · rename_i hne
      refine SortedMap.mem_keys_remove.mpr ⟨?_, hv.activeMem j hj⟩
      rintro rfl; exact hne hj
  refine ⟨(hsub.length_le).trans hv.count, ?_, hactive, fun e he => hv.keyed e (hsub.subset he),
    fun v h => hv.sessions v ((hsub.map _).subset h), ?_, ?_⟩
  · rw [Bool.eq_iff_iff, SortedMap.isEmpty_iff]
    split
    · simp
    · rename_i hne
      constructor
      · intro hnil
        cases ha : c.activeSession with
        | none => rfl
        | some j =>
          have := hactive j (by rw [if_neg hne, ha])
          rw [hnil] at this
          cases this
      · intro hnone
        have : c.sessions.isEmpty := by rw [hv.active]; exact hnone
        rw [SortedMap.isEmpty_iff] at this
        simp [SortedMap.keys_remove, this]
  · rw [paneIds_eq_flatMap]
    exact (hsub.flatMap _).nodup (paneIds_eq_flatMap c ▸ hv.paneIds)
  · rw [paneIds_eq_flatMap]
    exact (hsub.flatMap _).length_le.trans (paneIds_eq_flatMap c ▸ hv.total)

theorem Evolves.remove (hg : ∀ s, c.sessions.get? k = some s → ∀ p ∈ s.paneIds, t.gone p)
    {a : Option SessionId} : Evolves t c ⟨r, c.sessions.remove k, a⟩ := by
  refine ⟨fun x hx => ?_, fun x hx => ?_⟩
  · obtain ⟨v, hval, hvid, hxe⟩ := mem_placements.mp hx
    have hsub : (c.sessions.remove k).values.Sublist c.sessions.values :=
      List.filter_sublist.map _
    exact .inl (mem_placements.mpr ⟨v, hsub.subset hval, hvid, hxe⟩)
  · obtain ⟨j, v, hj, hvid, hxe⟩ := mem_placements_get.mp hx
    by_cases hjk : j = k
    · subst hjk
      exact .inr (hg v hj _ (List.mem_map_of_mem hxe))
    · exact .inl (mem_placements_get.mpr ⟨j, v, by simp [hjk, hj], hvid, hxe⟩)

theorem Valid.setActive (hv : c.Valid) (hk : k ∈ c.sessions.keys) :
    Valid { c with revision := r, activeSession := some k } := by
  refine ⟨hv.count, ?_, ?_, hv.keyed, hv.sessions, hv.paneIds, hv.total⟩
  · rw [Option.isNone_some, Bool.eq_false_iff, ne_eq, SortedMap.isEmpty_iff]
    exact List.ne_nil_of_mem hk
  · rintro j hj
    cases hj
    exact hk

/-! ## A window in place of another -/

/-- The catalog after `commitWindow`. -/
def withWindow (c : SessionCatalog) (k : SessionId) (s : Session) (p : SessionWindow → Bool)
    (w : SessionWindow) : SessionCatalog :=
  ⟨c.revision.satSucc, c.sessions.insert k (s.commitWindow p w), c.activeSession⟩

variable {p : SessionWindow → Bool} {w w' : SessionWindow}

theorem Valid.withWindow (hv : c.Valid) (hk : c.sessions.get? k = some s)
    (hw : s.findWindow p = some w) (hid : w'.id = w.id) (hw' : w'.Valid)
    (hnew : ∀ q ∈ w'.panes.keys, q ∈ w.panes.keys ∨ q ∉ c.paneIds)
    (ht : c.paneIds.length + w'.panes.length ≤ maxTotalPanes + w.panes.length) :
    (c.withWindow k s p w').Valid := by
  obtain ⟨hs, hsid⟩ := hv.session hk
  obtain ⟨-, pre, post, hwin, hput⟩ := Session.exists_slot hw
  have hold : s.paneIds =
      pre.flatMap (·.panes.keys) ++ w.panes.keys ++ post.flatMap (·.panes.keys) := by
    simp [Session.paneIds_eq, hwin]
  have hnewIds : (s.commitWindow p w').paneIds =
      pre.flatMap (·.panes.keys) ++ w'.panes.keys ++ post.flatMap (·.panes.keys) := by
    simp [Session.paneIds_eq, Session.windows_commitWindow w' hput]
  have hnd := hv.nodup_session hk
  rw [hold] at hnd
  obtain ⟨hnd₁, hnd₂, hd⟩ := List.nodup_append.mp hnd
  obtain ⟨hnd₃, -, hd'⟩ := List.nodup_append.mp hnd₁
  have hout : ∀ q ∈ w'.panes.keys, q ∉ pre.flatMap (·.panes.keys) ∧
      q ∉ post.flatMap (·.panes.keys) := by
    intro q hq
    rcases hnew q hq with h | h
    · exact ⟨fun hpre => hd' q hpre q h rfl,
        fun hpost => hd q (List.mem_append_right _ h) q hpost rfl⟩
    · have hq' : q ∉ s.paneIds := fun hqs => h (paneIds_of_session hk hqs)
      rw [hold] at hq'
      simp only [List.mem_append, not_or] at hq'
      exact ⟨hq'.1.1, hq'.2⟩
  refine put hv hk (Session.id_commitWindow.trans hsid) (hs.commitWindow hw hid hw') ?_ ?_ ?_
  · rw [hnewIds]
    refine List.nodup_append.mpr
      ⟨List.nodup_append.mpr ⟨hnd₃, w'.panes.nodup_keys, ?_⟩, hnd₂, ?_⟩
    · rintro a ha b hb rfl; exact (hout a hb).1 ha
    · rintro a ha b hb rfl
      rcases List.mem_append.mp ha with ha | ha
      · exact hd a (List.mem_append_left _ ha) a hb rfl
      · exact (hout a ha).2 hb
  · rw [hnewIds, hold]
    intro q hq
    simp only [List.mem_append] at hq ⊢
    rcases hq with (hq | hq) | hq
    · exact .inl (.inl (.inl hq))
    · rcases hnew q hq with h | h
      · exact .inl (.inl (.inr h))
      · exact .inr h
    · exact .inl (.inr hq)
  · rw [hnewIds, hold]
    simp only [List.length_append, SortedMap.length_keys]
    omega

theorem Evolves.withWindow (hk : c.sessions.get? k = some s) (hw : s.findWindow p = some w)
    (he : ∀ e ∈ w'.panes.entries,
      e ∈ w.panes.entries ∨ (e.1 ∉ c.paneIds ∧ t.drawn e.1 ∧ e.2.IsNew))
    (hg : ∀ e ∈ w.panes.entries, e ∈ w'.panes.entries ∨ t.gone e.1) :
    Evolves t c (c.withWindow k s p w') := by
  refine put hk Session.id_commitWindow (fun e h => ?_) (fun e h => ?_)
  · rcases Session.mem_placements_commitWindow hw h with h | h
    · rcases he e h with h | h
      · exact .inl (List.mem_flatMap.mpr ⟨w, Session.mem_of_findWindow hw, h⟩)
      · exact .inr h
    · exact .inl h
  · rcases Session.mem_commitWindow_placements hw h with h | h
    · exact (hg e h).imp_left (Session.entries_subset_commitWindow hw)
    · exact .inl h

end SessionCatalog
end Strukt
