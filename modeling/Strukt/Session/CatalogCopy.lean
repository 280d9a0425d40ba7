import Strukt.Session.CatalogUpdate

/-!
# New windows: copies and imports

The operations that create windows draw their identifiers from a `RandomSource`. When these are new
to the catalog (`RandomSource.FreshIn`), the created windows are valid, with distinct identifiers,
and have only new panes (`NewWindows`).

* **Copies** (`copyPanes_spec`, `copy_spec`, `copyWindows_spec`): a copied window has a fresh
  stopped pane for each of its source's panes, and the same layout over them.
* **Imports** (`importPanes_spec`, `importWindows_spec`): the imported windows have the supplied
  panes, each once.
-/

namespace Strukt

/-- The identifiers that the source returns are distinct, and none is in the catalog. -/
structure RandomSource.FreshIn (rng : RandomSource) (c : SessionCatalog) : Prop where
  nodup : rng.Nodup
  session : ∀ v ∈ rng, (⟨v⟩ : SessionId) ∉ c.sessions.keys
  window : ∀ v ∈ rng, ∀ s ∈ c.sessions.values, ∀ w ∈ s.windows, w.id ≠ ⟨v⟩
  pane : ∀ v ∈ rng, (⟨v⟩ : PaneId) ∉ c.paneIds

instance (rng : RandomSource) (c : SessionCatalog) : Decidable (rng.FreshIn c) :=
  decidable_of_iff (rng.Nodup ∧ rng.all (fun v => (⟨v⟩ : SessionId) ∉ c.sessions.keys) ∧
    rng.all (fun v => c.sessions.values.all fun s => s.windows.all fun w => w.id ≠ ⟨v⟩) ∧
    rng.all (fun v => (⟨v⟩ : PaneId) ∉ c.paneIds)) (by
      simp only [List.all_eq_true, decide_eq_true_eq]
      exact ⟨fun ⟨h₁, h₂, h₃, h₄⟩ => ⟨h₁, h₂, h₃, h₄⟩, fun ⟨h₁, h₂, h₃, h₄⟩ => ⟨h₁, h₂, h₃, h₄⟩⟩)

theorem newId_eq_ok {kind : IdKind} {rng rest : RandomSource} {id : OpaqueId kind} :
    newId kind rng = .ok (id, rest) ↔ rng = id.value :: rest := by
  cases rng with
  | nil => simp [newId, OpaqueId.new, Except.mapError]
  | cons v rng =>
    simp only [newId, OpaqueId.new, Except.mapError, Except.ok.injEq, Prod.mk.injEq,
      List.cons.injEq]
    constructor
    · rintro ⟨rfl, rfl⟩; exact ⟨rfl, rfl⟩
    · rintro ⟨rfl, rfl⟩; exact ⟨rfl, rfl⟩

theorem validatedName_idem {n m : String} (h : validatedName n = .ok m) :
    (validatedName m).toBool := by
  simp only [validatedName] at h
  split at h
  · cases h
  · rename_i hn
    cases h
    simp only [validatedName, trim_idem, if_neg hn, Except.toBool]

theorem validatedDirectory_eq_ok {d d' : PathBuf} (h : validatedDirectory d = .ok d') :
    d' = d ∧ d.bytes ≠ [] := by
  unfold validatedDirectory at h
  split at h
  · cases h
  · cases h; exact ⟨rfl, ‹_›⟩

theorem default_size_pos : 0 < defaultRows ∧ 0 < defaultColumns := by decide

/-! ## New windows -/

/-- A window of one new pane. -/
theorem SessionWindow.valid_single {wid : WindowId} {name : String} {p : PaneId} {d : PathBuf}
    (hname : (validatedName name).toBool) (hd : d.bytes ≠ []) :
    SessionWindow.Valid
      ⟨wid, name, 1, .pane p, p, .singleton p (.stopped p d defaultRows defaultColumns)⟩ where
  revision := (by decide : (1 : UInt64) ≠ 0)
  name := hname
  count := by simp [SortedMap.length, SortedMap.singleton, maxPanesPerWindow]
  focused := by simp
  sizes := by
    intro q hq
    rw [SortedMap.values_singleton, List.mem_singleton] at hq
    subst hq
    exact default_size_pos
  layout := by
    refine ⟨by simp [SessionLayoutNode.height, maxLayoutDepth], trivial, ?_, ?_⟩ <;>
      simp [SessionLayoutNode.leaves]
  ids := by
    intro e he
    obtain rfl := List.mem_singleton.mp he
    rfl
  directories := by
    intro e he
    obtain rfl := List.mem_singleton.mp he
    exact hd

theorem Session.paneIds_single {sid : SessionId} {name : String} {r : UInt64} {w : SessionWindow}
    {a : WindowId} : Session.paneIds ⟨sid, name, r, [w], a⟩ = w.panes.keys := by
  simp [Session.paneIds_eq]

theorem Session.placements_single {sid : SessionId} {name : String} {r : UInt64}
    {w : SessionWindow} {a : WindowId} :
    Session.placements ⟨sid, name, r, [w], a⟩ = w.panes.entries := by
  simp [Session.placements]

/-- A session of new windows. -/
theorem Session.valid_new {sid : SessionId} {name : String} {ws : List SessionWindow}
    {a : SessionWindow} (hname : (validatedName name).toBool) (ha : a ∈ ws)
    (hcount : ws.length ≤ maxWindowsPerSession) (hids : (ws.map (·.id)).Nodup)
    (hws : ∀ w ∈ ws, w.Valid) : Session.Valid ⟨sid, name, 1, ws, a.id⟩ :=
  ⟨(by decide : (1 : UInt64) ≠ 0), hname, List.ne_nil_of_mem ha, hcount, ⟨a, ha, rfl⟩, hids, hws⟩

namespace SessionCatalog

/-- What `copyPanes` returns: a fresh identifier for each source, in order, and its stopped pane. -/
theorem copyPanes_spec {sources : List SessionPane} {rng rng' : RandomSource}
    {ids ids' : SortedMap PaneId PaneId} {panes panes' : SortedMap PaneId SessionPane}
    (h : copyPanes sources rng ids panes = .ok (ids', panes', rng'))
    (hs : (sources.map (·.id)).Nodup) (hrng : rng.Nodup)
    (hpanes : ∀ v ∈ rng, (⟨v⟩ : PaneId) ∉ panes.keys) :
    ∃ used, rng = used ++ rng' ∧ used.length = sources.length ∧
      (∀ p q, ids'.get? p = some q ↔ (∃ e ∈ sources.zip used, p = e.1.id ∧ q = ⟨e.2⟩) ∨
        (p ∉ sources.map (·.id) ∧ ids.get? p = some q)) ∧
      (∀ x, x ∈ panes'.entries ↔ (∃ e ∈ sources.zip used, x = (⟨e.2⟩,
        .stopped ⟨e.2⟩ e.1.workingDirectory e.1.requestedRows e.1.requestedColumns)) ∨
          x ∈ panes.entries) ∧
      panes'.length = panes.length + sources.length := by
  induction sources generalizing rng ids panes with
  | nil =>
    simp only [copyPanes, Except.ok.injEq, Prod.mk.injEq] at h
    obtain ⟨rfl, rfl, rfl⟩ := h
    exact ⟨[], by simp⟩
  | cons s sources ih =>
    obtain ⟨hs₁, hs₂⟩ := List.nodup_cons.mp hs
    simp only [copyPanes] at h
    rcases hn : newId .pane rng with _ | ⟨⟨v⟩, rest⟩
    · simp [hn, bind, Except.bind] at h
    simp only [hn, bind, Except.bind] at h
    obtain rfl := newId_eq_ok.mp hn
    obtain ⟨hv, hrest⟩ := List.nodup_cons.mp hrng
    have hq : (⟨v⟩ : PaneId) ∉ panes.keys := hpanes v (by simp)
    obtain ⟨used, rfl, hlen, hids, hmem, hcount⟩ := ih h hs₂ hrest (by
      intro u hu
      rw [SortedMap.mem_keys_insert, not_or]
      refine ⟨fun he => ?_, hpanes u (List.mem_cons_of_mem _ hu)⟩
      cases he
      exact hv hu)
    refine ⟨v :: used, rfl, by simp [hlen], ?_, ?_, ?_⟩
    · intro p r
      rw [hids]
      simp only [SortedMap.get?_insert, List.zip_cons_cons, List.mem_cons, exists_eq_or_imp,
        List.map_cons, not_or]
      by_cases hp : p = s.id
      · subst hp
        simp only [hs₁, not_false_eq_true, if_true, Option.some.injEq, true_and,
          not_true_eq_false, false_and, or_false, eq_comm (a := r)]
        exact or_comm
      · simp [hp]
    · intro x
      rw [hmem]
      simp only [SortedMap.mem_insert, List.zip_cons_cons, List.mem_cons, exists_eq_or_imp]
      constructor
      · rintro (hx | rfl | ⟨-, hx⟩)
        exacts [.inl (.inr hx), .inl (.inl rfl), .inr hx]
      · rintro ((rfl | hx) | hx)
        · exact .inr (.inl rfl)
        · exact .inl hx
        · exact .inr (.inr ⟨fun he => hq (he ▸ List.mem_map_of_mem hx), hx⟩)
    · rw [hcount, SortedMap.length_insert_of_notMem hq, List.length_cons]
      omega

/-- `ids` renames the panes of the window to those in `panes`, which are stopped copies under new
identifiers from `used`. -/
structure PanesCopied (w : SessionWindow) (ids : SortedMap PaneId PaneId)
    (panes : SortedMap PaneId SessionPane) (used : RandomSource) : Prop where
  source : ∀ p, p ∈ w.panes.keys ↔ ∃ q, ids.get? p = some q
  image : ∀ q, q ∈ panes.keys ↔ ∃ p, ids.get? p = some q
  injective : ∀ p p' q, ids.get? p = some q → ids.get? p' = some q → p = p'
  drawn : ∀ p q, ids.get? p = some q → q.value ∈ used
  pane : ∀ p q, ids.get? p = some q → ∃ s, w.panes.get? p = some s ∧
    panes.get? q = some (.stopped q s.workingDirectory s.requestedRows s.requestedColumns)
  length : panes.length = w.panes.length
  count : used.length = w.panes.length

variable {panes : SortedMap PaneId SessionPane}

theorem copyPanes_window {w : SessionWindow} (hw : w.Valid) {rng rng' : RandomSource}
    {ids : SortedMap PaneId PaneId}
    (h : copyPanes w.panes.values rng .empty .empty = .ok (ids, panes, rng')) (hrng : rng.Nodup) :
    ∃ used, rng = used ++ rng' ∧ PanesCopied w ids panes used := by
  have hkeys : w.panes.values.map (·.id) = w.panes.keys := by
    simp only [SortedMap.values, SortedMap.keys, List.map_map]
    exact List.map_congr_left fun e he => (hw.ids e he).symm
  obtain ⟨used, rfl, hlen, hids, hmem, hcount⟩ := copyPanes_spec h (hkeys ▸ w.panes.nodup_keys)
    hrng (by simp)
  simp only [SortedMap.get?_empty, reduceCtorEq, and_false, or_false] at hids
  have hempty : ∀ x, x ∉ (SortedMap.empty : SortedMap PaneId SessionPane).entries := by
    simp [SortedMap.empty]
  simp only [hempty, or_false] at hmem
  have hused := (List.nodup_append.mp hrng).1
  refine ⟨used, rfl, ⟨fun p => ?_, fun q => ?_, fun p p' q hp hp' => ?_, fun p q hp => ?_,
    fun p q hp => ?_, ?_, hlen.trans w.panes.length_values⟩⟩
  · rw [← hkeys, ← List.map_fst_zip hlen.ge]
    simp only [List.map_map, List.mem_map, Function.comp_apply, hids]
    constructor
    · rintro ⟨e, he, rfl⟩; exact ⟨_, e, he, rfl, rfl⟩
    · rintro ⟨q, e, he, rfl, -⟩; exact ⟨e, he, rfl⟩
  · simp only [SortedMap.keys, List.mem_map, hmem, hids]
    constructor
    · rintro ⟨x, ⟨e, he, rfl⟩, rfl⟩; exact ⟨e.1.id, e, he, rfl, rfl⟩
    · rintro ⟨p, e, he, rfl, rfl⟩; exact ⟨_, ⟨e, he, rfl⟩, rfl⟩
  · obtain ⟨e, he, rfl, rfl⟩ := (hids _ _).mp hp
    obtain ⟨e', he', rfl, heq⟩ := (hids _ _).mp hp'
    have hnd : ((w.panes.values.zip used).map (·.2)).Nodup := by
      rw [show (w.panes.values.zip used).map (·.2) = used from List.map_snd_zip hlen.le]
      exact hused
    rw [List.inj_on_of_nodup_map hnd he he' (OpaqueId.mk.inj heq)]
  · obtain ⟨e, he, rfl, rfl⟩ := (hids _ _).mp hp
    exact (List.of_mem_zip he).2
  · obtain ⟨e, he, rfl, rfl⟩ := (hids _ _).mp hp
    obtain ⟨x, hx, hx'⟩ := List.mem_map.mp (List.of_mem_zip he).1
    refine ⟨e.1, ?_, SortedMap.get?_eq_some.mpr ((hmem _).mpr ⟨e, he, rfl⟩)⟩
    rw [← hx', ← hw.ids x hx]
    exact SortedMap.get?_eq_some.mpr hx
  · rw [hcount, SortedMap.length_values]; exact Nat.zero_add _

/-- A copied pane is one of the source's, stopped. -/
theorem PanesCopied.entry {w : SessionWindow} {ids : SortedMap PaneId PaneId}
    {used : RandomSource} (h : PanesCopied w ids panes used)
    {e : PaneId × SessionPane} (he : e ∈ panes.entries) : ∃ p s, (p, s) ∈ w.panes.entries ∧
      ids.get? p = some e.1 ∧
        e.2 = .stopped e.1 s.workingDirectory s.requestedRows s.requestedColumns := by
  obtain ⟨p, hp⟩ := (h.image e.1).mp (List.mem_map_of_mem he)
  obtain ⟨s, hs, hcopy⟩ := h.pane p e.1 hp
  rw [SortedMap.get?_eq_some.mpr he] at hcopy
  exact ⟨p, s, SortedMap.get?_eq_some.mp hs, hp, Option.some.inj hcopy⟩

/-- A window with the copies of a valid window's panes, under the copied layout, is valid. -/
theorem copy_spec {w : SessionWindow} (hw : w.Valid) {rng rng' : RandomSource}
    {ids : SortedMap PaneId PaneId}
    (h : copyPanes w.panes.values rng .empty .empty = .ok (ids, panes, rng')) (hrng : rng.Nodup)
    (wid : WindowId) {name : String} (hname : (validatedName name).toBool)
    {root : SessionLayoutNode} (hroot : w.root.remap ids = .ok root) {focused : PaneId}
    (hf : ids.get? w.focusedPane = some focused) :
    SessionWindow.Valid ⟨wid, name, 1, root, focused, panes⟩ ∧
      panes.length = w.panes.length ∧
      ∃ used, rng = used ++ rng' ∧ ∀ e ∈ panes.entries, e.1.value ∈ used ∧ e.2.IsNew := by
  obtain ⟨used, rfl, hcopied⟩ := copyPanes_window hw h hrng
  obtain ⟨root', hroot', hleaves, hheight, hratios⟩ := SessionLayoutNode.remap_spec
    fun p (hp : p ∈ w.root.leaves) =>
      SortedMap.mem_keys_iff.mpr ((hcopied.source p).mp ((hw.layout.mem p).mp hp))
  cases hroot.symm.trans hroot'
  have hnd : (w.root.leaves.map ids.get?).Nodup := by
    refine hw.layout.nodup.map_on fun p hp p' hp' he => ?_
    obtain ⟨q, hq⟩ := (hcopied.source p).mp ((hw.layout.mem p).mp hp)
    exact hcopied.injective p p' q hq (he ▸ hq)
  refine ⟨⟨(by decide : (1 : UInt64) ≠ 0), hname, ?_, ?_, ?_, ⟨?_, hratios.mpr hw.layout.ratios,
    ?_, ?_⟩, ?_, ?_⟩, hcopied.length, used, rfl, ?_⟩
  · exact hcopied.length ▸ hw.count
  · exact (hcopied.image _).mpr ⟨_, hf⟩
  · intro p hp
    obtain ⟨e, he, rfl⟩ := List.mem_map.mp hp
    obtain ⟨q, s, hs, -, hs'⟩ := hcopied.entry he
    rw [hs']
    exact hw.sizes s (List.mem_map_of_mem hs)
  · exact hheight.le.trans hw.layout.height
  · rw [hleaves] at hnd
    exact hnd.of_map _
  · intro q
    have : q ∈ root.leaves ↔ some q ∈ w.root.leaves.map ids.get? := by simp [hleaves]
    rw [this, hcopied.image, List.mem_map]
    constructor
    · rintro ⟨p, -, hp⟩; exact ⟨p, hp⟩
    · rintro ⟨p, hp⟩; exact ⟨p, (hw.layout.mem p).mpr ((hcopied.source p).mpr ⟨q, hp⟩), hp⟩
  · intro e he
    obtain ⟨q, s, -, -, hs⟩ := hcopied.entry he
    rw [hs]; rfl
  · intro e he
    obtain ⟨q, s, hs, -, hs'⟩ := hcopied.entry he
    rw [hs']
    exact hw.directories _ hs
  · intro e he
    obtain ⟨q, s, -, hq, hs⟩ := hcopied.entry he
    exact ⟨hcopied.drawn q e.1 hq, hs ▸ SessionPane.stopped_isNew⟩

/-- Windows with new identifiers from `rng` and new panes, each pane in one window. -/
structure NewWindows (ws : List SessionWindow) (rng : RandomSource) : Prop where
  valid : ∀ w ∈ ws, w.Valid
  drawn : ∀ w ∈ ws, w.id.value ∈ rng
  ids : (ws.map (·.id)).Nodup
  panes : (ws.flatMap (·.panes.keys)).Nodup
  isNew : ∀ w ∈ ws, ∀ e ∈ w.panes.entries, e.2.IsNew

theorem NewWindows.cons {w : SessionWindow} {ws : List SessionWindow} {v : Fin (2 ^ 128)}
    {rng rng' : RandomSource} (h : NewWindows ws rng') (hsub : rng'.Sublist rng)
    (hrng : (v :: rng).Nodup) (hw : w.Valid) (hid : w.id = ⟨v⟩)
    (hnew : ∀ e ∈ w.panes.entries, e.2.IsNew)
    (hpanes : ∀ p ∈ w.panes.keys, p ∉ ws.flatMap (·.panes.keys)) :
    NewWindows (w :: ws) (v :: rng) where
  valid := List.forall_mem_cons.mpr ⟨hw, h.valid⟩
  drawn := List.forall_mem_cons.mpr
    ⟨by simp [hid], fun u hu => List.mem_cons_of_mem _ (hsub.subset (h.drawn u hu))⟩
  ids := by
    refine List.nodup_cons.mpr ⟨fun hm => ?_, h.ids⟩
    obtain ⟨u, hu, he⟩ := List.mem_map.mp hm
    have hv := hsub.subset (h.drawn u hu)
    rw [he.trans hid] at hv
    exact (List.nodup_cons.mp hrng).1 hv
  panes := by
    refine List.nodup_append.mpr ⟨w.panes.nodup_keys, h.panes, ?_⟩
    rintro p hp q hq rfl
    exact hpanes p hp hq
  isNew := List.forall_mem_cons.mpr ⟨hnew, h.isNew⟩

/-- What `copyWindows` returns: as many windows, with fresh copies of the panes. -/
theorem copyWindows_spec {activeWindow : WindowId} {ws ws' : List SessionWindow}
    {rng : RandomSource} {a a' : Option WindowId}
    (h : copyWindows activeWindow ws rng a = .ok (ws', a')) (hws : ∀ w ∈ ws, w.Valid)
    (hrng : rng.Nodup) :
    NewWindows ws' rng ∧ (∀ w ∈ ws', ∀ p ∈ w.panes.keys, p.value ∈ rng) ∧
      ws'.length = ws.length ∧ ws'.map (·.panes.length) = ws.map (·.panes.length) ∧
      ∀ k, a' = some k → a = some k ∨ ∃ w ∈ ws', w.id = k := by
  induction ws generalizing rng a ws' a' with
  | nil =>
    simp only [copyWindows, Except.ok.injEq, Prod.mk.injEq] at h
    obtain ⟨rfl, rfl⟩ := h
    exact ⟨⟨by simp, by simp, by simp, by simp, by simp⟩, by simp⟩
  | cons w ws ih =>
    obtain ⟨hw, hws⟩ := List.forall_mem_cons.mp hws
    simp only [copyWindows] at h
    rcases hn : newId .window rng with _ | ⟨⟨v⟩, rng₁⟩
    · simp [hn, bind, Except.bind] at h
    obtain rfl := newId_eq_ok.mp hn
    rcases hc : copyPanes w.panes.values rng₁ .empty .empty with _ | ⟨ids, panes, rng₂⟩
    · simp [hn, hc, bind, Except.bind] at h
    simp only [hn, hc, bind, Except.bind] at h
    cases hf : ids.get? w.focusedPane with
    | none => simp [hf] at h
    | some focused =>
    rcases hr : w.root.remap ids with _ | root
    · simp [hf, hr] at h
    rcases hrec : copyWindows activeWindow ws rng₂ (if w.id = activeWindow then some ⟨v⟩ else a)
      with _ | ⟨ws₁, a₁⟩
    · simp [hf, hr, hrec] at h
    simp only [hf, hr, hrec, pure, Except.pure, Except.ok.injEq, Prod.mk.injEq] at h
    obtain ⟨rfl, rfl⟩ := h
    obtain ⟨hw', hlen, used, rfl, hnew⟩ := copy_spec hw hc (List.nodup_cons.mp hrng).2
      ⟨v⟩ hw.name hr hf
    obtain ⟨-, hrng₂, hdisj⟩ := List.nodup_append.mp (List.nodup_cons.mp hrng).2
    obtain ⟨hws', hkeys, hlen', hlens, hactive⟩ := ih hrec hws hrng₂
    have hkey : ∀ p ∈ panes.keys, p.value ∈ used := by
      intro p hp
      obtain ⟨e, he, rfl⟩ := List.mem_map.mp hp
      exact (hnew e he).1
    refine ⟨hws'.cons (List.sublist_append_right _ _) hrng hw' rfl (fun e he => (hnew e he).2) ?_,
      ?_, by simp [hlen'], by simp [hlen, hlens], ?_⟩
    · intro p hp hm
      obtain ⟨u, hu, hp'⟩ := List.mem_flatMap.mp hm
      exact hdisj _ (hkey p hp) _ (hkeys u hu p hp') rfl
    · refine List.forall_mem_cons.mpr ⟨fun p hp => ?_, fun u hu p hp => ?_⟩
      · simp [hkey p hp]
      · simp [hkeys u hu p hp]
    · intro k hk
      rcases hactive k hk with h | ⟨u, hu, rfl⟩
      · split at h
        · exact .inr ⟨_, List.mem_cons_self .., Option.some.inj h⟩
        · exact .inl h
      · exact .inr ⟨u, by simp [hu], rfl⟩

/-- What `importPanes` returns: a stopped pane for each entry, none seen before. -/
theorem importPanes_spec {l : List (PaneId × PathBuf)} {all all' : List PaneId}
    {panes panes' : SortedMap PaneId SessionPane}
    (h : importPanes l all panes = .ok (all', panes')) (hall : ∀ p ∈ panes.keys, p ∈ all) :
    all' = (l.map (·.1)).reverse ++ all ∧ (l.map (·.1)).Nodup ∧ (∀ e ∈ l, e.1 ∉ all) ∧
      (∀ x, x ∈ panes'.entries ↔ (∃ e ∈ l, e.2.bytes ≠ [] ∧
        x = (e.1, .stopped e.1 e.2 defaultRows defaultColumns)) ∨ x ∈ panes.entries) ∧
      panes'.length = panes.length + l.length := by
  induction l generalizing all panes with
  | nil =>
    simp only [importPanes, Except.ok.injEq, Prod.mk.injEq] at h
    obtain ⟨rfl, rfl⟩ := h
    simp
  | cons e l ih =>
    obtain ⟨p, d⟩ := e
    simp only [importPanes] at h
    split at h
    · cases h
    rename_i hp
    rcases hd : validatedDirectory d with _ | d'
    · simp [hd, bind, Except.bind] at h
    simp only [hd, bind, Except.bind] at h
    obtain ⟨rfl, hne⟩ := validatedDirectory_eq_ok hd
    have hpk : p ∉ panes.keys := fun hk => hp (hall p hk)
    obtain ⟨rfl, hn, hl, hmem, hlen⟩ := ih h (by
      intro q hq
      rcases SortedMap.mem_keys_insert.mp hq with rfl | hq
      · simp
      · simp [hall q hq])
    refine ⟨by simp, List.nodup_cons.mpr ⟨fun hm => ?_, hn⟩, ?_, fun x => ?_, ?_⟩
    · obtain ⟨e, he, rfl⟩ := List.mem_map.mp hm
      exact hl e he (by simp)
    · exact List.forall_mem_cons.mpr ⟨hp, fun e he hm => hl e he (List.mem_cons_of_mem _ hm)⟩
    · rw [hmem]
      simp only [SortedMap.mem_insert, List.mem_cons, exists_eq_or_imp]
      constructor
      · rintro (hx | rfl | ⟨-, hx⟩)
        exacts [.inl (.inr hx), .inl (.inl ⟨hne, rfl⟩), .inr hx]
      · rintro ((⟨-, rfl⟩ | hx) | hx)
        · exact .inr (.inl rfl)
        · exact .inl hx
        · exact .inr (.inr ⟨fun he => hpk (he ▸ List.mem_map_of_mem hx), hx⟩)
    · rw [hlen, SortedMap.length_insert_of_notMem hpk, List.length_cons]
      omega

/-- What `importWindows` returns: a window for each definition, with its panes. -/
theorem importWindows_spec {defs : List StoppedWindowDefinition} {all : List PaneId}
    {rng : RandomSource} {ws : List SessionWindow} (h : importWindows defs all rng = .ok ws) :
    (rng.Nodup → NewWindows ws rng) ∧ ws.length = defs.length ∧
      ws.map (·.panes.length) = defs.map (·.panes.length) ∧
      (∀ p, p ∈ ws.flatMap (·.panes.keys) ↔ ∃ d ∈ defs, p ∈ d.panes.map (·.1)) ∧
      ∀ p ∈ ws.flatMap (·.panes.keys), p ∉ all := by
  induction defs generalizing all rng ws with
  | nil =>
    simp only [importWindows, Except.ok.injEq] at h
    subst h
    exact ⟨fun _ => ⟨by simp, by simp, by simp, by simp, by simp⟩, by simp⟩
  | cons d defs ih =>
    simp only [importWindows] at h
    rcases hname : validatedName d.name with _ | name
    · simp [hname, bind, Except.bind] at h
    rcases hp : importPanes d.panes all .empty with _ | ⟨all', panes⟩
    · simp [hname, hp, bind, Except.bind] at h
    simp only [hname, hp, bind, Except.bind] at h
    split at h
    · cases h
    rename_i hok
    push Not at hok
    obtain ⟨-, hcount, hfocus, hroot⟩ := hok
    rcases hn : newId .window rng with _ | ⟨⟨v⟩, rng'⟩
    · simp [hn] at h
    obtain rfl := newId_eq_ok.mp hn
    simp only [hn] at h
    rcases hrec : importWindows defs all' rng' with _ | ws'
    · simp [hrec] at h
    simp only [hrec, pure, Except.pure, Except.ok.injEq] at h
    subst h
    obtain ⟨rfl, hnd, hall, hmem, hlen⟩ := importPanes_spec hp (by simp)
    obtain ⟨hws, hlen', hlens, hkeys, hfresh⟩ := ih hrec
    have hempty : ∀ x, x ∉ (SortedMap.empty : SortedMap PaneId SessionPane).entries := by
      simp [SortedMap.empty]
    simp only [hempty, or_false] at hmem
    have hpanes : ∀ p, p ∈ panes.keys → p ∈ d.panes.map (·.1) := by
      intro p hp
      obtain ⟨x, hx, rfl⟩ := List.mem_map.mp hp
      obtain ⟨e, he, -, rfl⟩ := (hmem x).mp hx
      exact List.mem_map_of_mem he
    have hlength : panes.length = d.panes.length := hlen.trans (Nat.zero_add _)
    -- As many distinct identifiers as entries: every entry has its pane.
    have hpanes' : ∀ p, p ∈ panes.keys ↔ p ∈ d.panes.map (·.1) := by
      have hsub : panes.keys.Subperm (d.panes.map (·.1)) :=
        List.subperm_of_subset panes.nodup_keys hpanes
      exact fun p => (hsub.perm_of_length_le (by simp [hlength])).mem_iff
    have hvalid : SessionWindow.Valid ⟨⟨v⟩, name, 1, d.root, d.focusedPane, panes⟩ := by
      refine ⟨(by decide : (1 : UInt64) ≠ 0), validatedName_idem hname, by simpa using hcount,
        by simpa using hfocus, ?_, SessionLayoutNode.validate_iff.mp (by simpa using hroot), ?_, ?_⟩
      · intro p hp
        obtain ⟨x, hx, rfl⟩ := List.mem_map.mp hp
        obtain ⟨e, -, -, rfl⟩ := (hmem x).mp hx
        exact default_size_pos
      · intro x hx
        obtain ⟨e, -, -, rfl⟩ := (hmem x).mp hx
        rfl
      · intro x hx
        obtain ⟨e, -, hne, rfl⟩ := (hmem x).mp hx
        exact hne
    refine ⟨fun hrng => (hws (List.nodup_cons.mp hrng).2).cons (List.Sublist.refl _) hrng hvalid rfl
      ?_ ?_, by simp [hlen'], by simp [hlength, hlens], fun p => ?_, fun p hp => ?_⟩
    · intro x hx
      obtain ⟨e, -, -, rfl⟩ := (hmem x).mp hx
      exact SessionPane.stopped_isNew
    · intro p hp hp'
      refine hfresh p hp' ?_
      simpa using Or.inl (hpanes p hp)
    · simp only [List.flatMap_cons, List.mem_append, List.mem_cons, exists_eq_or_imp, hkeys,
        hpanes']
    · rcases List.mem_append.mp hp with hp | hp
      · obtain ⟨e, he, rfl⟩ := List.mem_map.mp (hpanes p hp)
        exact hall e he
      · exact fun ha => hfresh p hp (List.mem_append_right _ ha)

end SessionCatalog
end Strukt
