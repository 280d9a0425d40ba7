import Strukt.Terminal.WorkspaceIds

/-!
# Snapshots of a workspace and back

* **Sound** workspaces have names and directories that the validator accepts, and each pane is
  recorded under its own identifier. Every operation keeps this.
* **Back** (`restore_snapshot`): the validator accepts the snapshot of a valid and sound workspace,
  and what is restored of it is the workspace with its panes stopped.
* **Forth** (`snapshot_restore`): the snapshot of a restored workspace is the one it was restored
  from, with each tab's panes in the order of the layout (`Relisted`).
-/

namespace Strukt

open Method

namespace TerminalWorkspace

variable {w w' : TerminalWorkspace} {tab tab' : TerminalTab} {index : Nat}

/-- The workspace with every pane stopped. -/
def stopped (w : TerminalWorkspace) : TerminalWorkspace :=
  { w with panes := w.panes.mapValues fun pane => { pane with state := .stopped } }

/-! ## Names, directories and records -/

structure Sound (w : TerminalWorkspace) : Prop where
  names : ∀ tab ∈ w.tabs, ∃ name, validatedName tab.name = .ok name
  panes : ∀ id pane, w.panes.get? id = some pane →
    pane.id = id ∧ validatedDirectory pane.workingDirectory = .ok pane.workingDirectory

theorem sound_new : new.Sound where
  names _ h := absurd h List.not_mem_nil
  panes _ _ h := by cases h

/-- What is accepted is accepted again. -/
theorem validatedName_again {name name' : String} (h : validatedName name = .ok name') :
    ∃ name'', validatedName name' = .ok name'' := by
  have htrim : trim name' = trim name := by
    unfold validatedName at h
    dsimp only at h
    split at h
    · cases h
    · split at h
      · cases h
        rfl
      · cases h
        exact trim_idem name
  have hne : ¬(trim name).isEmpty := fun hempty => by
    unfold validatedName at h
    dsimp only at h
    rw [if_pos hempty] at h
    cases h
  unfold validatedName
  dsimp only
  rw [htrim, if_neg hne]
  split
  · exact ⟨_, rfl⟩
  · exact ⟨_, rfl⟩

theorem validatedDirectory_eq {directory directory' : PathBuf}
    (h : validatedDirectory directory = .ok directory') :
    directory' = directory ∧ validatedDirectory directory' = .ok directory' := by
  have heq : directory' = directory := by
    unfold validatedDirectory at h
    split at h
    · cases h
    · cases h
      rfl
  exact ⟨heq, by rw [heq] at h ⊢; exact h⟩

theorem Sound.setTab (h : w.Sound) (ht : w.tabs[index]? = some tab) (hn : tab'.name = tab.name) :
    Sound { w with tabs := w.tabs.set index tab' } where
  names t hm := by
    rcases List.mem_or_eq_of_mem_set hm with hm | rfl
    · exact h.names t hm
    · exact hn ▸ h.names tab (List.mem_of_getElem? ht)
  panes := h.panes

theorem Sound.insertPane (h : w.Sound) {id : TerminalPaneId} (pane : TerminalPane)
    (hid : pane.id = id)
    (hd : validatedDirectory pane.workingDirectory = .ok pane.workingDirectory) :
    Sound { w with panes := w.panes.insert id pane } where
  names := h.names
  panes i p hp := by
    dsimp only at hp
    rw [SortedMap.get?_insert] at hp
    split at hp
    · rename_i heq
      cases hp
      exact ⟨hid.trans heq.symm, hd⟩
    · exact h.panes i p hp

/-- Only the active tab is another one. -/
theorem Sound.congr (h : w.Sound) (ht : w'.tabs = w.tabs) (hp : w'.panes = w.panes) : w'.Sound :=
  ⟨fun tab hm => h.names tab (ht ▸ hm), fun id pane hm => h.panes id pane (hp ▸ hm)⟩

theorem Sound.createTab (h : w.Sound) (name : String) (directory : PathBuf)
    (pane : TerminalPaneId) (tab : TerminalTabId) :
    wp (TerminalWorkspace.createTab name directory pane tab) (fun _ => Sound) (fun _ => Sound)
      True w := by
  simp only [TerminalWorkspace.createTab, wp_bind, wp_ofExcept, wp_insertPane, wp_modify, wp_pure]
  refine ⟨fun n hn => ⟨fun d hd => ⟨fun t hm => ?_, fun id p hp => ?_⟩, fun _ _ => h⟩,
    fun _ _ => h⟩
  · rcases List.mem_append.mp hm with hm | hm
    · exact h.names t hm
    · rw [List.mem_singleton.mp hm]
      exact validatedName_again hn
  · exact (h.insertPane ⟨pane, d, .stopped⟩ rfl (validatedDirectory_eq hd).2).panes id p hp

theorem Sound.splitFocused (h : w.Sound) (axis : SplitAxis) (newPane : TerminalPaneId) :
    wp (TerminalWorkspace.splitFocused axis newPane) (fun _ => Sound) (fun _ => Sound) True w := by
  simp only [TerminalWorkspace.splitFocused, wp_bind, wp_get, wp_okOr, wp_orPanic, wp_setTab,
    wp_ensure, wp_insertPane, wp_pure]
  refine ⟨fun active _ => ⟨fun index _ => ⟨fun tab htab => ⟨fun focused hfocused => ?_,
    fun _ => h⟩, fun _ => trivial⟩, fun _ => h⟩, fun _ => h⟩
  refine ⟨fun _ => ?_, fun _ => h.setTab htab rfl⟩
  rw [List.set_set]
  have htabs : Sound { w with tabs := w.tabs.set index { tab with
      root := (tab.root.splitLeaf tab.focusedPane newPane axis).2
      focusedPane := newPane } } := h.setTab htab rfl
  exact htabs.insertPane ⟨newPane, focused.workingDirectory, .stopped⟩ rfl
    (h.panes _ focused hfocused).2

theorem Sound.closePane (h : w.Sound) (pane : TerminalPaneId) :
    wp (TerminalWorkspace.closePane pane) (fun _ => Sound) (fun _ => Sound) True w := by
  have hremoved : ∀ id p, (w.panes.remove pane).get? id = some p →
      p.id = id ∧ validatedDirectory p.workingDirectory = .ok p.workingDirectory := by
    intro id p hp
    rw [SortedMap.get?_remove] at hp
    split at hp
    · cases hp
    · exact h.panes id p hp
  have hw : Sound { w with panes := w.panes.remove pane } := ⟨h.names, hremoved⟩
  simp only [TerminalWorkspace.closePane, wp_bind, wp_get, wp_okOr, wp_orPanic, wp_modify]
  refine ⟨fun index _ => ⟨fun tab htab => ?_, fun _ => trivial⟩, fun _ => h⟩
  split
  · simp only [wp_bind, wp_setTab, wp_ite, wp_orPanic, wp_pure]
    refine ⟨fun _ => ⟨fun first _ => ?_, fun _ => trivial⟩, fun _ => hw.setTab htab rfl⟩
    rw [List.set_set]
    exact hw.setTab htab rfl
  · simp only [wp_bind, wp_modify]
    have hrest : ∀ active, Sound ⟨w.tabs.eraseIdx index, w.panes.remove pane, active⟩ :=
      fun active => ⟨fun t hm => h.names t (List.mem_of_mem_eraseIdx hm), hremoved⟩
    split
    · exact hrest _
    · exact hrest _

theorem Sound.renameTab (h : w.Sound) (tab : TerminalTabId) (name : String) :
    wp (TerminalWorkspace.renameTab tab name) (fun _ => Sound) (fun _ => Sound) True w := by
  simp only [TerminalWorkspace.renameTab, wp_bind, wp_ofExcept, wp_get, wp_okOr, wp_orPanic,
    wp_setTab]
  refine ⟨fun n hn => ⟨fun index _ => ⟨fun t _ => ⟨fun t' hm => ?_, h.panes⟩, fun _ => trivial⟩,
    fun _ => h⟩, fun _ _ => h⟩
  rcases List.mem_or_eq_of_mem_set hm with hm | rfl
  · exact h.names t' hm
  · exact validatedName_again hn

theorem Sound.run (h : w.Sound) (op : WorkspaceOp) :
    wp op.run (fun _ => Sound) (fun _ => Sound) True w := by
  cases op with
  | createTab name directory pane tab =>
    simp only [WorkspaceOp.run, wp_discard]
    exact h.createTab name directory pane tab
  | splitFocused axis pane =>
    simp only [WorkspaceOp.run, wp_discard]
    exact h.splitFocused axis pane
  | closePane pane => exact h.closePane pane
  | activateTab tab =>
    simp only [WorkspaceOp.run, TerminalWorkspace.activateTab, wp_bind, wp_get, wp_ensure,
      wp_modify]
    exact ⟨fun _ => h.congr rfl rfl, fun _ => h⟩
  | focusPane pane =>
    simp only [WorkspaceOp.run, TerminalWorkspace.focusPane, wp_bind]
    refine wp_activeTabMut (fun index tab htab => ?_) fun _ => h
    simp only [wp_ensure, wp_setTab]
    exact ⟨fun _ => h.setTab htab rfl, fun _ => h⟩
  | renameTab tab name => exact h.renameTab tab name
  | renameActiveTab name =>
    simp only [WorkspaceOp.run, TerminalWorkspace.renameActiveTab, wp_bind, wp_get, wp_okOr]
    exact ⟨fun active _ => h.renameTab active name, fun _ => h⟩
  | setFocusedSplitRatio ratio =>
    simp only [WorkspaceOp.run, TerminalWorkspace.setFocusedSplitRatio, wp_bind, wp_ensure]
    refine ⟨fun _ => wp_activeTabMut (fun index tab htab => ?_) fun _ => h, fun _ => h⟩
    rcases tab.root.setParentRatio tab.focusedPane ratio with ⟨found, root⟩
    simp only [wp_setTab]
    exact ⟨fun _ => h.setTab htab rfl, fun _ => h.setTab htab rfl⟩
  | setPaneState pane state =>
    simp only [WorkspaceOp.run, TerminalWorkspace.setPaneState, wp_bind, wp_get, wp_okOr,
      wp_modify]
    refine ⟨fun p hp => ?_, fun _ => h⟩
    obtain ⟨hid, hd⟩ := h.panes pane p hp
    exact h.insertPane _ hid hd
  | restartPane pane =>
    simp only [WorkspaceOp.run, TerminalWorkspace.restartPane, wp_bind, wp_get, wp_okOr]
    refine ⟨fun p hp => ?_, fun _ => h⟩
    obtain ⟨hid, hd⟩ := h.panes pane p hp
    split
    all_goals first | exact h.insertPane _ hid hd | exact h

theorem Sound.step (h : w.Sound) {op : WorkspaceOp} (hs : WorkspaceOp.step w op = some w') :
    w'.Sound := by
  obtain ⟨⟨r, s⟩, hx, rfl⟩ := Option.map_eq_some_iff.mp hs
  exact (h.run op).state hx

/-! ## What the validator accepts -/

/-- A tab that passes, whose panes are listed in the order of its layout. -/
structure Listed (tab : TerminalTabSnapshot) : Prop where
  name : ∃ name, validatedName tab.name = .ok name
  ratios : tab.root.RatiosValid
  focused : tab.focusedPane ∈ tab.root.leaves
  ids : tab.panes.map (·.id) = tab.root.leaves
  directories : ∀ pane ∈ tab.panes,
    validatedDirectory pane.workingDirectory = .ok pane.workingDirectory

theorem validatePanes_of {l : List TerminalPaneSnapshot} {ids : Finset TerminalPaneId}
    (hd : ∀ pane ∈ l, validatedDirectory pane.workingDirectory = .ok pane.workingDirectory)
    (hn : (l.map (·.id)).Nodup) (hnew : ∀ id ∈ l.map (·.id), id ∉ ids) :
    ∃ ids', validatePanes l ids = .ok ids' := by
  induction l generalizing ids with
  | nil => exact ⟨ids, rfl⟩
  | cons pane rest ih =>
    rw [List.map_cons, List.nodup_cons] at hn
    rw [List.map_cons, List.forall_mem_cons] at hnew
    rw [List.forall_mem_cons] at hd
    have hrestNew : ∀ id ∈ rest.map (·.id), id ∉ insert pane.id ids := fun id hid hmem => by
      rcases Finset.mem_insert.mp hmem with rfl | hmem
      · exact hn.1 hid
      · exact hnew.2 id hid hmem
    obtain ⟨ids', hrest⟩ := ih hd.2 hn.2 hrestNew
    refine ⟨ids', ?_⟩
    rw [validatePanes, hd.1]
    exact (if_neg hnew.1).trans hrest

theorem validateTabs_of {tabs : List TerminalTabSnapshot} {tabIds : Finset TerminalTabId}
    {paneIds : Finset TerminalPaneId} (hlisted : ∀ tab ∈ tabs, Listed tab)
    (hids : (tabs.map (·.id)).Nodup) (hnew : ∀ id ∈ tabs.map (·.id), id ∉ tabIds)
    (hleaves : (tabs.flatMap (·.root.leaves)).Nodup)
    (hunused : ∀ id ∈ tabs.flatMap (·.root.leaves), id ∉ paneIds) :
    validateTabs tabs tabIds paneIds = .ok () := by
  induction tabs generalizing tabIds paneIds with
  | nil => rfl
  | cons tab rest ih =>
    rw [List.forall_mem_cons] at hlisted
    rw [List.map_cons, List.nodup_cons] at hids
    rw [List.map_cons, List.forall_mem_cons] at hnew
    rw [List.flatMap_cons, List.nodup_append] at hleaves
    rw [List.flatMap_cons, List.forall_mem_append] at hunused
    obtain ⟨⟨⟨name, hname⟩, hratios, hfocused, hpanes, hdirectories⟩, hrest⟩ := hlisted
    obtain ⟨ids', hpaneIds⟩ := validatePanes_of hdirectories (hpanes ▸ hleaves.1)
      (hpanes ▸ hunused.1)
    have hafter : validateTabs rest (insert tab.id tabIds) ids' = .ok () := by
      refine ih hrest hids.2 (fun id hid hmem => ?_) hleaves.2.1 fun id hid hmem => ?_
      · rcases Finset.mem_insert.mp hmem with rfl | hmem
        · exact hids.1 hid
        · exact hnew.2 id hid hmem
      · rcases ((validatePanes_ok hpaneIds).2 id).mp hmem with hmem | hmem
        · exact hunused.2 id hid hmem
        · rw [hpanes] at hmem
          exact hleaves.2.2 id hmem id hid rfl
    have hcard : tab.root.leaves.toFinset.card = tab.root.leaves.length :=
      List.toFinset_card_of_nodup hleaves.1
    have hlength : tab.panes.length = tab.root.leaves.length := by
      rw [← hpanes, List.length_map]
    rw [validateTabs, hname]
    simp only [LayoutNode.collectPanes_eq, List.nil_append, hpanes, hcard, hlength,
      LayoutNode.validate_iff.mpr hratios, List.mem_toFinset, hfocused, hnew.1, ne_eq,
      not_true_eq_false, or_self, if_false, Bool.true_eq_false]
    show (validatePanes tab.panes paneIds >>= fun ids =>
      validateTabs rest (insert tab.id tabIds) ids) = .ok ()
    rw [hpaneIds]
    exact hafter

/-! ## The snapshot of a workspace -/

/-- The panes of a snapshot's tab are those that its layout shows. -/
theorem ids_recorded {l : List TerminalPaneId}
    (h : ∀ id ∈ l, ∃ pane, w.panes.get? id = some pane ∧ pane.id = id) :
    ((l.filterMap w.panes.get?).map fun pane =>
      (⟨pane.id, pane.workingDirectory⟩ : TerminalPaneSnapshot)).map (·.id) = l := by
  induction l with
  | nil => rfl
  | cons id l ih =>
    rw [List.forall_mem_cons] at h
    obtain ⟨⟨pane, hpane, hid⟩, hrest⟩ := h
    rw [List.filterMap_cons_some hpane, List.map_cons, List.map_cons, ih hrest, hid]

theorem Valid.recorded (hv : w.Valid) (hs : w.Sound) (hm : tab ∈ w.tabs) :
    ∀ id ∈ tab.root.leaves, ∃ pane, w.panes.get? id = some pane ∧ pane.id = id := by
  intro id hid
  obtain ⟨pane, hpane⟩ := SortedMap.mem_keys_iff.mp
    ((hv.keys id).mpr (List.mem_flatMap.mpr ⟨tab, hm, hid⟩))
  exact ⟨pane, hpane, (hs.panes id pane hpane).1⟩

theorem Valid.listed (hv : w.Valid) (hs : w.Sound) : ∀ tab ∈ w.snapshot.tabs, Listed tab := by
  intro t ht
  obtain ⟨tab, hm, rfl⟩ := List.mem_map.mp ht
  refine ⟨hs.names tab hm, hv.ratios tab hm, hv.focused tab hm, ?_, fun ps hps => ?_⟩
  · dsimp only
    rw [LayoutNode.collectPanes_eq, List.nil_append]
    exact ids_recorded (hv.recorded hs hm)
  · obtain ⟨pane, hpane, rfl⟩ := List.mem_map.mp hps
    obtain ⟨id, -, hget⟩ := List.mem_filterMap.mp hpane
    exact (hs.panes id pane hget).2

theorem validate_snapshot (hv : w.Valid) (hs : w.Sound) : validateSnapshot w.snapshot = .ok () := by
  have hids : w.snapshot.tabs.map (·.id) = w.tabs.map (·.id) := by
    rw [snapshot, List.map_map]
    rfl
  have hleaves : w.snapshot.tabs.flatMap (·.root.leaves) = shown w.tabs := by
    rw [snapshot, List.flatMap_map]
    rfl
  have hactive : w.snapshot.activeTab = w.activeTab := rfl
  unfold validateSnapshot
  split
  · rename_i hempty
    have hnil : w.tabs = [] := List.map_eq_nil_iff.mp (List.isEmpty_iff.mp hempty)
    have hnone : w.activeTab.isNone := by
      cases ha : w.activeTab with
      | none => rfl
      | some active => exact absurd hnil (hv.active.mp (by rw [ha]; rfl))
    rw [hactive, if_pos hnone]
  · rename_i hne
    have hsome : w.activeTab.isSome := hv.active.mpr fun hnil => by
      rw [snapshot, hnil] at hne
      exact hne rfl
    obtain ⟨active, ha⟩ := Option.isSome_iff_exists.mp hsome
    have hany : w.snapshot.activeTab.any fun active => w.snapshot.tabs.any (·.id = active) := by
      rw [hactive, ha, Option.any_some, List.any_eq_true]
      have hmem := hv.existing active ha
      rw [← hids] at hmem
      obtain ⟨t, ht, hid⟩ := List.mem_map.mp hmem
      exact ⟨t, ht, decide_eq_true hid⟩
    rw [if_pos hany]
    exact validateTabs_of (hv.listed hs) (hids ▸ hv.tabIds) (fun _ _ h => absurd h (by simp))
      (hleaves ▸ hv.leaves) fun _ _ h => absurd h (by simp)

/-! ## What is restored -/

/-- A pane that is found after a restore was there before, or is a pane of the snapshot. -/
theorem get?_restorePanes {l : List TerminalPaneSnapshot}
    {panes : SortedMap TerminalPaneId TerminalPane} {id : TerminalPaneId} {pane : TerminalPane}
    (h : (l.foldl (fun panes pane => panes.insert pane.id ⟨pane.id, pane.workingDirectory, .stopped⟩)
      panes).get? id = some pane) :
    panes.get? id = some pane ∨
      ∃ ps ∈ l, ps.id = id ∧ pane = ⟨ps.id, ps.workingDirectory, .stopped⟩ := by
  induction l generalizing panes with
  | nil => exact .inl h
  | cons ps rest ih =>
    rw [List.foldl_cons] at h
    rcases ih h with h | ⟨ps', hps', hid, hpane⟩
    · rw [SortedMap.get?_insert] at h
      split at h
      · rename_i heq
        cases h
        exact .inr ⟨ps, List.mem_cons_self, heq.symm, rfl⟩
      · exact .inl h
    · exact .inr ⟨ps', List.mem_cons_of_mem _ hps', hid, hpane⟩

theorem get?_restored {tabs : List TerminalTabSnapshot} {id : TerminalPaneId} {pane : TerminalPane}
    (h : (tabs.foldl restoreTab w).panes.get? id = some pane) :
    w.panes.get? id = some pane ∨
      ∃ tab ∈ tabs, ∃ ps ∈ tab.panes, ps.id = id ∧
        pane = ⟨ps.id, ps.workingDirectory, .stopped⟩ := by
  induction tabs generalizing w with
  | nil => exact .inl h
  | cons tab rest ih =>
    rw [List.foldl_cons] at h
    rcases ih h with h | ⟨tab', htab', hps⟩
    · exact (get?_restorePanes h).imp_right fun hps => ⟨tab, List.mem_cons_self, hps⟩
    · exact .inr ⟨tab', List.mem_cons_of_mem _ htab', hps⟩

variable {s : TerminalWorkspaceSnapshot}

theorem restore_eq (h : validateSnapshot s = .ok ()) :
    restore s = .ok (s.tabs.foldl restoreTab ⟨[], .empty, s.activeTab⟩) := by
  rw [restore, h]
  rfl

/-- What is restored of a snapshot is the workspace with its panes stopped. -/
theorem restore_snapshot (hv : w.Valid) (hs : w.Sound) : restore w.snapshot = .ok w.stopped := by
  rw [restore_eq (validate_snapshot hv hs)]
  obtain ⟨htabs, hactive, hkeys⟩ := foldl_restoreTab w.snapshot.tabs ⟨[], .empty, w.activeTab⟩
  have htabs' : w.snapshot.tabs.map (fun tab =>
      (⟨tab.id, tab.name, tab.root, tab.focusedPane⟩ : TerminalTab)) = w.tabs := by
    rw [snapshot, List.map_map]
    exact List.map_id'' (fun _ => rfl) w.tabs
  have hids : ∀ id, id ∈ w.snapshot.tabs.flatMap (·.panes.map (·.id)) ↔ id ∈ shown w.tabs := by
    intro id
    have hpanes : ∀ t ∈ w.snapshot.tabs, t.panes.map (·.id) = t.root.leaves := fun t ht =>
      (hv.listed hs t ht).ids
    rw [List.flatMap_congr hpanes, snapshot, List.flatMap_map]
    rfl
  have hpanes : ((w.snapshot.tabs.foldl restoreTab ⟨[], .empty, w.activeTab⟩).panes) =
      w.stopped.panes := by
    refine SortedMap.ext_get? fun id => ?_
    rw [stopped, SortedMap.get?_mapValues]
    cases hget : (w.snapshot.tabs.foldl restoreTab ⟨[], .empty, w.activeTab⟩).panes.get? id with
    | none =>
      rw [SortedMap.get?_eq_none, hkeys, hids] at hget
      have hnone : w.panes.get? id = none := by
        rw [SortedMap.get?_eq_none, hv.keys]
        exact fun hmem => hget (.inr hmem)
      rw [hnone]
      rfl
    | some pane =>
      rcases get?_restored hget with hget | ⟨t, ht, ps, hps, rfl, rfl⟩
      · cases hget
      · obtain ⟨tab, -, rfl⟩ := List.mem_map.mp ht
        obtain ⟨p, hp, rfl⟩ := List.mem_map.mp hps
        obtain ⟨id, -, hget⟩ := List.mem_filterMap.mp hp
        obtain rfl := (hs.panes id p hget).1
        rw [hget]
        rfl
  rw [List.nil_append, htabs'] at htabs
  refine congrArg Except.ok ?_
  cases hx : w.snapshot.tabs.foldl restoreTab ⟨[], .empty, w.snapshot.activeTab⟩ with
  | mk tabs panes active =>
    have hx' : w.snapshot.tabs.foldl restoreTab ⟨[], .empty, w.activeTab⟩ = ⟨tabs, panes, active⟩ :=
      hx
    rw [hx'] at htabs hactive hpanes
    dsimp only at htabs hactive hpanes
    rw [stopped, htabs, hactive, hpanes]
    rfl

/-! ## The snapshot of what is restored -/

theorem validatePanes_directories {l : List TerminalPaneSnapshot}
    {ids ids' : Finset TerminalPaneId} (h : validatePanes l ids = .ok ids') :
    ∀ pane ∈ l, validatedDirectory pane.workingDirectory = .ok pane.workingDirectory := by
  induction l generalizing ids with
  | nil => exact fun _ hm => absurd hm List.not_mem_nil
  | cons pane rest ih =>
    rw [validatePanes] at h
    obtain ⟨directory, hd, h⟩ := bind_eq_ok.mp h
    split at h
    · cases h
    · obtain ⟨rfl, hd'⟩ := validatedDirectory_eq hd
      exact List.forall_mem_cons.mpr ⟨hd', ih h⟩

/-- What the validator asks of each tab beside its layout. -/
theorem validateTabs_each {tabs : List TerminalTabSnapshot} {tabIds : Finset TerminalTabId}
    {paneIds : Finset TerminalPaneId} (h : validateTabs tabs tabIds paneIds = .ok ()) :
    ∀ tab ∈ tabs, (∃ name, validatedName tab.name = .ok name) ∧ (tab.panes.map (·.id)).Nodup ∧
      ∀ pane ∈ tab.panes, validatedDirectory pane.workingDirectory = .ok pane.workingDirectory := by
  induction tabs generalizing tabIds paneIds with
  | nil => exact fun _ hm => absurd hm List.not_mem_nil
  | cons tab rest ih =>
    rw [validateTabs] at h
    obtain ⟨name, hname, h⟩ := bind_eq_ok.mp h
    split_ifs at h with hid hratios
    dsimp only at h
    split_ifs at h with hleaves hfocused hdeclared
    obtain ⟨ids, hpanes, h⟩ := bind_eq_ok.mp h
    rw [not_or, not_not, ← List.length_map (·.id)] at hdeclared
    have hnodup : (tab.panes.map (·.id)).Nodup :=
      Multiset.coe_nodup.mp (Multiset.toFinset_card_eq_card_iff_nodup.mp hdeclared.1)
    exact List.forall_mem_cons.mpr
      ⟨⟨⟨name, hname⟩, hnodup, validatePanes_directories hpanes⟩, ih h⟩

/-- An accepted snapshot, its tabs, and the workspace that is restored of it. -/
theorem restore_ok (h : restore s = .ok w) :
    w = s.tabs.foldl restoreTab ⟨[], .empty, s.activeTab⟩ ∧ validateTabs s.tabs ∅ ∅ = .ok () := by
  obtain ⟨_, hval, h⟩ := bind_eq_ok.mp h
  cases h
  refine ⟨rfl, ?_⟩
  unfold validateSnapshot at hval
  split at hval
  · rename_i hnil
    rw [List.isEmpty_iff.mp hnil]
    rfl
  · split at hval
    · exact hval
    · cases hval

theorem restored_tabs (h : restore s = .ok w) :
    w.tabs = s.tabs.map fun tab => ⟨tab.id, tab.name, tab.root, tab.focusedPane⟩ := by
  obtain ⟨rfl, -⟩ := restore_ok h
  exact (foldl_restoreTab s.tabs ⟨[], .empty, s.activeTab⟩).1

theorem sound_restore (h : restore s = .ok w) : w.Sound := by
  obtain ⟨hw, hval⟩ := restore_ok h
  have heach := validateTabs_each hval
  refine ⟨fun tab hm => ?_, fun id pane hget => ?_⟩
  · rw [restored_tabs h] at hm
    obtain ⟨t, ht, rfl⟩ := List.mem_map.mp hm
    exact (heach t ht).1
  · rw [hw] at hget
    rcases get?_restored hget with hget | ⟨t, ht, ps, hps, rfl, rfl⟩
    · cases hget
    · exact ⟨rfl, (heach t ht).2.2 ps hps⟩

theorem eq_of_mem_flatMap {α β : Type} {l : List α} {f : α → List β} {a b : α} {x : β}
    (hn : (l.flatMap f).Nodup) (ha : a ∈ l) (hb : b ∈ l) (hxa : x ∈ f a) (hxb : x ∈ f b) :
    a = b := by
  by_contra hne
  have hsymm : Std.Symm (Function.onFun List.Disjoint f) := ⟨fun _ _ h => List.Disjoint.symm h⟩
  exact (List.nodup_flatMap.mp hn).2.forall ha hb hne hxa hxb

/-- The tab as another snapshot has it: the same, with its panes in the order of the layout. -/
structure Relisted (tab tab' : TerminalTabSnapshot) : Prop where
  id : tab'.id = tab.id
  name : tab'.name = tab.name
  root : tab'.root = tab.root
  focusedPane : tab'.focusedPane = tab.focusedPane
  panes : tab'.panes.Perm tab.panes
  order : tab'.panes.map (·.id) = tab.root.leaves

theorem snapshot_restore (h : restore s = .ok w) :
    List.Forall₂ Relisted s.tabs w.snapshot.tabs ∧ w.snapshot.activeTab = s.activeTab := by
  have hv := valid_restore h
  have hs := sound_restore h
  obtain ⟨hw, hval⟩ := restore_ok h
  obtain ⟨-, -, hleaves, -, hwhole⟩ := validateTabs_ok hval
  have heach := validateTabs_each hval
  have htabs := restored_tabs h
  refine ⟨?_, ?_⟩
  · rw [snapshot, htabs, List.map_map, List.forall₂_map_right_iff, List.forall₂_same]
    intro tab htab
    have hmem : (⟨tab.id, tab.name, tab.root, tab.focusedPane⟩ : TerminalTab) ∈ w.tabs :=
      htabs ▸ List.mem_map_of_mem htab
    have hnodup : tab.root.leaves.Nodup := (List.nodup_flatMap.mp hleaves).1 tab htab
    -- The panes that are found for the tab are panes of the tab: no other shows them.
    have hfound : ∀ ps ∈ (tab.root.leaves.filterMap w.panes.get?).map fun pane =>
        (⟨pane.id, pane.workingDirectory⟩ : TerminalPaneSnapshot), ps ∈ tab.panes := by
      intro ps hps
      obtain ⟨pane, hpane, rfl⟩ := List.mem_map.mp hps
      obtain ⟨id, hid, hget⟩ := List.mem_filterMap.mp hpane
      rw [hw] at hget
      rcases get?_restored hget with hget | ⟨tab', htab', ps, hin, rfl, rfl⟩
      · cases hget
      · have hid' := ((hwhole tab' htab').panes ps.id).mp (List.mem_map_of_mem hin)
        obtain rfl := eq_of_mem_flatMap hleaves htab htab' hid hid'
        exact hin
    have horder := ids_recorded (hv.recorded hs hmem)
    refine ⟨rfl, rfl, rfl, rfl, ?_, ?_⟩
    · dsimp only [Function.comp_apply]
      rw [LayoutNode.collectPanes_eq, List.nil_append]
      refine (List.perm_ext_iff_of_nodup ?_ (heach tab htab).2.1.of_map).mpr fun ps =>
        ⟨hfound ps, fun hps => ?_⟩
      · exact List.Nodup.of_map (fun ps : TerminalPaneSnapshot => ps.id) (horder.symm ▸ hnodup)
      · have hid := ((hwhole tab htab).panes ps.id).mp (List.mem_map_of_mem hps)
        have hin : ps.id ∈ ((tab.root.leaves.filterMap w.panes.get?).map fun pane =>
            (⟨pane.id, pane.workingDirectory⟩ : TerminalPaneSnapshot)).map (·.id) :=
          horder.symm ▸ hid
        obtain ⟨ps', hps', heq⟩ := List.mem_map.mp hin
        rw [← List.inj_on_of_nodup_map (heach tab htab).2.1 (hfound ps' hps') hps heq]
        exact hps'
    · dsimp only [Function.comp_apply]
      rw [LayoutNode.collectPanes_eq, List.nil_append]
      exact horder
  · rw [hw]
    exact (foldl_restoreTab s.tabs ⟨[], .empty, s.activeTab⟩).2.1

theorem sound_of_starts (h : WorkspaceOp.Starts w) : w.Sound := by
  rcases h with rfl | ⟨s, h⟩
  · exact sound_new
  · exact sound_restore h

/-- Along every run whose operations issue identifiers that are not in use, what is restored of a
snapshot of the workspace is the workspace with its panes stopped; and a snapshot that is restored
comes back, with its panes in the order of the layout. -/
theorem round_trip_law (w : TerminalWorkspace) :
    (∀ w₀, WorkspaceOp.Starts w₀ → Runs WorkspaceOp.step WorkspaceOp.Fresh w₀ w →
      restore w.snapshot = .ok w.stopped) ∧
    ∀ s, restore s = .ok w →
      List.Forall₂ Relisted s.tabs w.snapshot.tabs ∧ w.snapshot.activeTab = s.activeTab := by
  refine ⟨fun w₀ h₀ h => ?_, fun s h => snapshot_restore h⟩
  have hboth : w.Valid ∧ w.Sound :=
    h.invariant (I := fun w => w.Valid ∧ w.Sound) ⟨h₀.valid, sound_of_starts h₀⟩
      fun _ _ _ hI hf hs => ⟨WorkspaceOp.step_valid hI.1 hf hs, hI.2.step hs⟩
  exact restore_snapshot hboth.1 hboth.2

/-- A tab whose panes are listed against the order of its layout, and then split once more. -/
theorem round_trip_law_split : ∃ (s : TerminalWorkspaceSnapshot) (w w' : TerminalWorkspace),
    restore s = .ok w ∧ w.snapshot.activeTab = s.activeTab ∧
      WorkspaceOp.step w (.splitFocused .vertical ⟨3⟩) = some w' ∧
      restore w'.snapshot = .ok w'.stopped := by
  let s : TerminalWorkspaceSnapshot :=
    ⟨[⟨⟨1⟩, "shell", .split .horizontal 5000 (.pane ⟨1⟩) (.pane ⟨2⟩), ⟨2⟩,
      [⟨⟨2⟩, ⟨[47]⟩⟩, ⟨⟨1⟩, ⟨[47]⟩⟩]⟩], some ⟨1⟩⟩
  have hruns : (restore s).toOption.any fun w =>
      WorkspaceOp.Fresh w (.splitFocused .vertical ⟨3⟩) ∧
        (WorkspaceOp.step w (.splitFocused .vertical ⟨3⟩)).isSome := by
    decide
  cases h : restore s with
  | error e =>
    rw [h] at hruns
    cases hruns
  | ok w =>
    rw [h] at hruns
    obtain ⟨hfresh, hsome⟩ := of_decide_eq_true hruns
    obtain ⟨w', hs⟩ := Option.isSome_iff_exists.mp hsome
    exact ⟨s, w, w', h, ((round_trip_law w).2 s h).2, hs,
      (round_trip_law w').1 w (.inr ⟨s, h⟩) (Runs.single hfresh hs)⟩

/-- The last number is issued again, and the snapshot is refused. -/
theorem snapshot_refused : ∃ p₀ p : CountedWorkspace,
    CountedWorkspace.restore 1 1 (IssuingOp.single u64Max 1) = .ok p₀ ∧
      IssuingOp.step p₀ (.createTab "shell" ⟨[47]⟩) = some p ∧
      restore p.workspace.snapshot ≠ .ok p.workspace.stopped := by
  have hruns : (CountedWorkspace.restore 1 1 (IssuingOp.single u64Max 1)).toOption.any fun p₀ =>
      (IssuingOp.step p₀ (.createTab "shell" ⟨[47]⟩)).any fun p =>
        !(restore p.workspace.snapshot).toBool := by
    decide
  cases h : CountedWorkspace.restore 1 1 (IssuingOp.single u64Max 1) with
  | error e =>
    rw [h] at hruns
    cases hruns
  | ok p₀ =>
    rw [h, Except.toOption, Option.any_some] at hruns
    obtain ⟨p, hs, hrefused⟩ := (Option.any_eq_true _ _).mp hruns
    refine ⟨p₀, p, rfl, hs, fun hok => ?_⟩
    rw [hok] at hrefused
    cases hrefused

end TerminalWorkspace
end Strukt
