import Strukt.App.TerminalSurfaces
import Strukt.Terminal.Lifecycle
import Strukt.Terminal.WorkspaceRuns

/-!
# The surfaces and the runtime agree

* **Turns** (`PaneRuntime.Turned`): a turn of a drain gives a pane no process, and a pane that is
  not running and changed its state has none.
* **Workspaces** (`Puts`, `Drops`): what an operation does to the panes of the workspace. No
  identifier needs to be new for this.
* **Agreement** (`Agree`): of the panes, their states and what is kept of them, while the states of
  some `late` panes are still to be copied.
* **The law** (`surfaces_law`): it holds after every run of operations.
-/

namespace Strukt

open Method

variable {P : Platform}

/-! ## Turns of a drain -/

namespace PaneRuntime

variable {r r' r'' : PaneRuntime P}

structure Turned (r r' : PaneRuntime P) : Prop where
  generation : r'.generation = r.generation
  process : r'.process.isSome → r.process.isSome
  state : r'.state = r.state ∨ r'.process = none ∨ r'.state.active = true

theorem Turned.refl (r : PaneRuntime P) : Turned r r := ⟨rfl, id, .inl rfl⟩

theorem Turned.trans (h : Turned r r') (h' : Turned r' r'') : Turned r r'' := by
  refine ⟨h'.generation.trans h.generation, fun hp => h.process (h'.process hp), ?_⟩
  obtain hsame | hrest := h'.state
  · obtain hold | hnone | hactive := h.state
    · exact .inl (hsame.trans hold)
    · refine .inr (.inl ?_)
      rw [← Option.not_isSome_iff_eq_none] at hnone ⊢
      exact fun hp => hnone (h'.process hp)
    · exact .inr (.inr (hsame ▸ hactive))
  · exact .inr hrest

theorem turned_of_state (hg : r'.generation = r.generation) (hs : r'.state = r.state)
    (hp : r'.process.isSome → r.process.isSome) : Turned r r' := ⟨hg, hp, .inl hs⟩

theorem turned_of_none (hg : r'.generation = r.generation) (hp : r'.process = none) :
    Turned r r' :=
  ⟨hg, fun h => absurd h (Option.not_isSome_iff_eq_none.mpr hp), .inr (.inl hp)⟩

theorem turned_of_quiet (h : TerminalRuntime.Quiet r r') : Turned r r' :=
  turned_of_state h.generation h.state fun hp => h.process ▸ hp

theorem pollOneOutput_turned (now : Instant) (r : PaneRuntime P) :
    Turned r (r.pollOneOutput now) := by
  unfold pollOneOutput
  cases hp : r.process with
  | none => exact .refl r
  | some p =>
    have hsome : r.process.isSome := by rw [hp]; rfl
    dsimp only
    split
    · split
      · rename_i r₁ he
        have hq := TerminalRuntime.enqueue_quiet he
        exact turned_of_state hq.generation hq.state fun _ => hsome
      · exact turned_of_none rfl rfl
    · exact turned_of_state rfl rfl fun _ => hsome
    · exact turned_of_none rfl rfl

theorem drainLoop_turned {clock : Nat → Instant} {limit fuel consumed consumed' : Nat}
    (h : drainLoop clock limit fuel consumed r = some (consumed', r')) : Turned r r' := by
  induction fuel generalizing consumed r with
  | zero => cases h
  | succ fuel ih =>
    rw [drainLoop] at h
    split at h
    swap
    · cases h
      exact .refl _
    have hpoll : Turned r (if r.pending.isEmpty then r.pollOneOutput (clock fuel) else r) := by
      split
      · exact pollOneOutput_turned _ r
      · exact .refl r
    generalize (if r.pending.isEmpty then r.pollOneOutput (clock fuel) else r) = r₁ at h hpoll
    dsimp only at h
    split at h
    · cases h
      exact hpoll
    · obtain ⟨⟨count, r₂⟩, hf, h⟩ := Option.bind_eq_some_iff.mp h
      obtain ⟨hs, hp⟩ := advanceFront_same hf
      have hg := (advanceFront_spec hf).1.generation
      exact hpoll.trans ((turned_of_state hg hs fun h => hp ▸ h).trans (ih h))

theorem drainBytes_turned {fuel : Nat} {clock : Nat → Instant} {limit consumed : Nat}
    (h : r.drainBytes fuel clock limit = some (consumed, r')) : Turned r r' := by
  obtain ⟨⟨n, r₁⟩, hl, h⟩ := Option.map_eq_some_iff.mp h
  have hloop := drainLoop_turned hl
  cases h
  split
  · refine hloop.trans ⟨rfl, id, ?_⟩
    by_cases hb : r₁.state = .backpressured
    · exact .inr (.inr (by simp only [hb, if_true]; rfl))
    · exact .inl (by simp only [hb, if_false])
  · exact hloop

theorem pollExit_turned (r : PaneRuntime P) : Turned r r.pollExit.2 := by
  unfold pollExit
  cases hp : r.process with
  | none => exact .refl r
  | some p =>
    dsimp only
    split
    · exact turned_of_none rfl rfl
    · exact turned_of_state rfl rfl fun _ => by rw [hp]; rfl
    · exact turned_of_none rfl rfl

theorem updatePressureState_turned (clock : Nat → Instant) (r : PaneRuntime P) :
    Turned r (r.updatePressureState clock) := by
  have hstate : ∀ (pressed : Prop) [Decidable pressed],
      let state := if pressed then RuntimePaneState.backpressured
        else if r.state = .backpressured then .running else r.state
      state = r.state ∨ state.active = true := by
    intro pressed _
    dsimp only
    split_ifs
    exacts [.inr rfl, .inr rfl, .inl rfl]
  exact ⟨rfl, id, (hstate _).imp_right .inr⟩

theorem drainPane_turned {fuel : Nat} {clock : Nat → Instant} {limit consumed : Nat}
    {changed : Bool} (h : r.drainPane fuel clock limit = some (consumed, changed, r')) :
    Turned r r' := by
  simp only [drainPane, Option.bind_eq_bind, Option.pure_def] at h
  obtain ⟨⟨n, r₂⟩, hd, h⟩ := Option.bind_eq_some_iff.mp h
  cases h
  exact (pollOneOutput_turned _ r).trans ((drainBytes_turned hd).trans
    ((pollExit_turned r₂).trans (updatePressureState_turned clock _)))

end PaneRuntime

theorem TerminalRuntime.drain_turned {t t' : TerminalRuntime P} {fuel : Nat}
    {clock : TerminalPaneId → Nat → Instant} {budget : DrainBudget} {batch : RuntimeBatch}
    (h : t.drain fuel clock budget = some (batch, t')) {k : TerminalPaneId} {r' : PaneRuntime P}
    (hr' : t'.panes.get? k = some r') : ∃ r, t.panes.get? k = some r ∧ r.Turned r' :=
  drain_related (R := fun _ x y => x.1.Turned y.1) (C := fun _ _ _ => True)
    (f := fun _ _ _ _ => ()) (a := fun _ => ()) (fun _ x => .refl x.1)
    (fun _ _ _ _ hab hbc => hab.trans hbc)
    (fun _ _ _ _ _ _ _ _ hturn => PaneRuntime.drainPane_turned hturn) (fun _ => turnsMeet_true) h k
    r' hr'

/-! ## What operations do to the panes of a workspace -/

namespace TerminalWorkspace

variable {w w' : TerminalWorkspace} {pane : TerminalPaneId} {state : PaneState}

/-- Every pane is a leaf of a tab. -/
def Covered (w : TerminalWorkspace) : Prop := ∀ k ∈ w.panes.keys, k ∈ shown w.tabs

/-- The same panes, and no leaf is lost. -/
structure Stays (w w' : TerminalWorkspace) : Prop where
  panes : w'.panes = w.panes
  covered : w.Covered → w'.Covered

/-- The pane is there in this state, whether it was there before or not. -/
structure Puts (pane : TerminalPaneId) (state : PaneState) (w w' : TerminalWorkspace) : Prop where
  pane : ∃ p : TerminalPane, p.state = state ∧ w'.panes = w.panes.insert pane p
  covered : w.Covered → w'.Covered

structure Drops (pane : TerminalPaneId) (w w' : TerminalWorkspace) : Prop where
  panes : w'.panes = w.panes.remove pane
  covered : w.Covered → w'.Covered

theorem Stays.refl (w : TerminalWorkspace) : Stays w w := ⟨rfl, id⟩

theorem stays_of_shown (hp : w'.panes = w.panes) (hs : ∀ k ∈ shown w.tabs, k ∈ shown w'.tabs) :
    Stays w w' :=
  ⟨hp, fun h k hk => hs k (h k (hp ▸ hk))⟩

theorem puts_of_shown {p : TerminalPane} (hp : w'.panes = w.panes.insert pane p)
    (hpane : pane ∈ shown w'.tabs) (hs : ∀ k ∈ shown w.tabs, k ∈ shown w'.tabs) :
    Puts pane p.state w w' := by
  refine ⟨⟨p, rfl, hp⟩, fun h k hk => ?_⟩
  rw [hp, SortedMap.mem_keys_insert] at hk
  obtain rfl | hk := hk
  · exact hpane
  · exact hs k (h k hk)

/-- A tab in the place of one that has no other leaves. -/
theorem shown_set {index : Nat} {tab : TerminalTab} (ht : w.tabs[index]? = some tab)
    (tab' : TerminalTab) (hl : ∀ k ∈ tab.root.leaves, k ∈ tab'.root.leaves) :
    (∀ k ∈ shown w.tabs, k ∈ shown (w.tabs.set index tab')) ∧
      ∀ k ∈ tab'.root.leaves, k ∈ shown (w.tabs.set index tab') := by
  obtain ⟨pre, post, htabs, hset, -⟩ := split_at ht
  rw [hset, htabs, shown_split, shown_split]
  simp only [List.mem_append]
  exact ⟨fun k hk => hk.imp_right (Or.imp_left (hl k)), fun k hk => .inr (.inl hk)⟩

theorem createTab_puts {name : String} {directory : PathBuf} {tabId : TerminalTabId} :
    wp (createTab name directory pane tabId) (fun k w' => k = pane ∧ Puts pane .stopped w w')
      (fun _ w' => w' = w) True w := by
  simp only [createTab, wp_bind, wp_ofExcept, wp_insertPane, wp_modify, wp_pure]
  refine ⟨fun name _ => ⟨fun directory _ => ⟨trivial, ?_⟩, fun _ _ => trivial⟩, fun _ _ => trivial⟩
  refine puts_of_shown (p := ⟨pane, directory, .stopped⟩) rfl ?_ fun k hk => ?_ <;>
    simp only [shown, List.flatMap_append, List.mem_append] at *
  · exact .inr (by simp [LayoutNode.leaves])
  · exact .inl hk

theorem splitFocused_puts {axis : SplitAxis} :
    wp (splitFocused axis pane) (fun k w' => k = pane ∧ Puts pane .stopped w w')
      (fun _ => Stays w) True w := by
  simp only [splitFocused, wp_bind, wp_get, wp_okOr, wp_orPanic]
  refine ⟨fun active _ => ⟨fun index _ => ⟨fun tab htab => ⟨fun focused _ => ?_, fun _ => .refl w⟩,
    fun _ => trivial⟩, fun _ => .refl w⟩, fun _ => .refl w⟩
  rcases hsplit : tab.root.splitLeaf tab.focusedPane pane axis with ⟨found, root⟩
  simp only [wp_setTab, wp_ensure, wp_insertPane, wp_pure, List.set_set]
  refine ⟨fun hfound => ⟨trivial, ?_⟩, fun hfound => ?_⟩
  · rw [hfound] at hsplit
    obtain ⟨hperm, -⟩ := LayoutNode.splitLeaf_true hsplit
    obtain ⟨hs, hnew⟩ := shown_set (w := w) htab (⟨tab.id, tab.name, root, pane⟩ : TerminalTab)
      fun k hk => hperm.mem_iff.mpr (List.mem_cons_of_mem _ hk)
    exact puts_of_shown (p := ⟨pane, focused.workingDirectory, .stopped⟩) rfl
      (hnew _ (hperm.mem_iff.mpr List.mem_cons_self)) hs
  · rw [Bool.not_eq_true] at hfound
    rw [hfound] at hsplit
    obtain ⟨rfl, -⟩ := LayoutNode.splitLeaf_false hsplit
    exact stays_of_shown rfl (shown_set htab _ fun k hk => hk).1

theorem closePane_drops (h : w.Covered) (hp : pane ∈ w.panes.keys) :
    wp (closePane pane) (fun _ => Drops pane w) (fun _ _ => False) True w := by
  have hcontains : ∃ tab ∈ w.tabs, tab.root.contains pane = true := by
    obtain ⟨tab, htab, hleaf⟩ := List.mem_flatMap.mp (h pane hp)
    exact ⟨tab, htab, LayoutNode.contains_iff.mpr hleaf⟩
  simp only [closePane, wp_bind, wp_get, wp_okOr, wp_orPanic, wp_modify]
  refine ⟨fun index _ => ⟨fun tab htab => ?_, fun _ => trivial⟩, fun hnone => ?_⟩
  swap
  · obtain ⟨tab, htab, hleaf⟩ := hcontains
    exact absurd hleaf (by simpa using List.findIdx?_eq_none_iff.mp hnone tab htab)
  obtain ⟨pre, post, htabs, hset, herase⟩ := split_at htab
  have hkeep : ∀ {tabs : List TerminalTab} {w' : TerminalWorkspace},
      w'.panes = w.panes.remove pane → w'.tabs = tabs →
      (∀ k ∈ shown w.tabs, k ≠ pane → k ∈ shown tabs) → Drops pane w w' := by
    intro tabs w' hpanes htabs hs
    refine ⟨hpanes, fun h k hk => ?_⟩
    rw [hpanes, SortedMap.mem_keys_remove] at hk
    exact htabs ▸ hs k (h k hk.2) hk.1
  have hremove := LayoutNode.remove_spec pane tab.root
  cases hroot : tab.root.remove pane with
  | some root =>
    rw [hroot] at hremove
    have hs : ∀ tab' : TerminalTab, tab'.root = root →
        ∀ k ∈ shown w.tabs, k ≠ pane → k ∈ shown (w.tabs.set index tab') := by
      intro tab' hroot' k hk hne
      rw [htabs, shown_split] at hk
      rw [hset, shown_split, hroot', hremove.1]
      simp only [List.mem_append, List.mem_filter, decide_eq_true_eq] at hk ⊢
      exact hk.imp_right (Or.imp_left fun hleaf => ⟨hleaf, hne⟩)
    simp only [wp_bind, wp_setTab, wp_ite, wp_orPanic, wp_pure, List.set_set]
    exact ⟨fun _ => ⟨fun first _ => hkeep rfl rfl (hs _ rfl), fun _ => trivial⟩,
      fun _ => hkeep rfl rfl (hs _ rfl)⟩
  | none =>
    rw [hroot] at hremove
    simp only [wp_bind, wp_modify]
    have hs : ∀ k ∈ shown w.tabs, k ≠ pane → k ∈ shown (w.tabs.eraseIdx index) := by
      intro k hk hne
      rw [htabs, shown_split] at hk
      rw [herase]
      simp only [shown, List.flatMap_append, List.mem_append] at hk ⊢
      obtain hk | hk | hk := hk
      · exact .inl hk
      · have hmem : k ∈ tab.root.leaves.filter (· ≠ pane) :=
          List.mem_filter.mpr ⟨hk, decide_eq_true hne⟩
        rw [hremove] at hmem
        cases hmem
      · exact .inr hk
    split
    · exact hkeep rfl rfl hs
    · exact hkeep rfl rfl hs

theorem activateTab_stays (tab : TerminalTabId) :
    wp (activateTab tab) (fun _ => Stays w) (fun _ => Stays w) True w := by
  simp only [activateTab, wp_bind, wp_get, wp_ensure, wp_modify]
  exact ⟨fun _ => stays_of_shown rfl fun _ hk => hk, fun _ => .refl w⟩

/-- A tab with the layout of the one in its place. -/
theorem stays_set {index : Nat} {tab tab' : TerminalTab} (ht : w.tabs[index]? = some tab)
    (hroot : tab'.root = tab.root) : Stays w { w with tabs := w.tabs.set index tab' } :=
  stays_of_shown rfl (shown_set ht tab' fun _ hk => hroot ▸ hk).1

theorem focusPane_stays (focused : TerminalPaneId) :
    wp (focusPane focused) (fun _ => Stays w) (fun _ => Stays w) True w := by
  simp only [focusPane, wp_bind, wp_ensure, wp_setTab]
  exact wp_activeTabMut
    (fun index tab htab => ⟨fun _ => stays_set htab rfl, fun _ => .refl w⟩) fun _ => .refl w

theorem renameActiveTab_stays (name : String) :
    wp (renameActiveTab name) (fun _ => Stays w) (fun _ => Stays w) True w := by
  simp only [renameActiveTab, renameTab, wp_bind, wp_get, wp_okOr, wp_ofExcept, wp_orPanic,
    wp_setTab]
  exact ⟨fun _ _ => ⟨fun _ _ => ⟨fun _ _ => ⟨fun _ htab => stays_set htab rfl, fun _ => trivial⟩,
    fun _ => .refl w⟩, fun _ _ => .refl w⟩, fun _ => .refl w⟩

/-- Another record of a pane. -/
theorem puts_of_get {p : TerminalPane} (p' : TerminalPane) (hp : w.panes.get? pane = some p) :
    Puts pane p'.state w { w with panes := w.panes.insert pane p' } := by
  refine ⟨⟨p', rfl, rfl⟩, fun h k hk => h k ?_⟩
  rwa [SortedMap.keys_insert_of_mem hp] at hk

theorem setPaneState_puts :
    wp (setPaneState pane state) (fun _ => Puts pane state w)
      (fun _ w' => w' = w ∧ pane ∉ w.panes.keys) True w := by
  simp only [setPaneState, wp_bind, wp_get, wp_okOr, wp_modify]
  exact ⟨fun p hp => puts_of_get { p with state := state } hp,
    fun hnone => ⟨trivial, SortedMap.get?_eq_none.mp hnone⟩⟩

theorem restartPane_puts :
    wp (restartPane pane) (fun _ => Puts pane .starting w) (fun _ w' => w' = w) True w := by
  simp only [restartPane, wp_bind, wp_get, wp_okOr]
  refine ⟨fun p hp => ?_, fun _ => trivial⟩
  have hputs := puts_of_get { p with state := .starting } hp
  cases p.state <;> first | exact hputs | rfl

/-- Every pane is stopped. -/
def Stopped (panes : SortedMap TerminalPaneId TerminalPane) : Prop :=
  ∀ k p, panes.get? k = some p → p.state = .stopped

theorem stopped_empty : Stopped .empty := fun _ _ hp => nomatch hp

theorem stopped_insert {panes : SortedMap TerminalPaneId TerminalPane} (h : Stopped panes)
    {p : TerminalPane} (hp : p.state = .stopped) : Stopped (panes.insert pane p) := by
  intro k q hq
  rw [SortedMap.get?_insert] at hq
  split at hq
  · cases hq
    exact hp
  · exact h k q hq

theorem restore_stopped {snapshot : TerminalWorkspaceSnapshot} (h : restore snapshot = .ok w) :
    Stopped w.panes := by
  obtain ⟨_, -, h⟩ := bind_eq_ok.mp h
  cases h
  have hempty : Stopped (⟨[], .empty, snapshot.activeTab⟩ : TerminalWorkspace).panes := stopped_empty
  refine List.foldlRecOn (motive := fun w => Stopped w.panes) snapshot.tabs restoreTab
    hempty fun w hw tab _ => ?_
  exact List.foldlRecOn (motive := Stopped) tab.panes _ hw fun panes hpanes pane _ =>
    stopped_insert hpanes rfl

end TerminalWorkspace

end Strukt

namespace Strukt.App

open Method TerminalWorkspace

variable {P : Platform}

/-! ## Agreement -/

/-- A pane shows its state in the runtime. A start that failed is told with the text of its
error. -/
def Shows (shown : PaneState) (state : RuntimePaneState) : Prop :=
  shown = paneState state ∨
    ∃ message, state = .failed message ∧ shown = .failed (RuntimeError.startFailed message).toString

/-- A pane that is stopped has no process. One with a process had its generation completed, and if
it failed, twice: `n` is how often. -/
structure Sound (n : Nat) (r : PaneRuntime P) : Prop where
  bare : r.state = .stopped ∨ (∃ code, r.state = .exited code) → r.process = none
  held : r.process.isSome → 1 ≤ n
  failed : r.process.isSome → ∀ message, r.state = .failed message → 2 ≤ n

/-- The states of the `late` panes are not copied yet; the generations `completed` were completed
so far. -/
structure Agree (late : List TerminalPaneId) (completed : List (TerminalPaneId × UInt64))
    (s : TerminalSurfaces P) : Prop where
  panes : ∀ k, k ∈ s.runtime.panes.keys ↔ k ∈ s.workspace.panes.keys
  covered : s.workspace.Covered
  shows : ∀ k p r, k ∉ late → s.workspace.panes.get? k = some p →
    s.runtime.panes.get? k = some r → Shows p.state r.state
  sound : ∀ k r, s.runtime.panes.get? k = some r → Sound (completed.count (k, r.generation)) r
  selections : ∀ k ∈ s.selections.keys, k ∈ s.workspace.panes.keys
  offsets : ∀ k offset, s.viewportOffsets.get? k = some offset → k ∉ s.workspace.panes.keys →
    offset = 0

section Panes

variable {n m : Nat} {r r' : PaneRuntime P}

theorem shows_self (state : RuntimePaneState) : Shows (paneState state) state := .inl rfl

theorem Sound.mono (h : Sound n r) (hle : n ≤ m) : Sound m r :=
  ⟨h.bare, fun hp => (h.held hp).trans hle, fun hp message hm => (h.failed hp message hm).trans hle⟩

theorem sound_of_none (h : r.process = none) : Sound n r := by
  refine ⟨fun _ => h, fun hp => ?_, fun hp => ?_⟩ <;> rw [h] at hp <;> cases hp

theorem Sound.turned (h : Sound n r) (ht : r.Turned r') : Sound n r' := by
  have hnone : r.process = none → r'.process = none := by
    rw [← Option.not_isSome_iff_eq_none, ← Option.not_isSome_iff_eq_none]
    exact mt ht.process
  obtain hsame | hgone | hactive := ht.state
  · refine ⟨fun hs => hnone (h.bare (hsame ▸ hs)), fun hp => h.held (ht.process hp),
      fun hp message hm => h.failed (ht.process hp) message (hsame ▸ hm)⟩
  · exact sound_of_none hgone
  · refine ⟨?_, fun hp => h.held (ht.process hp), fun _ message hm => ?_⟩
    · rintro (hs | ⟨code, hs⟩) <;> rw [hs] at hactive <;> cases hactive
    · rw [hm] at hactive
      cases hactive

end Panes

namespace Agree

variable {late late' : List TerminalPaneId} {completed : List (TerminalPaneId × UInt64)}
  {s : TerminalSurfaces P} {pane : TerminalPaneId} {state : PaneState} {r : PaneRuntime P}
  {w' : TerminalWorkspace} {t' : TerminalRuntime P}

theorem mono (h : Agree late completed s) (more : List (TerminalPaneId × UInt64)) :
    Agree late (completed ++ more) s :=
  { h with sound := fun k r hr =>
      (h.sound k r hr).mono ((List.sublist_append_left completed more).count_le _) }

theorem default (completed : List (TerminalPaneId × UInt64)) :
    Agree [] completed (TerminalSurfaces.default : TerminalSurfaces P) where
  panes _ := Iff.rfl
  covered _ hk := absurd hk List.not_mem_nil
  shows _ _ _ _ hp := nomatch hp
  sound _ _ hr := nomatch hr
  selections _ hk := absurd hk List.not_mem_nil
  offsets _ _ ho := nomatch ho

theorem stays (h : Agree late completed s) (hw : Stays s.workspace w') :
    Agree late completed { s with workspace := w' } where
  panes k := by rw [hw.panes]; exact h.panes k
  covered := hw.covered h.covered
  shows k p r hk hp hr := h.shows k p r hk (hw.panes ▸ hp) hr
  sound := h.sound
  selections k hk := by rw [hw.panes]; exact h.selections k hk
  offsets k offset ho hk := h.offsets k offset ho (hw.panes ▸ hk)

/-- A pane that both sides have anew. -/
theorem puts (h : Agree late completed s) (hw : Puts pane state s.workspace w')
    (hs : Shows state r.state) (hr : Sound (completed.count (pane, r.generation)) r) :
    Agree late completed { s with
      workspace := w'
      runtime := { s.runtime with panes := s.runtime.panes.insert pane r } } := by
  obtain ⟨⟨p, rfl, hpanes⟩, hcovered⟩ := hw
  refine ⟨fun k => ?_, hcovered h.covered, fun k q r' hk hq hr' => ?_, fun k r' hr' => ?_,
    fun k hk => ?_, fun k offset ho hk => ?_⟩
  · rw [hpanes, SortedMap.mem_keys_insert, SortedMap.mem_keys_insert, h.panes]
  · rw [hpanes, SortedMap.get?_insert] at hq
    rw [SortedMap.get?_insert] at hr'
    split at hq
    · rename_i hkp
      rw [if_pos hkp] at hr'
      cases hq
      cases hr'
      exact hs
    · rename_i hkp
      rw [if_neg hkp] at hr'
      exact h.shows k q r' hk hq hr'
  · rw [SortedMap.get?_insert] at hr'
    split at hr'
    · rename_i hkp
      cases hr'
      rwa [hkp]
    · exact h.sound k r' hr'
  · rw [hpanes, SortedMap.mem_keys_insert]
    exact .inr (h.selections k hk)
  · rw [hpanes, SortedMap.mem_keys_insert, not_or] at hk
    exact h.offsets k offset ho hk.2

/-- The runtime's panes had their turns, and those that changed their state are late. -/
theorem turned (h : Agree [] completed s) (hkeys : t'.panes.keys = s.runtime.panes.keys)
    (hpane : ∀ k r', t'.panes.get? k = some r' → ∃ r, s.runtime.panes.get? k = some r ∧
      r.Turned r' ∧ (k ∉ late → r'.state = r.state)) :
    Agree late completed { s with runtime := t' } where
  panes k := by rw [hkeys]; exact h.panes k
  covered := h.covered
  shows k p r' hk hp hr' := by
    obtain ⟨r, hr, -, hstate⟩ := hpane k r' hr'
    rw [hstate hk]
    exact h.shows k p r List.not_mem_nil hp hr
  sound k r' hr' := by
    obtain ⟨r, hr, hturned, -⟩ := hpane k r' hr'
    rw [hturned.generation]
    exact (h.sound k r hr).turned hturned
  selections := h.selections
  offsets := h.offsets

/-- A call on a pane's process. -/
theorem called (h : Agree [] completed s)
    (hc : TerminalRuntime.Changes pane TerminalRuntime.Called s.runtime t') :
    Agree [] completed { s with runtime := t' } := by
  obtain rfl | ⟨r, r', hr, rfl, hquiet⟩ := hc
  · exact h
  · refine h.turned (SortedMap.keys_insert_of_mem hr) fun k r₂ hr₂ => ?_
    dsimp only at hr₂
    rw [SortedMap.get?_insert] at hr₂
    split at hr₂
    · rename_i hkp
      cases hr₂
      rw [hkp]
      exact ⟨r, hr, PaneRuntime.turned_of_quiet hquiet.toQuiet, fun _ => hquiet.state⟩
    · exact ⟨r₂, hr₂, .refl r₂, fun _ => rfl⟩

/-- The state of a late pane is copied. -/
theorem copied (h : Agree (pane :: late) completed s) (hr : s.runtime.panes.get? pane = some r)
    (hw : Puts pane (paneState r.state) s.workspace w') :
    Agree late completed { s with workspace := w' } := by
  have hputs := h.puts hw (shows_self r.state) (h.sound pane r hr)
  rw [SortedMap.insert_eq_self hr] at hputs
  refine { hputs with shows := fun k p r' hk hp hr' => ?_ }
  by_cases hkp : k = pane
  · obtain ⟨⟨p', hstate, hpanes⟩, -⟩ := hw
    dsimp only at hp hr'
    rw [hkp] at hp hr'
    rw [hpanes, SortedMap.get?_insert, if_pos rfl] at hp
    cases hp
    cases hr.symm.trans hr'
    rw [hstate]
    exact shows_self r.state
  · exact hputs.shows k p r' (fun hmem => (List.mem_cons.mp hmem).elim hkp hk) hp hr'

/-- The pane, and all that is kept of it, is gone. -/
theorem drops (h : Agree late completed s) (hw : Drops pane s.workspace w') :
    Agree late completed { s with
      workspace := w'
      runtime := { s.runtime with panes := s.runtime.panes.remove pane }
      selections := s.selections.remove pane
      viewportOffsets := s.viewportOffsets.remove pane } := by
  refine ⟨fun k => ?_, hw.covered h.covered, fun k p r hk hp hr => ?_, fun k r hr => ?_,
    fun k hk => ?_, fun k offset ho hk => ?_⟩
  · rw [hw.panes, SortedMap.mem_keys_remove, SortedMap.mem_keys_remove, h.panes]
  · rw [hw.panes, SortedMap.get?_remove] at hp
    rw [SortedMap.get?_remove] at hr
    split at hp
    · cases hp
    · rename_i hkp
      rw [if_neg hkp] at hr
      exact h.shows k p r hk hp hr
  · rw [SortedMap.get?_remove] at hr
    split at hr
    · cases hr
    · exact h.sound k r hr
  · rw [SortedMap.mem_keys_remove] at hk
    rw [hw.panes, SortedMap.mem_keys_remove]
    exact hk.imp_right (h.selections k)
  · rw [SortedMap.get?_remove] at ho
    split at ho
    · cases ho
    · rename_i hkp
      rw [hw.panes, SortedMap.mem_keys_remove, not_and] at hk
      exact h.offsets k offset ho (hk hkp)

end Agree

/-! ## The operations -/

namespace TerminalSurfaces

section Operations

variable {α : Type} {completed : List (TerminalPaneId × UInt64)} {s : TerminalSurfaces P}
  {pane : TerminalPaneId}

/-- The operation leaves surfaces that agree, whether it fails or not. -/
def KeepsAgreement (x : SurfacesM P α) (completed : List (TerminalPaneId × UInt64))
    (s : TerminalSurfaces P) : Prop :=
  wp x (fun _ => Agree [] completed) (fun _ => Agree [] completed) True s

theorem onWorkspace_keeps (h : Agree [] completed s) {x : WorkspaceM α}
    (hx : wp x (fun _ => Stays s.workspace) (fun _ => Stays s.workspace) True s.workspace) :
    KeepsAgreement (onWorkspace x) completed s := by
  rw [KeepsAgreement, onWorkspace, wp_focus]
  exact wp_mono hx (fun _ _ hw => h.stays hw) (fun _ _ hw => h.stays hw) id

theorem onRuntime_keeps (h : Agree [] completed s) {x : RuntimeM P α}
    (hx : wp x (fun _ => TerminalRuntime.Changes pane TerminalRuntime.Called s.runtime)
      (fun _ => TerminalRuntime.Changes pane TerminalRuntime.Called s.runtime) True s.runtime) :
    KeepsAgreement (onRuntime x) completed s := by
  rw [KeepsAgreement, onRuntime, wp_focus]
  exact wp_mono hx (fun _ _ hc => h.called hc) (fun _ _ hc => h.called hc) id

theorem write_called (bytes : List UInt8) (t : TerminalRuntime P) :
    wp (TerminalRuntime.write pane bytes)
      (fun _ => TerminalRuntime.Changes pane TerminalRuntime.Called t)
      (fun _ => TerminalRuntime.Changes pane TerminalRuntime.Called t) True t :=
  wp_mono (TerminalRuntime.discard_callProcess_called _) (fun _ _ h => h) (fun _ _ h => h)
    False.elim

/-- A pane prepared on both sides is stopped on both. -/
theorem prepare_keeps (h : Agree [] completed s) {w' : TerminalWorkspace}
    (hw : Puts pane .stopped s.workspace w') (size : GridSize) :
    KeepsAgreement (discard (onRuntime (TerminalRuntime.prepare pane size))) completed
      { s with workspace := w' } := by
  rw [KeepsAgreement, wp_discard, onRuntime, wp_focus]
  refine wp_mono (TerminalRuntime.prepare_spec size) (fun _ t' hp => ?_)
    (fun _ _ hf => hf.elim) False.elim
  obtain ⟨-, r, rfl, -, hnone, hstate, -⟩ := hp
  exact h.puts hw (hstate ▸ shows_self .stopped) (sound_of_none hnone)

theorem newTab_keeps (h : Agree [] completed s) (root : PathBuf) (tabId : TerminalTabId) :
    KeepsAgreement (newTab root pane tabId) completed s := by
  rw [KeepsAgreement, newTab]
  simp only [wp_bind, wp_get, onWorkspace, wp_focus]
  generalize "Terminal " ++ toString (s.workspace.tabs.length + 1) = name
  refine wp_mono createTab_puts (fun k w' hp => ?_) (fun _ w' hw => ?_) id
  swap
  · rw [hw]
    exact h
  obtain ⟨rfl, hputs⟩ := hp
  exact wp_mono (prepare_keeps h hputs _) (fun _ _ h => h) (fun _ _ h => h) id

theorem splitFocused_keeps (h : Agree [] completed s) (axis : SplitAxis) :
    KeepsAgreement (splitFocused axis pane) completed s := by
  rw [KeepsAgreement, splitFocused]
  simp only [wp_bind, onWorkspace, wp_focus]
  refine wp_mono splitFocused_puts (fun k w' hp => ?_) (fun _ w' hw => h.stays hw) id
  obtain ⟨rfl, hputs⟩ := hp
  exact wp_mono (prepare_keeps h hputs _) (fun _ _ h => h) (fun _ _ h => h) id

theorem reportFocus_keeps (h : Agree [] completed s) (focused : Option TerminalPaneId)
    (event : FocusEvent) : KeepsAgreement (reportFocus focused event) completed s := by
  rw [KeepsAgreement, reportFocus]
  simp only [wp_bind, wp_get]
  cases focused.filter s.running with
  | none => exact h
  | some k =>
    simp only [wp_bind, onRuntime, wp_focus, TerminalRuntime.encodeFocus, wp_get, wp_okOr, wp_pure]
    refine ⟨fun r _ => ?_, fun _ => h⟩
    cases r.model.encodeFocus event with
    | none => exact h
    | some bytes => exact onRuntime_keeps h (write_called bytes s.runtime)

theorem reportFocusChange_keeps (h : Agree [] completed s)
    (previous current : Option TerminalPaneId) :
    KeepsAgreement (reportFocusChange previous current) completed s := by
  rw [KeepsAgreement, reportFocusChange]
  split
  · exact h
  · rw [wp_bind]
    exact wp_mono (reportFocus_keeps h previous .focusOut)
      (fun _ _ h => reportFocus_keeps h current .focusIn) (fun _ _ h => h) id

theorem activateTab_keeps (h : Agree [] completed s) (tab : TerminalTabId) :
    KeepsAgreement (activateTab tab) completed s := by
  rw [KeepsAgreement, activateTab]
  simp only [wp_bind, wp_get]
  exact wp_mono (onWorkspace_keeps h (activateTab_stays tab))
    (fun _ _ h => reportFocusChange_keeps h _ _) (fun _ _ h => h) id

theorem focusPane_keeps (h : Agree [] completed s) (focused : TerminalPaneId) :
    KeepsAgreement (focusPane focused) completed s := by
  rw [KeepsAgreement, focusPane]
  simp only [wp_bind, wp_get]
  exact wp_mono (onWorkspace_keeps h (focusPane_stays focused))
    (fun _ _ h => reportFocusChange_keeps h _ _) (fun _ _ h => h) id

/-- A start has both sides at the same state: the grid's size is never refused. -/
theorem startPane_keeps (h : Agree [] completed s) (request : SpawnRequest) :
    KeepsAgreement (startPane pane request) completed s := by
  rw [KeepsAgreement, startPane]
  simp only [wp_bind, onWorkspace, wp_focus]
  refine wp_mono restartPane_puts (fun _ w' hputs => ?_) (fun _ w' hw => ?_) id
  swap
  · rw [hw]
    exact h
  simp only [wp_attempt, onRuntime, wp_focus]
  refine wp_mono (TerminalRuntime.beginRestart_spec request) (fun job t' hj => ?_)
    (fun _ _ hf => hf.elim) False.elim
  obtain ⟨-, -, rfl⟩ := hj
  exact h.puts hputs (shows_self .starting) (sound_of_none rfl)

theorem beginStart_keeps (h : Agree [] completed s) (shell : Option PathBuf) :
    KeepsAgreement (beginStart pane shell) completed s := by
  rw [KeepsAgreement, beginStart]
  simp only [wp_bind, wp_get, wp_okOr, wp_ofExcept]
  exact ⟨fun _ _ => ⟨fun request _ => startPane_keeps h request, fun _ _ => h⟩, fun _ => h⟩

theorem beginStartWithRequest_keeps (h : Agree [] completed s) (request : SpawnRequest) :
    KeepsAgreement (beginStartWithRequest pane request) completed s := by
  rw [KeepsAgreement, beginStartWithRequest]
  simp only [wp_bind, wp_get, wp_discard, wp_okOr]
  exact ⟨fun _ _ => startPane_keeps h request, fun _ => h⟩

/-- A completion of the current generation gives both sides its outcome; another one changes
neither. -/
theorem finishStart_keeps (h : Agree [] completed s) (generation : UInt64)
    (result : TerminalSpawnResult P) :
    KeepsAgreement (finishStart pane generation (some result))
      (completed ++ [(pane, generation)]) s := by
  have hmono := h.mono [(pane, generation)]
  rw [KeepsAgreement, finishStart]
  simp only [wp_bind, wp_get, wp_attempt, onRuntime, wp_focus, TerminalRuntime.finishRestart]
  cases hr : s.runtime.panes.get? pane with
  | none => simpa [hr] using hmono
  | some r =>
    simp only [wp_ite, wp_pure, Option.map_some, Option.some.injEq]
    refine ⟨fun hg => ⟨fun hc => absurd hc hg, fun _ => hmono⟩, fun hg => ?_⟩
    rw [not_not] at hg
    subst hg
    have hcount : (completed ++ [(pane, r.generation)]).count (pane, r.generation) =
        completed.count (pane, r.generation) + 1 := by
      rw [List.count_append, List.count_singleton_self]
    have hsound := h.sound pane r hr
    cases result with
    | ok process =>
      simp only [TerminalRuntime.wp_putPane, true_implies, not_true, false_implies, and_true,
        onWorkspace, wp_focus]
      refine wp_mono setPaneState_puts (fun _ w' hputs => ?_) (fun _ w' hw => ?_) id
      · refine hmono.puts hputs (shows_self .running) ⟨?_, fun _ => ?_, fun _ message hm => ?_⟩
        · rintro (hs | ⟨code, hs⟩) <;> cases hs
        · dsimp only
          rw [hcount]
          exact Nat.le_add_left 1 _
        · cases hm
      · exact absurd ((h.panes pane).mp (SortedMap.mem_keys_of_get? hr)) hw.2
    | error message =>
      simp only [wp_bind, TerminalRuntime.wp_putPane, wp_throw, onWorkspace, wp_focus]
      refine wp_mono setPaneState_puts (fun _ w' hputs => ?_) (fun _ w' hw => ?_) id
      · refine hmono.puts hputs (.inr ⟨message, rfl, rfl⟩) ⟨?_, fun hp => ?_, fun hp _ _ => ?_⟩
        · rintro (hs | ⟨code, hs⟩) <;> cases hs
        · dsimp only
          rw [hcount]
          exact Nat.le_add_left 1 _
        · have hheld := hsound.held hp
          dsimp only
          rw [hcount]
          omega
      · exact absurd ((h.panes pane).mp (SortedMap.mem_keys_of_get? hr)) hw.2

theorem copyStates_keeps {late : List TerminalPaneId} (h : Agree late completed s) :
    KeepsAgreement (copyStates late) completed s := by
  induction late generalizing s with
  | nil => exact h
  | cons pane late ih =>
    rw [KeepsAgreement, copyStates]
    simp only [wp_bind, wp_get]
    cases hr : s.runtime.panes.get? pane with
    | none =>
      simp only [TerminalRuntime.state, hr, Option.map_none]
      refine ih { h with shows := fun k p r hk hp hr' => h.shows k p r (fun hmem => ?_) hp hr' }
      obtain rfl | hmem := List.mem_cons.mp hmem
      · cases hr.symm.trans hr'
      · exact hk hmem
    | some r =>
      simp only [TerminalRuntime.state, hr, Option.map_some, wp_bind, wp_discard, wp_attempt,
        onWorkspace, wp_focus]
      refine wp_mono setPaneState_puts (fun _ w' hputs => ih (h.copied hr hputs))
        (fun _ w' hw => ?_) id
      exact absurd ((h.panes pane).mp (SortedMap.mem_keys_of_get? hr)) hw.2

theorem poll_keeps (h : Agree [] completed s) (fuel : Nat)
    (clock : TerminalPaneId → Nat → Instant) : KeepsAgreement (poll fuel clock) completed s := by
  rw [KeepsAgreement, poll]
  simp only [wp_bind, wp_get, wp_orPanic, wp_set]
  refine ⟨fun out hdrain => ?_, fun _ => trivial⟩
  obtain ⟨batch, t'⟩ := out
  have hspec := TerminalRuntime.drain_spec hdrain
  refine copyStates_keeps (h.turned hspec.keys fun k r' hr' => ?_)
  obtain ⟨r, hr, hturned⟩ := TerminalRuntime.drain_turned hdrain hr'
  obtain ⟨r₀, hr₀, -, hsame⟩ := hspec.pane k r' hr'
  cases hr.symm.trans hr₀
  exact ⟨r, hr, hturned, fun hk => (hsame hk).2⟩

theorem resize_keeps (h : Agree [] completed s) (size : TerminalSize) :
    KeepsAgreement (resize pane size) completed s := by
  rw [KeepsAgreement, resize]
  simp only [wp_bind, wp_get, wp_ite]
  exact ⟨fun _ => onRuntime_keeps h (TerminalRuntime.resize_called size), fun _ => h⟩

theorem select_keeps (h : Agree [] completed s) (selection : Selection) :
    KeepsAgreement (select pane selection) completed s := by
  rw [KeepsAgreement, select]
  simp only [wp_bind, wp_get, wp_discard, wp_okOr, wp_modify]
  refine ⟨fun p hp => { h with selections := fun k hk => ?_ }, fun _ => h⟩
  obtain rfl | hk := SortedMap.mem_keys_insert.mp hk
  · exact SortedMap.mem_keys_of_get? hp
  · exact h.selections k hk

/-- An offset of a pane that is there, or 0. -/
theorem offset_keeps (h : Agree [] completed s) {offset : Nat}
    (ho : pane ∈ s.workspace.panes.keys ∨ offset = 0) :
    Agree [] completed { s with viewportOffsets := s.viewportOffsets.insert pane offset } := by
  refine { h with offsets := fun k other hother hk => ?_ }
  dsimp only at hother
  rw [SortedMap.get?_insert] at hother
  split at hother
  · rename_i hkp
    cases hother
    exact ho.resolve_left (hkp ▸ hk)
  · exact h.offsets k other hother hk

theorem scroll_keeps (h : Agree [] completed s) (lines : Int32) :
    KeepsAgreement (scroll pane lines) completed s := by
  rw [KeepsAgreement, scroll]
  simp only [wp_bind, wp_get, wp_discard, wp_okOr, wp_modify]
  exact ⟨fun p hp => offset_keeps h (.inl (SortedMap.mem_keys_of_get? hp)), fun _ => h⟩

theorem write_keeps (h : Agree [] completed s) (bytes : List UInt8) :
    KeepsAgreement (write pane bytes) completed s := by
  rw [KeepsAgreement, write]
  simp only [wp_bind, wp_modify]
  exact onRuntime_keeps (offset_keeps h (.inr rfl)) (write_called bytes s.runtime)

theorem closeAndTakeProcess_keeps (h : Agree [] completed s) :
    KeepsAgreement (closeAndTakeProcess pane) completed s := by
  rw [KeepsAgreement, closeAndTakeProcess]
  simp only [wp_bind, wp_get, wp_discard, wp_okOr, onRuntime, onWorkspace, wp_focus,
    TerminalRuntime.takeProcessAndDiscard, wp_set, wp_pure, wp_modify]
  refine ⟨fun p hp => ?_, fun _ => h⟩
  exact wp_mono (closePane_drops h.covered (SortedMap.mem_keys_of_get? hp))
    (fun _ w' hw => h.drops hw) (fun _ _ hf => hf.elim) id

/-- Panes that the workspace has, and all those that the runtime has not, are prepared. -/
theorem preparePanes_keeps {l : List TerminalPaneId} (hl : ∀ k ∈ l, k ∈ s.workspace.panes.keys)
    (hall : ∀ k, k ∈ s.runtime.panes.keys ∨ k ∈ l ↔ k ∈ s.workspace.panes.keys)
    (hstopped : ∀ k p, s.workspace.panes.get? k = some p → p.state = .stopped)
    (hprepared : ∀ k r, s.runtime.panes.get? k = some r → r.process = none ∧ r.state = .stopped)
    (hcovered : s.workspace.Covered) (hselections : s.selections = .empty)
    (hoffsets : s.viewportOffsets = .empty) : KeepsAgreement (preparePanes l) completed s := by
  induction l generalizing s with
  | nil =>
    refine ⟨fun k => ?_, hcovered, fun k p r _ hp hr => ?_, fun k r hr => ?_, ?_, ?_⟩
    · rw [← hall k]
      exact ⟨.inl, fun hk => hk.resolve_right List.not_mem_nil⟩
    · rw [hstopped k p hp, (hprepared k r hr).2]
      exact shows_self .stopped
    · exact sound_of_none (hprepared k r hr).1
    · rw [hselections]
      exact fun k hk => absurd hk List.not_mem_nil
    · rw [hoffsets]
      exact fun _ _ ho => nomatch ho
  | cons pane rest ih =>
    rw [KeepsAgreement, preparePanes]
    simp only [wp_bind, wp_discard, onRuntime, wp_focus]
    refine wp_mono (TerminalRuntime.prepare_spec defaultGridSize) (fun _ t' hp => ?_)
      (fun _ _ hf => hf.elim) False.elim
    obtain ⟨-, r, rfl, -, hnone, hstate, -⟩ := hp
    refine ih (fun k hk => hl k (List.mem_cons_of_mem _ hk)) (fun k => ?_) hstopped
      (fun k r' hr' => ?_) hcovered hselections hoffsets
    · rw [← hall k, SortedMap.mem_keys_insert, List.mem_cons]
      tauto
    · rw [SortedMap.get?_insert] at hr'
      split at hr'
      · cases hr'
        exact ⟨hnone, hstate⟩
      · exact hprepared k r' hr'

theorem restore_keeps (snapshot : Option TerminalSessionSnapshot) :
    KeepsAgreement (restore snapshot) completed s := by
  unfold KeepsAgreement TerminalSurfaces.restore
  simp only [wp_bind, wp_set, wp_ofExcept]
  refine ⟨fun workspace hrestored => ?_, fun _ _ => Agree.default completed⟩
  have hvalid : workspace.Valid ∧ Stopped workspace.panes := by
    cases snapshot with
    | none =>
      cases hrestored
      exact ⟨valid_new, stopped_empty⟩
    | some snapshot =>
      simp only [TerminalSessionSnapshot.restore] at hrestored
      split at hrestored
      · cases hrestored
      · cases hw : TerminalWorkspace.restore ⟨snapshot.tabs, snapshot.activeTab⟩ with
        | error e =>
          rw [hw] at hrestored
          cases hrestored
        | ok w =>
          rw [hw] at hrestored
          cases hrestored
          exact ⟨valid_restore hw, restore_stopped hw⟩
  refine preparePanes_keeps (fun k hk => hk) (fun k => ?_) hvalid.2 (by rintro _ _ ⟨⟩)
    (fun k hk => (hvalid.1.keys k).mp hk) rfl rfl
  exact ⟨fun hk => hk.resolve_left List.not_mem_nil, .inr⟩

end Operations

end TerminalSurfaces

/-! ## The law -/

namespace SurfaceOp

open TerminalSurfaces

/-- The generation of a pane that the operation completes. -/
def completed : SurfaceOp P → List (TerminalPaneId × UInt64)
  | .finishStart pane generation (some _) => [(pane, generation)]
  | _ => []

attribute [local irreducible] TerminalSurfaces.newTab in
theorem run_keeps {generations : List (TerminalPaneId × UInt64)} {s : TerminalSurfaces P}
    (h : Agree [] generations s) (op : SurfaceOp P) :
    KeepsAgreement op.run (generations ++ op.completed) s := by
  have discarded {α : Type} {x : SurfacesM P α} (hx : KeepsAgreement x (generations ++ []) s) :
      KeepsAgreement (discard x) (generations ++ []) s := by
    rw [KeepsAgreement, wp_discard]
    exact hx
  have h' := h.mono []
  cases op with
  | restore snapshot => exact restore_keeps snapshot
  | newTab root paneId tabId => exact discarded (newTab_keeps h' root tabId)
  | splitFocused axis newPane => exact discarded (splitFocused_keeps h' axis)
  | activateTab tab => exact activateTab_keeps h' tab
  | focusPane pane => exact focusPane_keeps h' pane
  | renameActiveTab name => exact onWorkspace_keeps h' (renameActiveTab_stays name)
  | beginStart pane shell => exact discarded (beginStart_keeps h' shell)
  | beginStartWithRequest pane request => exact discarded (beginStartWithRequest_keeps h' request)
  | finishStart pane generation completion =>
    cases completion with
    | none => exact h'
    | some result => exact finishStart_keeps h generation result
  | poll fuel clock => exact discarded (poll_keeps h' fuel clock)
  | resize pane size => exact resize_keeps h' size
  | select pane selection => exact select_keeps h' selection
  | scroll pane lines => exact scroll_keeps h' lines
  | write pane bytes => exact write_keeps h' bytes
  | closeAndTakeProcess pane => exact discarded (closeAndTakeProcess_keeps h')

end SurfaceOp

/-- The surfaces agree with the runtime, where these generations were completed before. -/
structure Agreement (completed : List (TerminalPaneId × UInt64)) (s : TerminalSurfaces P) : Prop where
  panes : s.workspace.panes.keys = s.runtime.panes.keys
  selections : ∀ k ∈ s.selections.keys, k ∈ s.workspace.panes.keys
  offsets : ∀ k offset, s.viewportOffsets.get? k = some offset →
    k ∈ s.workspace.panes.keys ∨ offset = 0 ∧ s.snapshot k = none
  lifecycle : ∀ k p r, s.workspace.panes.get? k = some p → s.runtime.panes.get? k = some r →
    Shows p.state r.state
  /-- A pane that is shown as stopped or exited has no process. -/
  stopped : ∀ k p r, s.workspace.panes.get? k = some p → s.runtime.panes.get? k = some r →
    p.state = .stopped ∨ (∃ code, p.state = .exited code) → r.process = none
  /-- A pane that is shown as failed has one only where its generation was completed twice. -/
  failed : ∀ k p r message, s.workspace.panes.get? k = some p → s.runtime.panes.get? k = some r →
    p.state = .failed message → r.process.isSome → 2 ≤ completed.count (k, r.generation)

theorem Shows.state_eq {shown : PaneState} {state : RuntimePaneState} (h : Shows shown state) :
    (shown = .stopped → state = .stopped) ∧
      (∀ code, shown = .exited code → state = .exited code) ∧
        ∀ message, shown = .failed message → ∃ message, state = .failed message := by
  obtain rfl | ⟨message, rfl, rfl⟩ := h
  · cases state <;> simp [paneState]
  · simp

theorem Agree.agreement {completed : List (TerminalPaneId × UInt64)} {s : TerminalSurfaces P}
    (h : Agree [] completed s) : Agreement completed s where
  panes := by
    have hperm := (List.perm_ext_iff_of_nodup s.workspace.panes.nodup_keys
      s.runtime.panes.nodup_keys).mpr fun k => (h.panes k).symm
    exact hperm.eq_of_pairwise (fun a b _ _ hab hba => absurd hab hba.asymm)
      s.workspace.panes.sorted_keys s.runtime.panes.sorted_keys
  selections := h.selections
  offsets k offset ho := by
    by_cases hk : k ∈ s.workspace.panes.keys
    · exact .inl hk
    · have hnone := SortedMap.get?_eq_none.mpr fun hmem => hk ((h.panes k).mp hmem)
      exact .inr ⟨h.offsets k offset ho hk, by rw [TerminalSurfaces.snapshot, hnone]; rfl⟩
  lifecycle k p r hp hr := h.shows k p r List.not_mem_nil hp hr
  stopped k p r hp hr hstate := by
    obtain ⟨hstopped, hexited, -⟩ := (h.shows k p r List.not_mem_nil hp hr).state_eq
    exact (h.sound k r hr).bare
      (hstate.imp hstopped fun ⟨code, hcode⟩ => ⟨code, hexited code hcode⟩)
  failed k p r message hp hr hstate hprocess := by
    obtain ⟨-, -, hfailed⟩ := (h.shows k p r List.not_mem_nil hp hr).state_eq
    obtain ⟨message, hm⟩ := hfailed message hstate
    exact (h.sound k r hr).failed hprocess message hm

/-- **After every run of operations the surfaces agree with the runtime.** -/
theorem surfaces_law (ops : List (SurfaceOp P)) (s : TerminalSurfaces P)
    (h : ops.foldlM SurfaceOp.step TerminalSurfaces.default = some s) :
    Agreement (ops.flatMap SurfaceOp.completed) s := by
  have key : ∀ (ops : List (SurfaceOp P)) (done : List (TerminalPaneId × UInt64))
      (s₀ : TerminalSurfaces P), Agree [] done s₀ → ops.foldlM SurfaceOp.step s₀ = some s →
        Agree [] (done ++ ops.flatMap SurfaceOp.completed) s := by
    intro ops
    induction ops with
    | nil =>
      intro done s₀ h₀ h
      cases h
      exact h₀.mono []
    | cons op ops ih =>
      intro done s₀ h₀ h
      rw [List.foldlM_cons] at h
      obtain ⟨s₁, hs, h⟩ := Option.bind_eq_some_iff.mp h
      obtain ⟨⟨_, s₁⟩, hexec, rfl⟩ := Option.map_eq_some_iff.mp hs
      have h₁ := (SurfaceOp.run_keeps h₀ op).state hexec
      rw [List.flatMap_cons, ← List.append_assoc]
      exact ih _ s₁ h₁ h
  exact (key ops [] _ (Agree.default []) h).agreement

/-- A tab whose pane is started and polled, a write to a pane that there is not, and a split. -/
theorem surfaces_law_started : ∃ s : TerminalSurfaces Platform.playback,
    [SurfaceOp.newTab ⟨[47]⟩ ⟨1⟩ ⟨1⟩, .beginStart ⟨1⟩ (some ⟨[47]⟩),
      .finishStart ⟨1⟩ 2 (some (.ok ⟨(⟨1⟩, 2), [⟨1, [36]⟩]⟩)), .poll 10 fun _ n => n, .write ⟨7⟩ [],
      .splitFocused .horizontal ⟨2⟩].foldlM SurfaceOp.step TerminalSurfaces.default = some s ∧
      Agreement [(⟨1⟩, 2)] s := by
  have hruns : ([SurfaceOp.newTab ⟨[47]⟩ ⟨1⟩ ⟨1⟩, .beginStart ⟨1⟩ (some ⟨[47]⟩),
      .finishStart ⟨1⟩ 2 (some (.ok ⟨(⟨1⟩, 2), [⟨1, [36]⟩]⟩)), .poll 10 fun _ n => n, .write ⟨7⟩ [],
      .splitFocused .horizontal ⟨2⟩].foldlM SurfaceOp.step
        (TerminalSurfaces.default : TerminalSurfaces Platform.playback)).isSome = true := by
    decide +kernel
  obtain ⟨s, hs⟩ := Option.isSome_iff_exists.mp hruns
  exact ⟨s, hs, surfaces_law _ s hs⟩

end Strukt.App
