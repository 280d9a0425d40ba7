import Strukt.Lib.Runs
import Strukt.Terminal.Workspace

/-!
# Runs of workspace operations

`TerminalWorkspace.Valid` is what holds between two operations:

* **Identifiers**: no two tabs have the same one, no two leaves of the tabs' layouts show the same
  pane, and the panes shown are the keys of the pane map.
* **Focus**: a tab's focused pane is one of its leaves; there is an active tab if there is a tab.
* **Ratios**: those of the splits are in range.

Every operation either keeps it or fails and leaves the workspace as it was
(`WorkspaceOp.run_spec`), given identifiers that the workspace does not use (`Fresh`). `restore`
only builds workspaces in which it holds (`valid_restore`).
-/

namespace Strukt

open Method

namespace LayoutNode

def leaves : LayoutNode → List TerminalPaneId
  | .pane p => [p]
  | .split _ _ first second => first.leaves ++ second.leaves

def RatiosValid : LayoutNode → Prop
  | .pane _ => True
  | .split _ ratio first second =>
    (minSplitRatio ≤ ratio ∧ ratio ≤ maxSplitRatio) ∧ first.RatiosValid ∧ second.RatiosValid

variable {p focused newPane : TerminalPaneId} {axis : SplitAxis} {ratio : UInt16}
  {n n' : LayoutNode}

theorem leaves_ne_nil (n : LayoutNode) : n.leaves ≠ [] := by
  induction n with
  | pane p => exact List.cons_ne_nil _ _
  | split a r f s ihf ihs => exact List.append_ne_nil_of_left_ne_nil ihf _

theorem contains_iff : n.contains p ↔ p ∈ n.leaves := by
  induction n with
  | pane q => simp [contains, leaves, eq_comm]
  | split a r f s ihf ihs => simp [contains, leaves, ihf, ihs]

theorem collectPanes_eq (panes : List TerminalPaneId) : n.collectPanes panes = panes ++ n.leaves := by
  induction n generalizing panes with
  | pane q => rfl
  | split a r f s ihf ihs => rw [collectPanes, ihf, ihs, leaves, List.append_assoc]

theorem validate_iff : n.validate ↔ n.RatiosValid := by
  induction n with
  | pane q => simp [validate, RatiosValid]
  | split a r f s ihf ihs => simp [validate, RatiosValid, ihf, ihs, and_assoc]

theorem splitLeaf_false (h : n.splitLeaf focused newPane axis = (false, n')) :
    n' = n ∧ focused ∉ n.leaves := by
  induction n generalizing n' with
  | pane p =>
    by_cases hp : p = focused
    · simp [splitLeaf, hp] at h
    · simp only [splitLeaf, hp, if_false, Prod.mk.injEq, true_and] at h
      exact ⟨h.symm, fun hm => hp (List.mem_singleton.mp hm).symm⟩
  | split a r f s ihf ihs =>
    rcases hf : f.splitLeaf focused newPane axis with ⟨ok, f'⟩
    rcases hs : s.splitLeaf focused newPane axis with ⟨ok', s'⟩
    cases ok <;> simp only [splitLeaf, hf, hs, Prod.mk.injEq, Bool.true_eq_false, false_and] at h
    obtain ⟨rfl, rfl⟩ := h
    obtain ⟨rfl, hmf⟩ := ihf hf
    obtain ⟨rfl, hms⟩ := ihs hs
    exact ⟨rfl, fun hm => (List.mem_append.mp hm).elim hmf hms⟩

theorem splitLeaf_true (h : n.splitLeaf focused newPane axis = (true, n')) :
    n'.leaves.Perm (newPane :: n.leaves) ∧ (n.RatiosValid → n'.RatiosValid) := by
  induction n generalizing n' with
  | pane p =>
    by_cases hp : p = focused
    · subst hp
      simp only [splitLeaf, if_true, Prod.mk.injEq, true_and] at h
      subst h
      exact ⟨List.Perm.swap _ _ _, fun _ => ⟨by decide, trivial, trivial⟩⟩
    · simp [splitLeaf, hp] at h
  | split a r f s ihf ihs =>
    rcases hf : f.splitLeaf focused newPane axis with ⟨ok, f'⟩
    rw [splitLeaf, hf] at h
    cases ok with
    | true =>
      cases h
      obtain ⟨hp, hr⟩ := ihf hf
      exact ⟨hp.append_right _, fun hv => ⟨hv.1, hr hv.2.1, hv.2.2⟩⟩
    | false =>
      obtain ⟨rfl, -⟩ := splitLeaf_false hf
      rcases hs : s.splitLeaf focused newPane axis with ⟨ok, s'⟩
      simp only [hs, Prod.mk.injEq] at h
      obtain ⟨rfl, rfl⟩ := h
      obtain ⟨hp, hr⟩ := ihs hs
      exact ⟨(hp.append_left _).trans List.perm_middle, fun hv => ⟨hv.1, hv.2.1, hr hv.2.2⟩⟩

/-- A ratio in range leaves the same leaves and ratios in range; without a parent split nothing
changes. -/
theorem setParentRatio_spec {ok : Bool} (hr : minSplitRatio ≤ ratio ∧ ratio ≤ maxSplitRatio)
    (h : n.setParentRatio p ratio = (ok, n')) :
    n'.leaves = n.leaves ∧ (n.RatiosValid → n'.RatiosValid) ∧ (ok = false → n' = n) := by
  induction n generalizing n' ok with
  | pane q =>
    cases h
    exact ⟨rfl, id, fun _ => rfl⟩
  | split a old f s ihf ihs =>
    rw [setParentRatio] at h
    split at h
    · cases h
      exact ⟨rfl, fun hv => ⟨hr, hv.2⟩, fun hc => absurd hc (by decide)⟩
    rcases hf : f.setParentRatio p ratio with ⟨okf, f'⟩
    obtain ⟨hfl, hfv, hfe⟩ := ihf hf
    cases okf with
    | true =>
      simp only [hf, Prod.mk.injEq] at h
      obtain ⟨rfl, rfl⟩ := h
      exact ⟨by rw [leaves, hfl]; rfl, fun hv => ⟨hv.1, hfv hv.2.1, hv.2.2⟩, by simp⟩
    | false =>
      obtain rfl := hfe rfl
      rcases hs : s.setParentRatio p ratio with ⟨oks, s'⟩
      obtain ⟨hsl, hsv, hse⟩ := ihs hs
      simp only [hf, hs, Prod.mk.injEq] at h
      obtain ⟨rfl, rfl⟩ := h
      exact ⟨by rw [leaves, hsl]; rfl, fun hv => ⟨hv.1, hv.2.1, hsv hv.2.2⟩,
        fun he => by rw [hse he]⟩

/-- Removing a pane leaves the other leaves, in order. -/
theorem remove_spec (p : TerminalPaneId) (n : LayoutNode) :
    match n.remove p with
    | some n' => n'.leaves = n.leaves.filter (· ≠ p) ∧ (n.RatiosValid → n'.RatiosValid)
    | none => n.leaves.filter (· ≠ p) = [] := by
  induction n with
  | pane q => by_cases hq : q = p <;> simp [remove, leaves, hq, RatiosValid]
  | split a r f s ihf ihs =>
    rw [remove]
    cases hf : f.remove p <;> cases hs : s.remove p <;> simp only [hf, hs] at ihf ihs ⊢
    · rw [leaves, List.filter_append, ihf, ihs, List.nil_append]
    · exact ⟨by rw [leaves, List.filter_append, ihf, ihs.1, List.nil_append],
        fun hv => ihs.2 hv.2.2⟩
    · exact ⟨by rw [leaves, List.filter_append, ihs, ihf.1, List.append_nil],
        fun hv => ihf.2 hv.2.1⟩
    · exact ⟨by rw [leaves, leaves, List.filter_append, ihf.1, ihs.1],
        fun hv => ⟨hv.1, ihf.2 hv.2.1, ihs.2 hv.2.2⟩⟩

end LayoutNode

/-! ## The invariant -/

namespace TerminalWorkspace

/-- The panes that the tabs show. -/
def shown (tabs : List TerminalTab) : List TerminalPaneId := tabs.flatMap (·.root.leaves)

structure Valid (w : TerminalWorkspace) : Prop where
  tabIds : (w.tabs.map (·.id)).Nodup
  leaves : (shown w.tabs).Nodup
  keys : ∀ p, p ∈ w.panes.keys ↔ p ∈ shown w.tabs
  focused : ∀ tab ∈ w.tabs, tab.focusedPane ∈ tab.root.leaves
  active : w.activeTab.isSome ↔ w.tabs ≠ []
  existing : ∀ tab ∈ w.activeTab, tab ∈ w.tabs.map (·.id)
  ratios : ∀ tab ∈ w.tabs, tab.root.RatiosValid

theorem valid_new : new.Valid :=
  ⟨List.nodup_nil, List.nodup_nil, fun _ => Iff.rfl, fun _ h => absurd h List.not_mem_nil,
    by simp [new], by simp [new], fun _ h => absurd h List.not_mem_nil⟩

variable {w w' : TerminalWorkspace} {index : Nat} {tab tab' : TerminalTab}
  {pre post : List TerminalTab}

/-- The tab at an index, and what a write or a removal there leaves. -/
theorem split_at (h : w.tabs[index]? = some tab) : ∃ pre post, w.tabs = pre ++ tab :: post ∧
    (∀ tab', w.tabs.set index tab' = pre ++ tab' :: post) ∧ w.tabs.eraseIdx index = pre ++ post := by
  obtain ⟨hlt, rfl⟩ := List.getElem?_eq_some_iff.mp h
  refine ⟨w.tabs.take index, w.tabs.drop (index + 1), ?_, fun tab' => ?_, ?_⟩
  · rw [← List.drop_eq_getElem_cons hlt, List.take_append_drop]
  · rw [List.set_eq_take_append_cons_drop, if_pos hlt]
  · rw [List.eraseIdx_eq_take_drop_succ]

theorem shown_split : shown (pre ++ tab :: post) = shown pre ++ (tab.root.leaves ++ shown post) := by
  simp [shown]

theorem tabIndex_spec {id : TerminalTabId} (h : w.tabIndex id = some index) :
    ∃ tab, w.tabs[index]? = some tab ∧ tab.id = id := by
  obtain ⟨hlt, hid, -⟩ := List.findIdx?_eq_some_iff_getElem.mp h
  exact ⟨w.tabs[index], List.getElem?_eq_getElem hlt, of_decide_eq_true hid⟩

/-- A tab in the place of one with the same identifier, while the map follows the panes shown. -/
theorem Valid.edit (h : w.Valid) (ht : w.tabs = pre ++ tab :: post) (tab' : TerminalTab)
    (hid : tab'.id = tab.id) (hf : tab'.focusedPane ∈ tab'.root.leaves)
    (hr : tab'.root.RatiosValid) (hn : (shown (pre ++ tab' :: post)).Nodup) {panes : SortedMap TerminalPaneId TerminalPane}
    (hk : ∀ p, p ∈ panes.keys ↔ p ∈ shown (pre ++ tab' :: post)) :
    Valid { w with tabs := pre ++ tab' :: post, panes := panes } := by
  have hids : (pre ++ tab' :: post).map (·.id) = w.tabs.map (·.id) := by simp [ht, hid]
  have hmem : ∀ t ∈ pre ++ tab' :: post, t ∈ w.tabs ∨ t = tab' := by
    intro t hm
    simp only [List.mem_append, List.mem_cons, ht] at hm ⊢
    tauto
  refine ⟨hids ▸ h.tabIds, hn, hk, fun t hm => ?_, ?_, hids ▸ h.existing, fun t hm => ?_⟩
  · rcases hmem t hm with hm | rfl
    exacts [h.focused t hm, hf]
  · rw [h.active, ht]
    simp
  · rcases hmem t hm with hm | rfl
    exacts [h.ratios t hm, hr]

/-- A tab that shows the same panes in the place of another. -/
theorem Valid.put (h : w.Valid) (ht : w.tabs[index]? = some tab) (hid : tab'.id = tab.id)
    (hl : tab'.root.leaves = tab.root.leaves) (hf : tab'.focusedPane ∈ tab.root.leaves)
    (hr : tab'.root.RatiosValid) : Valid { w with tabs := w.tabs.set index tab' } := by
  obtain ⟨pre, post, ht, hset, -⟩ := split_at ht
  have hshown : shown (pre ++ tab' :: post) = shown w.tabs := by
    rw [ht, shown_split, shown_split, hl]
  rw [hset]
  exact h.edit ht tab' hid (hl ▸ hf) hr (hshown ▸ h.leaves) (hshown ▸ h.keys)

/-- Another record of a pane. -/
theorem Valid.putPane (h : w.Valid) {pane : TerminalPaneId} {p p' : TerminalPane}
    (hp : w.panes.get? pane = some p) : Valid { w with panes := w.panes.insert pane p' } :=
  ⟨h.tabIds, h.leaves, fun q => by rw [SortedMap.keys_insert_of_mem hp]; exact h.keys q, h.focused,
    h.active, h.existing, h.ratios⟩

/-- The panes left without one that is shown in the tab. -/
theorem shown_without (h : w.Valid) (ht : w.tabs = pre ++ tab :: post) {p : TerminalPaneId}
    (hp : p ∈ tab.root.leaves) :
    shown pre ++ (tab.root.leaves.filter (· ≠ p) ++ shown post) =
      (shown w.tabs).filter (· ≠ p) := by
  have hn := h.leaves
  rw [ht, shown_split, List.nodup_append, List.nodup_append] at hn
  obtain ⟨-, ⟨-, -, hpost⟩, hpre⟩ := hn
  have hkeep : ∀ l : List TerminalPaneId, p ∉ l → l.filter (· ≠ p) = l := by
    intro l hl
    exact List.filter_eq_self.mpr fun q hq => decide_eq_true fun he => hl (he ▸ hq)
  rw [ht, shown_split, List.filter_append, List.filter_append, hkeep (shown pre), hkeep (shown post)]
  · exact fun hq => hpost p hp p hq rfl
  · exact fun hq => hpre p hq p (List.mem_append_left _ hp) rfl

/-! ## The operations -/

/-- The operation keeps the invariant, or fails and leaves the workspace as it was. -/
def Keeps {α : Type} (x : WorkspaceM α) (w : TerminalWorkspace) : Prop :=
  wp x (fun _ w' => w'.Valid) (fun _ w' => w' = w) False w

section Parts

variable {Q : Unit → TerminalWorkspace → Prop} {E : TerminalWorkspaceError → TerminalWorkspace → Prop}
  {P : Prop}

@[simp] theorem wp_setTab :
    wp (setTab index tab) Q E P w ↔ Q () { w with tabs := w.tabs.set index tab } := by
  simp [setTab]

@[simp] theorem wp_insertPane {pane : TerminalPane} :
    wp (insertPane pane) Q E P w ↔ Q () { w with panes := w.panes.insert pane.id pane } := by
  simp [insertPane]

/-- The active tab is found by its identifier. -/
theorem wp_activeTabMut {Q : Nat × TerminalTab → TerminalWorkspace → Prop}
    (hQ : ∀ index tab, w.tabs[index]? = some tab → Q (index, tab) w) (hE : ∀ e, E e w) :
    wp activeTabMut Q E P w := by
  simp only [activeTabMut, wp_bind, wp_get, wp_okOr, wp_orPanic, wp_pure]
  refine ⟨fun active _ => ⟨fun index hindex => ⟨fun tab htab => hQ _ _ htab, fun hnone => ?_⟩,
    fun _ => hE _⟩, fun _ => hE _⟩
  obtain ⟨tab, htab, -⟩ := tabIndex_spec hindex
  exact absurd (hnone.symm.trans htab) (by simp)

end Parts

theorem createTab_spec (h : w.Valid) {name : String} {directory : PathBuf} {paneId : TerminalPaneId}
    {tabId : TerminalTabId} (hp : paneId ∉ w.panes.keys) (ht : tabId ∉ w.tabs.map (·.id)) :
    Keeps (createTab name directory paneId tabId) w := by
  simp only [Keeps, createTab, wp_bind, wp_ofExcept, wp_insertPane, wp_modify, wp_pure]
  refine ⟨fun name _ => ⟨fun directory _ => ?_, fun _ _ => trivial⟩, fun _ _ => trivial⟩
  have hshown : shown (w.tabs ++ [⟨tabId, name, .pane paneId, paneId⟩]) = shown w.tabs ++ [paneId] := by
    simp [shown, LayoutNode.leaves]
  refine ⟨?_, ?_, fun p => ?_, fun t hm => ?_, by simp, by simp, fun t hm => ?_⟩
  · rw [List.map_append, List.nodup_append]
    refine ⟨h.tabIds, List.nodup_singleton _, fun a ha b hb => ?_⟩
    rintro rfl
    obtain rfl := List.mem_singleton.mp hb
    exact ht ha
  · rw [hshown, List.nodup_append]
    refine ⟨h.leaves, List.nodup_singleton _, fun a ha b hb => ?_⟩
    rintro rfl
    exact hp ((h.keys _).mpr (List.mem_singleton.mp hb ▸ ha))
  · rw [hshown, SortedMap.mem_keys_insert, h.keys]
    simp only [List.mem_append, List.mem_singleton]
    tauto
  · rcases List.mem_append.mp hm with hm | hm
    · exact h.focused t hm
    · rw [List.mem_singleton.mp hm]
      exact List.mem_singleton_self _
  · rcases List.mem_append.mp hm with hm | hm
    · exact h.ratios t hm
    · rw [List.mem_singleton.mp hm]
      trivial

theorem splitFocused_spec (h : w.Valid) {axis : SplitAxis} {newPane : TerminalPaneId}
    (hp : newPane ∉ w.panes.keys) : Keeps (splitFocused axis newPane) w := by
  simp only [Keeps, splitFocused, wp_bind, wp_get, wp_okOr, wp_orPanic, wp_setTab, wp_ensure,
    wp_insertPane, wp_pure]
  refine ⟨fun active _ => ⟨fun index hindex => ?_, fun _ => trivial⟩, fun _ => trivial⟩
  obtain ⟨tab, htab, -⟩ := tabIndex_spec hindex
  refine ⟨fun tab' htab' => ?_, fun hnone => absurd (hnone.symm.trans htab) (by simp)⟩
  obtain rfl := Option.some.inj (htab.symm.trans htab')
  refine ⟨fun focused _ => ?_, fun _ => trivial⟩
  rcases hs : tab.root.splitLeaf tab.focusedPane newPane axis with ⟨ok, root⟩
  obtain ⟨pre, post, ht, hset, -⟩ := split_at htab
  cases ok with
  | false =>
    obtain ⟨rfl, hmiss⟩ := LayoutNode.splitLeaf_false hs
    exact absurd (h.focused tab (ht ▸ by simp)) hmiss
  | true =>
    obtain ⟨hperm, hratios⟩ := LayoutNode.splitLeaf_true hs
    refine ⟨fun _ => ?_, fun hn => absurd rfl hn⟩
    have hall : (shown (pre ++ { tab with root := root, focusedPane := newPane } :: post)).Perm
        (newPane :: shown w.tabs) := by
      rw [ht, shown_split, shown_split]
      exact ((hperm.append_right _).append_left _).trans List.perm_middle
    have hnew : newPane ∉ shown w.tabs := fun hm => hp ((h.keys _).mpr hm)
    dsimp only
    rw [List.set_set, hset]
    refine h.edit ht { tab with root := root, focusedPane := newPane } rfl (hperm.mem_iff.mpr List.mem_cons_self)
      (hratios (h.ratios tab (ht ▸ by simp))) ?_ fun p => ?_
    · exact hall.nodup_iff.mpr (List.nodup_cons.mpr ⟨hnew, h.leaves⟩)
    · rw [hall.mem_iff, SortedMap.mem_keys_insert, h.keys, List.mem_cons]

theorem closePane_spec (h : w.Valid) (pane : TerminalPaneId) : Keeps (closePane pane) w := by
  simp only [Keeps, closePane, wp_bind, wp_get, wp_okOr, wp_orPanic]
  refine ⟨fun index hindex => ?_, fun _ => trivial⟩
  obtain ⟨hlt, hcontains, -⟩ := List.findIdx?_eq_some_iff_getElem.mp hindex
  have htab : w.tabs[index]? = some w.tabs[index] := List.getElem?_eq_getElem hlt
  refine ⟨fun tab htab' => ?_, fun hnone => absurd (hnone.symm.trans htab) (by simp)⟩
  obtain ⟨pre, post, ht, hset, herase⟩ := split_at htab'
  have hmem : pane ∈ tab.root.leaves := by
    obtain rfl := Option.some.inj (htab.symm.trans htab')
    exact LayoutNode.contains_iff.mp hcontains
  have hwithout := shown_without h ht hmem
  have hkeys : ∀ p, p ∈ (w.panes.remove pane).keys ↔ p ∈ (shown w.tabs).filter (· ≠ pane) := by
    intro p
    simp [SortedMap.keys_remove, h.keys]
  have hspec := LayoutNode.remove_spec pane tab.root
  cases hr : tab.root.remove pane with
  | some root =>
    rw [hr] at hspec
    obtain ⟨hleaves, hratios⟩ := hspec
    -- Whatever the focus, the tab is one that shows the panes left.
    have hkept : ∀ focused ∈ root.leaves, Valid { w with
        tabs := w.tabs.set index { tab with root := root, focusedPane := focused },
        panes := w.panes.remove pane } := by
      intro focused hf
      have hall : shown (pre ++ { tab with root := root, focusedPane := focused } :: post) =
          (shown w.tabs).filter (· ≠ pane) := by
        rw [shown_split, ← hwithout, ← hleaves]
      rw [hset]
      exact h.edit ht { tab with root := root, focusedPane := focused } rfl hf
        (hratios (h.ratios tab (ht ▸ by simp))) (hall ▸ h.leaves.filter _) (hall ▸ hkeys)
    simp only [wp_bind, wp_modify, wp_setTab, wp_ite, wp_orPanic, wp_pure]
    refine ⟨fun _ => ⟨fun first hfirst => ?_, fun hnone => ?_⟩, fun hne => ?_⟩
    · rw [List.set_set]
      refine hkept first ?_
      rw [LayoutNode.collectPanes_eq] at hfirst
      exact List.mem_of_getElem? hfirst
    · rw [LayoutNode.collectPanes_eq, List.nil_append, List.getElem?_eq_none_iff] at hnone
      exact absurd (List.length_eq_zero_iff.mp (Nat.le_zero.mp hnone)) root.leaves_ne_nil
    · refine hkept tab.focusedPane ?_
      rw [hleaves, List.mem_filter]
      exact ⟨h.focused tab (ht ▸ by simp), decide_eq_true hne⟩
  | none =>
    rw [hr] at hspec
    have hall : shown (pre ++ post) = (shown w.tabs).filter (· ≠ pane) := by
      rw [← hwithout, hspec]
      simp [shown]
    have hsub : (pre ++ post).Sublist w.tabs := by
      rw [ht]
      exact (List.sublist_cons_self _ _).append_left _
    have hrest : ∀ active : Option TerminalTabId, (active.isSome ↔ pre ++ post ≠ []) →
        (∀ id ∈ active, id ∈ (pre ++ post).map (·.id)) →
        Valid ⟨pre ++ post, w.panes.remove pane, active⟩ :=
      fun active hsome hin => ⟨h.tabIds.sublist (hsub.map _), hall ▸ h.leaves.filter _,
        hall ▸ hkeys, fun t hm => h.focused t (hsub.subset hm), hsome, hin,
        fun t hm => h.ratios t (hsub.subset hm)⟩
    simp only [wp_bind, wp_modify, herase]
    split
    · -- The active tab is closed: the next one, or else the last one, becomes active.
      refine hrest _ ?_ fun id hid => ?_
      · constructor
        · intro hsome hnil
          rw [hnil] at hsome
          cases hsome
        · intro hne
          rw [List.getLast?_eq_some_getLast hne]
          cases (pre ++ post)[index]? <;> rfl
      · obtain ⟨next, hnext, rfl⟩ := Option.map_eq_some_iff.mp hid
        refine List.mem_map_of_mem ?_
        rcases Option.or_eq_some_iff.mp hnext with hnext | ⟨-, hnext⟩
        exacts [List.mem_of_getElem? hnext, List.mem_of_getLast? hnext]
    · rename_i hother
      obtain ⟨active, hactive⟩ := Option.isSome_iff_exists.mp (h.active.mpr (by simp [ht]))
      have hin := h.existing active hactive
      rw [hactive, Option.some.injEq] at hother
      rw [ht, List.map_append, List.map_cons, List.mem_append, List.mem_cons] at hin
      have hin : active ∈ (pre ++ post).map (·.id) := by
        rw [List.map_append, List.mem_append]
        exact hin.imp_right fun hc => hc.resolve_left hother
      refine hrest _ ?_ fun id hid => ?_
      · refine iff_of_true (by rw [hactive]; rfl) fun hnil => ?_
        rw [hnil] at hin
        exact absurd hin List.not_mem_nil
      · rw [hactive] at hid
        cases hid
        exact hin

theorem activateTab_spec (h : w.Valid) (tab : TerminalTabId) : Keeps (activateTab tab) w := by
  simp only [Keeps, activateTab, wp_bind, wp_get, wp_ensure, wp_modify]
  refine ⟨fun hsome => ?_, fun _ => trivial⟩
  obtain ⟨index, hindex⟩ := Option.isSome_iff_exists.mp hsome
  obtain ⟨t, ht, rfl⟩ := tabIndex_spec hindex
  have hmem := List.mem_of_getElem? ht
  exact ⟨h.tabIds, h.leaves, h.keys, h.focused, iff_of_true rfl (List.ne_nil_of_mem hmem),
    fun id hid => by cases hid; exact List.mem_map_of_mem hmem, h.ratios⟩

theorem focusPane_spec (h : w.Valid) (pane : TerminalPaneId) : Keeps (focusPane pane) w := by
  simp only [Keeps, focusPane, wp_bind]
  refine wp_activeTabMut (fun index tab htab => ?_) fun _ => rfl
  simp only [wp_ensure, wp_setTab]
  exact ⟨fun hc => h.put htab rfl rfl (LayoutNode.contains_iff.mp hc)
    (h.ratios tab (List.mem_of_getElem? htab)), fun _ => trivial⟩

theorem renameTab_spec (h : w.Valid) (tab : TerminalTabId) (name : String) :
    Keeps (renameTab tab name) w := by
  simp only [Keeps, renameTab, wp_bind, wp_ofExcept, wp_get, wp_okOr, wp_orPanic, wp_setTab]
  refine ⟨fun name _ => ⟨fun index hindex => ⟨fun t ht => ?_, fun hnone => ?_⟩, fun _ => trivial⟩,
    fun _ _ => trivial⟩
  · have hmem := List.mem_of_getElem? ht
    exact h.put ht rfl rfl (h.focused t hmem) (h.ratios t hmem)
  · obtain ⟨t, ht, -⟩ := tabIndex_spec hindex
    exact absurd (hnone.symm.trans ht) (by simp)

theorem renameActiveTab_spec (h : w.Valid) (name : String) : Keeps (renameActiveTab name) w := by
  simp only [Keeps, renameActiveTab, wp_bind, wp_get, wp_okOr]
  exact ⟨fun active _ => renameTab_spec h active name, fun _ => trivial⟩

theorem setFocusedSplitRatio_spec (h : w.Valid) (ratio : UInt16) :
    Keeps (setFocusedSplitRatio ratio) w := by
  simp only [Keeps, setFocusedSplitRatio, wp_bind, wp_ensure]
  refine ⟨fun hratio => wp_activeTabMut (fun index tab htab => ?_) fun _ => rfl, fun _ => trivial⟩
  have hmem := List.mem_of_getElem? htab
  rcases hs : tab.root.setParentRatio tab.focusedPane ratio with ⟨ok, root⟩
  obtain ⟨hleaves, hratios, hsame⟩ := LayoutNode.setParentRatio_spec hratio hs
  simp only [wp_setTab]
  refine ⟨fun _ => h.put htab rfl hleaves (h.focused tab hmem) (hratios (h.ratios tab hmem)),
    fun hf => ?_⟩
  -- Without a parent split, the tab that is written back is the one that was read.
  obtain rfl := hsame (Bool.eq_false_iff.mpr hf)
  obtain ⟨pre, post, ht, hset, -⟩ := split_at htab
  rw [hset, ← ht]

theorem setPaneState_spec (h : w.Valid) (pane : TerminalPaneId) (state : PaneState) :
    Keeps (setPaneState pane state) w := by
  simp only [Keeps, setPaneState, wp_bind, wp_get, wp_okOr, wp_modify]
  exact ⟨fun p hp => h.putPane hp, fun _ => trivial⟩

theorem restartPane_spec (h : w.Valid) (pane : TerminalPaneId) : Keeps (restartPane pane) w := by
  simp only [Keeps, restartPane, wp_bind, wp_get, wp_okOr]
  refine ⟨fun p hp => ?_, fun _ => trivial⟩
  split
  all_goals first | exact h.putPane hp | exact rfl

/-! ## Restored workspaces -/

/-- A tab whose panes are the leaves of its layout. -/
structure Whole (tab : TerminalTabSnapshot) : Prop where
  ratios : tab.root.RatiosValid
  focused : tab.focusedPane ∈ tab.root.leaves
  panes : ∀ p, p ∈ tab.panes.map (·.id) ↔ p ∈ tab.root.leaves

theorem validatePanes_ok {l : List TerminalPaneSnapshot} {ids ids' : Finset TerminalPaneId}
    (h : validatePanes l ids = .ok ids') :
    (∀ p ∈ l.map (·.id), p ∉ ids) ∧ ∀ p, p ∈ ids' ↔ p ∈ ids ∨ p ∈ l.map (·.id) := by
  induction l generalizing ids with
  | nil =>
    cases h
    simp
  | cons pane rest ih =>
    rw [validatePanes] at h
    obtain ⟨_, -, h⟩ := bind_eq_ok.mp h
    split at h
    · cases h
    rename_i hnew
    obtain ⟨hout, hin⟩ := ih h
    simp only [List.map_cons, List.mem_cons, Finset.mem_insert] at hout hin ⊢
    refine ⟨fun p hp => ?_, fun p => ?_⟩
    · rcases hp with rfl | hp
      exacts [hnew, fun hc => hout p hp (.inr hc)]
    · rw [hin]
      tauto

theorem validateTabs_ok {tabs : List TerminalTabSnapshot} {tabIds : Finset TerminalTabId}
    {paneIds : Finset TerminalPaneId} (h : validateTabs tabs tabIds paneIds = .ok ()) :
    (tabs.map (·.id)).Nodup ∧ (∀ id ∈ tabs.map (·.id), id ∉ tabIds) ∧
      (tabs.flatMap (·.root.leaves)).Nodup ∧ (∀ p ∈ tabs.flatMap (·.root.leaves), p ∉ paneIds) ∧
      ∀ tab ∈ tabs, Whole tab := by
  induction tabs generalizing tabIds paneIds with
  | nil => simp
  | cons tab rest ih =>
    rw [validateTabs] at h
    obtain ⟨_, -, h⟩ := bind_eq_ok.mp h
    split_ifs at h with hid hratios
    dsimp only at h
    split_ifs at h with hleaves hfocused hdeclared
    obtain ⟨ids, hpanes, h⟩ := bind_eq_ok.mp h
    obtain ⟨hout, hin⟩ := validatePanes_ok hpanes
    obtain ⟨hn, hnew, hl, hlnew, hwhole⟩ := ih h
    simp only [LayoutNode.collectPanes_eq, List.nil_append, ne_eq, not_not, not_or,
      List.mem_toFinset] at hleaves hfocused hdeclared
    have hmem : ∀ p, p ∈ tab.panes.map (·.id) ↔ p ∈ tab.root.leaves := by
      intro p
      rw [← List.mem_toFinset, hdeclared.2, List.mem_toFinset]
    have hnodup : tab.root.leaves.Nodup :=
      Multiset.coe_nodup.mp (Multiset.toFinset_card_eq_card_iff_nodup.mp hleaves)
    simp only [Finset.mem_insert] at hnew
    refine ⟨?_, ?_, ?_, ?_, ?_⟩
    · rw [List.map_cons, List.nodup_cons]
      exact ⟨fun hc => hnew _ hc (.inl rfl), hn⟩
    · rw [List.map_cons, List.forall_mem_cons]
      exact ⟨hid, fun id hm hc => hnew id hm (.inr hc)⟩
    · rw [List.flatMap_cons, List.nodup_append]
      refine ⟨hnodup, hl, fun p hp q hq => ?_⟩
      rintro rfl
      exact hlnew p hq ((hin p).mpr (.inr ((hmem p).mpr hp)))
    · rw [List.flatMap_cons]
      intro p hp
      rcases List.mem_append.mp hp with hp | hp
      · exact hout p ((hmem p).mpr hp)
      · exact fun hc => hlnew p hp ((hin p).mpr (.inl hc))
    · rw [List.forall_mem_cons]
      exact ⟨⟨LayoutNode.validate_iff.mp (by simpa using hratios), hfocused, hmem⟩,
        hwhole⟩

theorem mem_keys_restorePanes {l : List TerminalPaneSnapshot}
    {panes : SortedMap TerminalPaneId TerminalPane} {p : TerminalPaneId} :
    p ∈ (l.foldl (fun panes pane => panes.insert pane.id ⟨pane.id, pane.workingDirectory, .stopped⟩)
      panes).keys ↔ p ∈ panes.keys ∨ p ∈ l.map (·.id) := by
  induction l generalizing panes with
  | nil => simp
  | cons pane rest ih =>
    rw [List.foldl_cons, ih, SortedMap.mem_keys_insert, List.map_cons, List.mem_cons]
    tauto

theorem foldl_restoreTab (tabs : List TerminalTabSnapshot) (w : TerminalWorkspace) :
    (tabs.foldl restoreTab w).tabs =
        w.tabs ++ tabs.map (fun tab => ⟨tab.id, tab.name, tab.root, tab.focusedPane⟩) ∧
      (tabs.foldl restoreTab w).activeTab = w.activeTab ∧
      ∀ p, p ∈ (tabs.foldl restoreTab w).panes.keys ↔
        p ∈ w.panes.keys ∨ p ∈ tabs.flatMap (·.panes.map (·.id)) := by
  induction tabs generalizing w with
  | nil => simp
  | cons tab rest ih =>
    obtain ⟨htabs, hactive, hkeys⟩ := ih (w.restoreTab tab)
    rw [List.foldl_cons]
    refine ⟨?_, hactive, fun p => ?_⟩
    · rw [htabs]
      simp [restoreTab]
    · rw [hkeys, restoreTab, mem_keys_restorePanes, List.flatMap_cons, List.mem_append, or_assoc]

theorem valid_restore {snapshot : TerminalWorkspaceSnapshot} (h : restore snapshot = .ok w) :
    w.Valid := by
  obtain ⟨_, hval, h⟩ := bind_eq_ok.mp h
  cases h
  unfold validateSnapshot at hval
  split at hval
  · rename_i hnil
    split at hval
    · rename_i hnone
      rw [List.isEmpty_iff.mp hnil, Option.isNone_iff_eq_none.mp hnone]
      exact valid_new
    · cases hval
  rename_i hne
  split at hval
  swap
  · cases hval
  rename_i hactive
  obtain ⟨active, ha, hany⟩ := (Option.any_eq_true _ _).mp hactive
  obtain ⟨hn, -, hl, -, hwhole⟩ := validateTabs_ok hval
  obtain ⟨htabs, hact, hkeys⟩ := foldl_restoreTab snapshot.tabs ⟨[], .empty, snapshot.activeTab⟩
  rw [List.nil_append] at htabs
  have hids : (snapshot.tabs.map fun tab => (⟨tab.id, tab.name, tab.root, tab.focusedPane⟩ :
      TerminalTab)).map (·.id) = snapshot.tabs.map (·.id) := by
    rw [List.map_map]
    rfl
  have hshown : shown (snapshot.tabs.map fun tab =>
      ⟨tab.id, tab.name, tab.root, tab.focusedPane⟩) = snapshot.tabs.flatMap (·.root.leaves) := by
    rw [shown, List.flatMap_map]
  refine ⟨?_, ?_, fun p => ?_, fun t ht => ?_, ?_, fun id hid => ?_, fun t ht => ?_⟩
  · rw [htabs, hids]
    exact hn
  · rw [htabs, hshown]
    exact hl
  · rw [hkeys, htabs, hshown]
    simp only [SortedMap.keys_empty, List.not_mem_nil, false_or, List.mem_flatMap]
    exact exists_congr fun t => and_congr_right fun ht => (hwhole t ht).panes p
  · rw [htabs] at ht
    obtain ⟨tab, htab, rfl⟩ := List.mem_map.mp ht
    exact (hwhole tab htab).focused
  · rw [hact, htabs, ha]
    exact iff_of_true rfl fun hnil => hne (List.isEmpty_iff.mpr (List.map_eq_nil_iff.mp hnil))
  · rw [hact, ha] at hid
    cases hid
    rw [htabs, hids]
    obtain ⟨tab, htab, hid⟩ := List.any_eq_true.mp hany
    exact List.mem_map.mpr ⟨tab, htab, of_decide_eq_true hid⟩
  · rw [htabs] at ht
    obtain ⟨tab, htab, rfl⟩ := List.mem_map.mp ht
    exact (hwhole tab htab).ratios

end TerminalWorkspace

/-! ## Runs -/

/-- An operation, with the identifiers that it issues. -/
inductive WorkspaceOp where
  | createTab (name : String) (workingDirectory : PathBuf) (paneId : TerminalPaneId)
      (tabId : TerminalTabId)
  | splitFocused (axis : SplitAxis) (newPane : TerminalPaneId)
  | closePane (pane : TerminalPaneId)
  | activateTab (tab : TerminalTabId)
  | focusPane (pane : TerminalPaneId)
  | renameTab (tab : TerminalTabId) (name : String)
  | renameActiveTab (name : String)
  | setFocusedSplitRatio (ratioBasisPoints : UInt16)
  | setPaneState (pane : TerminalPaneId) (state : PaneState)
  | restartPane (pane : TerminalPaneId)

namespace WorkspaceOp

open TerminalWorkspace

/-- The operation, its result dropped. -/
def run : WorkspaceOp → WorkspaceM Unit
  | createTab name directory pane tab =>
    discard (TerminalWorkspace.createTab name directory pane tab)
  | splitFocused axis pane => discard (TerminalWorkspace.splitFocused axis pane)
  | closePane pane => TerminalWorkspace.closePane pane
  | activateTab tab => TerminalWorkspace.activateTab tab
  | focusPane pane => TerminalWorkspace.focusPane pane
  | renameTab tab name => TerminalWorkspace.renameTab tab name
  | renameActiveTab name => TerminalWorkspace.renameActiveTab name
  | setFocusedSplitRatio ratio => TerminalWorkspace.setFocusedSplitRatio ratio
  | setPaneState pane state => TerminalWorkspace.setPaneState pane state
  | restartPane pane => TerminalWorkspace.restartPane pane

/-- The workspace after the operation, also where it fails. -/
def step (w : TerminalWorkspace) (op : WorkspaceOp) : Option TerminalWorkspace :=
  (op.run.exec w).map (·.2)

/-- The identifiers that the operation issues are not in use. -/
def Fresh (w : TerminalWorkspace) : WorkspaceOp → Prop
  | createTab _ _ pane tab => pane ∉ w.panes.keys ∧ tab ∉ w.tabs.map (·.id)
  | splitFocused _ pane => pane ∉ w.panes.keys
  | _ => True

instance (w : TerminalWorkspace) (op : WorkspaceOp) : Decidable (Fresh w op) := by
  cases op <;> dsimp only [Fresh] <;> infer_instance

variable {w w' : TerminalWorkspace} {op : WorkspaceOp}

theorem run_spec (h : w.Valid) (hf : Fresh w op) : Keeps op.run w := by
  cases op with
  | createTab name directory pane tab =>
    simpa only [Keeps, run, wp_discard] using createTab_spec h hf.1 hf.2
  | splitFocused axis pane => simpa only [Keeps, run, wp_discard] using splitFocused_spec h hf
  | closePane pane => exact closePane_spec h pane
  | activateTab tab => exact activateTab_spec h tab
  | focusPane pane => exact focusPane_spec h pane
  | renameTab tab name => exact renameTab_spec h tab name
  | renameActiveTab name => exact renameActiveTab_spec h name
  | setFocusedSplitRatio ratio => exact setFocusedSplitRatio_spec h ratio
  | setPaneState pane state => exact setPaneState_spec h pane state
  | restartPane pane => exact restartPane_spec h pane

theorem step_valid (h : w.Valid) (hf : Fresh w op) (hs : step w op = some w') : w'.Valid := by
  obtain ⟨⟨r, s⟩, hx, rfl⟩ := Option.map_eq_some_iff.mp hs
  exact wp.state (wp_mono (run_spec h hf) (fun _ _ => id) (fun _ _ he => he ▸ h) id) hx

/-- What starts a workspace: nothing, or an accepted snapshot. -/
def Starts (w : TerminalWorkspace) : Prop :=
  w = .new ∨ ∃ snapshot, restore snapshot = .ok w

theorem Starts.valid (h : Starts w) : w.Valid := by
  rcases h with rfl | ⟨snapshot, h⟩
  exacts [valid_new, valid_restore h]

/-- The invariant holds along every run, whose operations do not panic and, where they fail, leave
the workspace as it was. -/
theorem workspace_runs {w₀ : TerminalWorkspace} (h₀ : Starts w₀) (h : Runs step Fresh w₀ w) :
    w.Valid ∧ ∀ op, Fresh w op → ∃ r w', op.run.exec w = some (r, w') ∧ w'.Valid ∧
      ∀ e, r = .error e → w' = w := by
  have hv : w.Valid := h.invariant h₀.valid fun _ _ _ h hf hs => step_valid h hf hs
  refine ⟨hv, fun op hf => ?_⟩
  have hspec := run_spec hv hf
  obtain ⟨r, w', hx⟩ := hspec.ends
  refine ⟨r, w', hx, step_valid hv hf (by rw [step, hx]; rfl), ?_⟩
  rintro e rfl
  exact hspec.of_error hx

/-- Two panes side by side in one tab, and the first of them closed. -/
theorem workspace_runs_closePane :
    ∃ w w' : TerminalWorkspace,
      [createTab "shell" ⟨[47]⟩ ⟨1⟩ ⟨1⟩, splitFocused .vertical ⟨2⟩].foldlM step .new = some w ∧
        (closePane ⟨1⟩).run.exec w = some (.ok (), w') ∧ w.panes.keys = [⟨1⟩, ⟨2⟩] ∧
        w'.panes.keys = [⟨2⟩] ∧ w'.Valid := by
  have hruns : ([createTab "shell" ⟨[47]⟩ ⟨1⟩ ⟨1⟩, splitFocused .vertical ⟨2⟩].foldlM step .new).any
      fun w => w.panes.keys = [⟨1⟩, ⟨2⟩] ∧
        ((closePane ⟨1⟩).run.exec w).any fun r => r.1.toBool ∧ r.2.panes.keys = [⟨2⟩] := by
    decide
  obtain ⟨w, h, hnext⟩ := (Option.any_eq_true _ _).mp hruns
  obtain ⟨hkeys, hany⟩ := of_decide_eq_true hnext
  obtain ⟨⟨r, w'⟩, hx, hend⟩ := (Option.any_eq_true _ _).mp hany
  obtain ⟨hok, hkeys'⟩ := of_decide_eq_true hend
  have hto : Runs step Fresh .new w := Along.runs (by decide) h
  obtain ⟨-, hops⟩ := workspace_runs (.inl rfl) hto
  obtain ⟨r₁, w₁, hx₁, hvalid, -⟩ := hops (closePane ⟨1⟩) trivial
  cases hx.symm.trans hx₁
  cases r with
  | error e => cases hok
  | ok u => exact ⟨w, w', h, hx, hkeys, hkeys', hvalid⟩

end WorkspaceOp
end Strukt
