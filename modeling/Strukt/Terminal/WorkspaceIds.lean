import Strukt.Terminal.WorkspaceRuns

/-!
# The identifiers that a process issues

A process counts the identifiers of panes and tabs up, each kind with a counter of its own. A draw
wraps around behind the last number (`newPaneId`, `newTabId`). `restore` moves the counters past the
identifiers of the snapshot (`reserveAfter`), and stops at the last number, so that it does not
move past that one.

* **Draws** (`drawn`): the numbers that a counter gives next. While the workspace is valid, the
  operations say how many each of them takes (`paneDraws`, `tabDraws`).
* **Fresh** (`Fresh`): no number is issued twice, nor one that is known.
* **The law** (`freshness_law`): after a restore the numbers are fresh exactly while the counters
  have room before they come back to a known one.
-/

namespace Strukt

open Method

/-! ## Counters -/

/-- The loop of `reserve_after`: the counter is moved past the identifier. -/
def reserveAfter (next : UInt64) (id : Nat) : UInt64 :=
  if next.toNat < min (id + 1) u64Max then .ofNat (min (id + 1) u64Max) else next

/-- What the counter gives in its next `k` draws. -/
def drawn (next : UInt64) (k : Nat) : List Nat := (List.range k).map fun i => (next + .ofNat i).toNat

/-- What is issued is issued once, and not known. -/
def FreshFor (known issued : List Nat) : Prop := issued.Nodup ∧ ∀ id ∈ issued, id ∉ known

instance (known issued : List Nat) : Decidable (FreshFor known issued) :=
  inferInstanceAs (Decidable (_ ∧ _))

/-- In `k` draws from `c` on the counter does not come to the identifier. -/
def Misses (c : UInt64) (k id : Nat) : Prop :=
  (id < c.toNat → c.toNat + k ≤ 2 ^ 64 + id) ∧ (c.toNat ≤ id → c.toNat + k ≤ id)

instance (c : UInt64) (k id : Nat) : Decidable (Misses c k id) :=
  inferInstanceAs (Decidable (_ ∧ _))

/-- A counter at `next` has `k` draws left after it has been moved past the identifiers `present`:
the last number is none of them, and it does not wrap around to one, nor to an earlier one. -/
structure Room (next : UInt64) (present earlier : List Nat) (k : Nat) : Prop where
  last : u64Max ∉ present
  around : ∀ r ∈ present, next.toNat + k ≤ 2 ^ 64 + r ∧ ∀ s ∈ present, s + 1 + k ≤ 2 ^ 64 + r
  earlier : ∀ r ∈ earlier, Misses (present.foldl reserveAfter next) k r

section Counters

variable {next c : UInt64} {present earlier known issued : List Nat} {i j k id : Nat}

theorem toNat_reserveAfter :
    (reserveAfter next id).toNat = max next.toNat (min (id + 1) u64Max) := by
  unfold reserveAfter
  have hlt : min (id + 1) u64Max < UInt64.size := by
    unfold u64Max UInt64.size
    omega
  split
  · rw [UInt64.toNat_ofNat_of_lt' hlt]
    omega
  · omega

theorem le_reserved (next : UInt64) (n : Nat) : (present.foldl reserveAfter next).toNat ≤ n ↔
    next.toNat ≤ n ∧ ∀ s ∈ present, min (s + 1) u64Max ≤ n := by
  induction present generalizing next with
  | nil => simp
  | cons s present ih =>
    rw [List.foldl_cons, ih, toNat_reserveAfter, List.forall_mem_cons, ← and_assoc]
    refine and_congr ?_ Iff.rfl
    omega

theorem reserved_gt (next : UInt64) {s : Nat} (hs : s ∈ present) (hlt : s < u64Max) :
    s < (present.foldl reserveAfter next).toNat := by
  have h := ((le_reserved next _).mp le_rfl).2 s hs
  omega

@[simp] theorem drawn_zero : drawn c 0 = [] := rfl

theorem drawn_one : drawn c 1 = [c.toNat] := by
  simp only [drawn, List.range_one, List.map_singleton]
  exact congrArg (fun n : UInt64 => [n.toNat]) (UInt64.add_zero c)

theorem drawn_add : drawn c (i + j) = drawn c i ++ drawn (c + .ofNat i) j := by
  simp only [drawn, List.range_add, List.map_append, List.map_map, List.append_cancel_left_eq]
  refine List.map_congr_left fun n _ => ?_
  rw [Function.comp_apply, UInt64.ofNat_add, UInt64.add_assoc]

theorem toNat_add_ofNat (h : i < 2 ^ 64) :
    (c + .ofNat i).toNat = (c.toNat + i) % 2 ^ 64 := by
  rw [UInt64.toNat_add, UInt64.toNat_ofNat', Nat.mod_eq_of_lt h]

/-- Fewer draws than there are numbers give different ones. -/
theorem nodup_drawn (hk : k < 2 ^ 63) : (drawn c k).Nodup := by
  refine List.Nodup.map_on (fun i hi j hj heq => ?_) List.nodup_range
  rw [List.mem_range] at hi hj
  rw [toNat_add_ofNat (by omega), toNat_add_ofNat (by omega)] at heq
  have := c.toNat_lt
  omega

theorem mem_drawn (hk : k < 2 ^ 63) (hid : id < 2 ^ 64) : id ∉ drawn c k ↔ Misses c k id := by
  have hc := c.toNat_lt
  simp only [drawn, List.mem_map, List.mem_range, not_exists, not_and]
  constructor
  · intro h
    constructor
    · intro hlt
      by_contra hcon
      refine h (2 ^ 64 + id - c.toNat) (by omega) ?_
      rw [toNat_add_ofNat (by omega)]
      omega
    · intro hle
      by_contra hcon
      refine h (id - c.toNat) (by omega) ?_
      rw [toNat_add_ofNat (by omega)]
      omega
  · rintro ⟨hlt, hle⟩ i hi heq
    rw [toNat_add_ofNat (by omega)] at heq
    by_cases hcid : id < c.toNat
    · have := hlt hcid
      omega
    · have := hle (by omega)
      omega

theorem FreshFor.of_append {rest : List Nat} (h : FreshFor known (issued ++ rest)) :
    FreshFor known issued :=
  ⟨(List.nodup_append.mp h.1).1, fun id hid => h.2 id (List.mem_append_left _ hid)⟩

/-- Fresh draws are those that the counter has room for. -/
theorem freshFor_drawn (next : UInt64) (hk : k < 2 ^ 63) (hpresent : ∀ s ∈ present, s < 2 ^ 64)
    (hearlier : ∀ s ∈ earlier, s < 2 ^ 64) :
    FreshFor (present ++ earlier) (drawn (present.foldl reserveAfter next) k) ↔
      k = 0 ∨ Room next present earlier k := by
  have hfresh : FreshFor (present ++ earlier) (drawn (present.foldl reserveAfter next) k) ↔
      (∀ s ∈ present, Misses (present.foldl reserveAfter next) k s) ∧
        ∀ s ∈ earlier, Misses (present.foldl reserveAfter next) k s := by
    rw [FreshFor, and_iff_right (nodup_drawn hk), ← List.forall_mem_append]
    constructor
    · intro h s hs
      have hlt : s < 2 ^ 64 := (List.mem_append.mp hs).elim (hpresent s) (hearlier s)
      exact (mem_drawn hk hlt).mp fun hmem => h s hmem hs
    · intro h id hid hmem
      have hlt : id < 2 ^ 64 := (List.mem_append.mp hmem).elim (hpresent id) (hearlier id)
      exact (mem_drawn hk hlt).mpr (h id hmem) hid
  rw [hfresh]
  have hbound := @le_reserved present next
  constructor
  · rintro ⟨hp, he⟩
    by_cases hzero : k = 0
    · exact .inl hzero
    have hlast : u64Max ∉ present := fun hmem => by
      -- The counter stops at the last number, and gives it again.
      have hle := toNat_le_u64Max (present.foldl reserveAfter next)
      have hge := ((hbound _).mp le_rfl).2 u64Max hmem
      have hmiss := (hp u64Max hmem).2 hle
      unfold u64Max at hge hmiss
      omega
    refine .inr ⟨hlast, fun r hr => ?_, he⟩
    have hr' := hpresent r hr
    have hlt : r < u64Max := by
      have hne : r ≠ u64Max := fun heq => hlast (heq ▸ hr)
      unfold u64Max at hne ⊢
      omega
    have hmiss := (hp r hr).1 (reserved_gt next hr hlt)
    have hall := (hbound (2 ^ 64 + r - k)).mp (by omega)
    refine ⟨by omega, fun s hs => ?_⟩
    have hs' := hall.2 s hs
    have hne : s ≠ u64Max := fun heq => hlast (heq ▸ hs)
    have hlt' := hpresent s hs
    unfold u64Max at hs' hne
    omega
  · rintro (rfl | ⟨hlast, haround, he⟩)
    · refine ⟨fun s hs => ⟨fun _ => ?_, fun _ => by omega⟩,
        fun s hs => ⟨fun _ => ?_, fun _ => by omega⟩⟩
      · have := (present.foldl reserveAfter next).toNat_lt
        omega
      · have := (present.foldl reserveAfter next).toNat_lt
        omega
    · refine ⟨fun r hr => ?_, he⟩
      have hr' := hpresent r hr
      have hlt : r < u64Max := by
        have hne : r ≠ u64Max := fun heq => hlast (heq ▸ hr)
        unfold u64Max at hne ⊢
        omega
      have hgt := reserved_gt next hr hlt
      obtain ⟨hnext, hs⟩ := haround r hr
      refine ⟨fun _ => ?_, fun hle => by omega⟩
      have hle := (hbound (2 ^ 64 + r - k)).mpr ⟨by omega, fun s hmem => by
        have := hs s hmem
        omega⟩
      omega

end Counters

/-! ## The process -/

/-- A workspace with the counters of its process, and what they have issued for it. -/
structure CountedWorkspace where
  workspace : TerminalWorkspace
  nextPaneId : UInt64
  nextTabId : UInt64
  issuedPanes : List Nat
  issuedTabs : List Nat

abbrev ProcessM (α : Type) := Method CountedWorkspace TerminalWorkspaceError α

namespace CountedWorkspace

/-- `TerminalPaneId::new`. -/
def newPaneId : ProcessM TerminalPaneId := do
  let p ← get
  set { p with
    nextPaneId := p.nextPaneId + 1
    issuedPanes := p.issuedPanes ++ [p.nextPaneId.toNat] }
  return ⟨p.nextPaneId.toNat⟩

/-- `TerminalTabId::new`. -/
def newTabId : ProcessM TerminalTabId := do
  let p ← get
  set { p with
    nextTabId := p.nextTabId + 1
    issuedTabs := p.issuedTabs ++ [p.nextTabId.toNat] }
  return ⟨p.nextTabId.toNat⟩

def onWorkspace {α : Type} (x : WorkspaceM α) : ProcessM α :=
  focus workspace (fun p w => { p with workspace := w }) id x

/-- `create_tab`: a name or a directory that is refused takes no identifiers. -/
def createTab (name : String) (workingDirectory : PathBuf) : ProcessM TerminalPaneId := do
  discard (ofExcept (TerminalWorkspace.validatedName name))
  discard (ofExcept (TerminalWorkspace.validatedDirectory workingDirectory))
  let paneId ← newPaneId
  let tabId ← newTabId
  onWorkspace (TerminalWorkspace.createTab name workingDirectory paneId tabId)

/-- `split_focused`: the identifier is taken once the focused pane is found. -/
def splitFocused (axis : SplitAxis) : ProcessM TerminalPaneId := do
  let w := (← get).workspace
  let active ← okOr .noActiveTab w.activeTab
  let index ← okOr .tabNotFound (w.tabIndex active)
  let tab ← orPanic w.tabs[index]?
  discard (okOr .paneNotFound (w.panes.get? tab.focusedPane))
  let newPane ← newPaneId
  onWorkspace (TerminalWorkspace.splitFocused axis newPane)

end CountedWorkspace

def TerminalWorkspaceSnapshot.paneIds (s : TerminalWorkspaceSnapshot) : List Nat :=
  s.tabs.flatMap fun tab => tab.panes.map (·.id.value)

def TerminalWorkspaceSnapshot.tabIds (s : TerminalWorkspaceSnapshot) : List Nat :=
  s.tabs.map (·.id.value)

namespace CountedWorkspace

/-- A workspace restored where the process has counted so far. -/
def restore (nextPaneId nextTabId : UInt64) (snapshot : TerminalWorkspaceSnapshot) :
    Except TerminalWorkspaceError CountedWorkspace := do
  let w ← TerminalWorkspace.restore snapshot
  return {
    workspace := w
    nextPaneId := snapshot.paneIds.foldl reserveAfter nextPaneId
    nextTabId := snapshot.tabIds.foldl reserveAfter nextTabId
    issuedPanes := []
    issuedTabs := [] }

end CountedWorkspace

/-- The operations that issue identifiers. -/
inductive IssuingOp where
  | createTab (name : String) (workingDirectory : PathBuf)
  | splitFocused (axis : SplitAxis)
  deriving DecidableEq

namespace IssuingOp

def run : IssuingOp → ProcessM Unit
  | .createTab name workingDirectory => discard (CountedWorkspace.createTab name workingDirectory)
  | .splitFocused axis => discard (CountedWorkspace.splitFocused axis)

/-- The process after the operation, also where it fails. -/
def step (p : CountedWorkspace) (op : IssuingOp) : Option CountedWorkspace :=
  (op.run.exec p).map (·.2)

/-- The operation creates a tab. -/
def opens : IssuingOp → Bool
  | .createTab name workingDirectory =>
    (TerminalWorkspace.validatedName name).toBool &&
      (TerminalWorkspace.validatedDirectory workingDirectory).toBool
  | .splitFocused _ => false

/-- How many pane identifiers the operation takes, where a tab is active or not. -/
def panes (active : Bool) : IssuingOp → Nat
  | .createTab name workingDirectory => (opens (.createTab name workingDirectory)).toNat
  | .splitFocused _ => active.toNat

/-- How many pane identifiers the operations take. -/
def paneDraws : Bool → List IssuingOp → Nat
  | _, [] => 0
  | active, op :: ops => op.panes active + paneDraws (active || op.opens) ops

/-- How many tab identifiers the operations take. -/
def tabDraws (ops : List IssuingOp) : Nat := (ops.map fun op => op.opens.toNat).sum

open TerminalWorkspace

variable {p p' : CountedWorkspace} {w w' : TerminalWorkspace} {op : IssuingOp}

/-! ## What an operation takes -/

/-- The process has taken `j` pane identifiers and `k` tab identifiers. -/
structure Takes (p : CountedWorkspace) (j k : Nat) (p' : CountedWorkspace) : Prop where
  panes : p'.issuedPanes = p.issuedPanes ++ drawn p.nextPaneId j
  nextPane : p'.nextPaneId = p.nextPaneId + .ofNat j
  tabs : p'.issuedTabs = p.issuedTabs ++ drawn p.nextTabId k
  nextTab : p'.nextTabId = p.nextTabId + .ofNat k

theorem Takes.refl (p : CountedWorkspace) : Takes p 0 0 p :=
  ⟨by simp, by simp, by simp, by simp⟩

theorem Takes.trans {i j k l : Nat} {p'' : CountedWorkspace} (h : Takes p i j p')
    (h' : Takes p' k l p'') : Takes p (i + k) (j + l) p'' where
  panes := by rw [h'.panes, h.panes, h.nextPane, drawn_add, List.append_assoc]
  nextPane := by rw [h'.nextPane, h.nextPane, UInt64.ofNat_add, UInt64.add_assoc]
  tabs := by rw [h'.tabs, h.tabs, h.nextTab, drawn_add, List.append_assoc]
  nextTab := by rw [h'.nextTab, h.nextTab, UInt64.ofNat_add, UInt64.add_assoc]

/-- What is in the workspace is known, or was issued for it. -/
structure Within (knownPanes knownTabs : List Nat) (p : CountedWorkspace) : Prop where
  panes : ∀ id ∈ p.workspace.panes.keys, id.value ∈ knownPanes ∨ id.value ∈ p.issuedPanes
  tabs : ∀ tab ∈ p.workspace.tabs, tab.id.value ∈ knownTabs ∨ tab.id.value ∈ p.issuedTabs

/-- The workspace's own part of an operation that takes the pane `pane` and the tabs `tabs`. -/
structure Grows (w : TerminalWorkspace) (pane : TerminalPaneId) (tabs : List TerminalTabId)
    (w' : TerminalWorkspace) : Prop where
  keys : ∀ id ∈ w'.panes.keys, id = pane ∨ id ∈ w.panes.keys
  ids : w'.tabs.map (·.id) = w.tabs.map (·.id) ++ tabs
  active : w'.activeTab.isSome
  valid : w.Valid → pane ∉ w.panes.keys → (∀ tab ∈ tabs, tab ∉ w.tabs.map (·.id)) → w'.Valid

theorem createTab_grows {name : String} {directory : PathBuf} {pane : TerminalPaneId}
    {tab : TerminalTabId} (hn : (TerminalWorkspace.validatedName name).toBool)
    (hd : (TerminalWorkspace.validatedDirectory directory).toBool) :
    wp (TerminalWorkspace.createTab name directory pane tab) (fun _ => Grows w pane [tab])
      (fun _ _ => False) False w := by
  have hparts : wp (TerminalWorkspace.createTab name directory pane tab)
      (fun _ w' => (∀ id ∈ w'.panes.keys, id = pane ∨ id ∈ w.panes.keys) ∧
        w'.tabs.map (·.id) = w.tabs.map (·.id) ++ [tab] ∧ w'.activeTab.isSome)
      (fun _ _ => False) False w := by
    simp only [TerminalWorkspace.createTab, wp_bind, wp_ofExcept, wp_insertPane, wp_modify,
      wp_pure]
    refine ⟨fun n _ => ⟨fun d _ => ⟨fun id hid => ?_, ?_, rfl⟩, fun e he => ?_⟩, fun e he => ?_⟩
    · exact SortedMap.mem_keys_insert.mp hid
    · rw [List.map_append]
      rfl
    · rw [he] at hd
      cases hd
    · rw [he] at hn
      cases hn
  refine wp_mono (wp_and hparts (wp_self _ w)) ?_ (fun _ _ h => h.1) fun h => h.1
  rintro r w' ⟨⟨hkeys, hids, hactive⟩, hx⟩
  refine ⟨hkeys, hids, hactive, fun hv hpane htab => ?_⟩
  exact (createTab_spec hv hpane (htab tab List.mem_cons_self)).of_ok hx

theorem splitFocused_ends {axis : SplitAxis} {pane : TerminalPaneId} :
    wp (TerminalWorkspace.splitFocused axis pane) (fun _ _ => True) (fun _ _ => True) False w := by
  simp only [TerminalWorkspace.splitFocused, wp_bind, wp_get, wp_okOr, wp_orPanic, wp_setTab,
    wp_ensure, wp_insertPane, wp_pure]
  refine ⟨fun active _ => ⟨fun index hindex => ⟨fun _ _ => ⟨fun _ _ => ?_, fun _ => trivial⟩,
    fun hnone => ?_⟩, fun _ => trivial⟩, fun _ => trivial⟩
  · exact ⟨fun _ => trivial, fun _ => trivial⟩
  · obtain ⟨tab, htab, -⟩ := tabIndex_spec hindex
    exact absurd (hnone.symm.trans htab) (by simp)

theorem splitFocused_grows (hv : w.Valid) (hactive : w.activeTab.isSome) {axis : SplitAxis}
    {pane : TerminalPaneId} :
    wp (TerminalWorkspace.splitFocused axis pane) (fun _ => Grows w pane []) (fun _ _ => False)
      False w := by
  have hparts : wp (TerminalWorkspace.splitFocused axis pane)
      (fun _ w' => (∀ id ∈ w'.panes.keys, id = pane ∨ id ∈ w.panes.keys) ∧
        w'.tabs.map (·.id) = w.tabs.map (·.id) ∧ w'.activeTab = w.activeTab)
      (fun _ _ => False) False w := by
    simp only [TerminalWorkspace.splitFocused, wp_bind, wp_get, wp_okOr, wp_orPanic, wp_setTab,
      wp_ensure, wp_insertPane, wp_pure]
    refine ⟨fun active ha => ⟨fun index hindex => ?_, fun hnone => ?_⟩, fun hnone => ?_⟩
    · obtain ⟨tab, htab, -⟩ := tabIndex_spec hindex
      have hmem := List.mem_of_getElem? htab
      refine ⟨fun tab' htab' => ?_, fun hnone => absurd (hnone.symm.trans htab) (by simp)⟩
      obtain rfl := Option.some.inj (htab.symm.trans htab')
      have hfocused := hv.focused tab hmem
      refine ⟨fun focused _ => ⟨fun _ => ⟨fun id hid => ?_, ?_, trivial⟩, fun hmiss => ?_⟩,
        fun hnone => ?_⟩
      · exact SortedMap.mem_keys_insert.mp hid
      · obtain ⟨pre, post, ht, hset, -⟩ := split_at htab
        rw [List.set_set, hset, ht, List.map_append, List.map_append, List.map_cons, List.map_cons]
      · -- The focused pane is a leaf.
        rcases hs : tab.root.splitLeaf tab.focusedPane pane axis with ⟨found, root⟩
        rw [hs] at hmiss
        cases found with
        | true => exact hmiss rfl
        | false => exact (LayoutNode.splitLeaf_false hs).2 hfocused
      · have hkey := (hv.keys tab.focusedPane).mpr (List.mem_flatMap.mpr ⟨tab, hmem, hfocused⟩)
        exact SortedMap.get?_eq_none.mp hnone hkey
    · obtain ⟨t, ht, hid⟩ := List.mem_map.mp (hv.existing active ha)
      exact absurd (List.findIdx?_eq_none_iff.mp hnone t ht) (by simp [hid])
    · rw [hnone] at hactive
      cases hactive
  refine wp_mono (wp_and hparts (wp_self _ w)) ?_ (fun _ _ h => h.1) fun h => h.1
  rintro r w' ⟨⟨hkeys, hids, ha⟩, hx⟩
  refine ⟨hkeys, by rw [hids, List.append_nil], ha ▸ hactive, fun hv hpane _ => ?_⟩
  exact (splitFocused_spec hv hpane).of_ok hx

/-- What an operation makes of the process, in any state and in a valid one. -/
structure Issues (p : CountedWorkspace) (op : IssuingOp) (p' : CountedWorkspace) : Prop where
  takes : ∃ j k, Takes p j k p'
  valid : p.workspace.Valid →
    Takes p (op.panes p.workspace.activeTab.isSome) op.opens.toNat p' ∧
      p'.workspace.activeTab.isSome = (p.workspace.activeTab.isSome || op.opens) ∧
      (p'.workspace = p.workspace ∨ ∃ pane tabs, Grows p.workspace pane tabs p'.workspace ∧
        p'.issuedPanes = p.issuedPanes ++ [pane.value] ∧
        p'.issuedTabs = p.issuedTabs ++ tabs.map (·.value))

theorem issues_refl (hp : p.workspace.Valid → op.panes p.workspace.activeTab.isSome = 0)
    (ht : op.opens = false) : Issues p op p where
  takes := ⟨0, 0, .refl p⟩
  valid hv := by
    rw [hp hv, ht]
    exact ⟨.refl p, (Bool.or_false _).symm, .inl rfl⟩

theorem createTab_issues (name : String) (directory : PathBuf) :
    wp (CountedWorkspace.createTab name directory) (fun _ => Issues p (.createTab name directory))
      (fun _ => Issues p (.createTab name directory)) False p := by
  simp only [CountedWorkspace.createTab, CountedWorkspace.newPaneId, CountedWorkspace.newTabId,
    CountedWorkspace.onWorkspace, wp_bind, wp_discard, wp_ofExcept, wp_get, wp_set, wp_pure,
    wp_focus]
  have hrefused : opens (.createTab name directory) = false →
      Issues p (.createTab name directory) p := fun hopens =>
    issues_refl (fun _ => by rw [IssuingOp.panes, hopens]; rfl) hopens
  refine ⟨fun n hn => ⟨fun d hd => ?_, fun e hd => hrefused ?_⟩, fun e hn => hrefused ?_⟩
  · have hn' : (TerminalWorkspace.validatedName name).toBool := by rw [hn]; rfl
    have hd' : (TerminalWorkspace.validatedDirectory directory).toBool := by rw [hd]; rfl
    have hopens : opens (.createTab name directory) = true := by rw [opens, hn', hd']; rfl
    refine wp_mono (createTab_grows hn' hd') (fun _ w' hgrows => ?_) (fun _ _ h => h.elim)
      fun h => h
    have htakes : Takes p 1 1
        { workspace := w'
          nextPaneId := p.nextPaneId + 1
          nextTabId := p.nextTabId + 1
          issuedPanes := p.issuedPanes ++ [p.nextPaneId.toNat]
          issuedTabs := p.issuedTabs ++ [p.nextTabId.toNat] } :=
      ⟨by rw [drawn_one], rfl, by rw [drawn_one], rfl⟩
    refine ⟨⟨1, 1, htakes⟩, fun _ => ?_⟩
    rw [IssuingOp.panes, hopens]
    exact ⟨htakes, by rw [Bool.or_true]; exact hgrows.active, .inr ⟨_, _, hgrows, rfl, rfl⟩⟩
  · rw [opens, hd, Except.toBool, Bool.and_false]
  · rw [opens, hn, Except.toBool, Bool.false_and]

theorem splitFocused_issues (axis : SplitAxis) :
    wp (CountedWorkspace.splitFocused axis) (fun _ => Issues p (.splitFocused axis))
      (fun _ => Issues p (.splitFocused axis)) False p := by
  simp only [CountedWorkspace.splitFocused, CountedWorkspace.newPaneId, CountedWorkspace.onWorkspace,
    wp_bind, wp_discard, wp_okOr, wp_orPanic, wp_get, wp_set, wp_pure, wp_focus]
  refine ⟨fun active ha => ⟨fun index hindex => ⟨fun tab htab => ⟨fun focused _ => ?_,
    fun hnone => ?_⟩, fun hnone => ?_⟩, fun hnone => ?_⟩, fun hnone => ?_⟩
  · have hactive : p.workspace.activeTab.isSome := by rw [ha]; rfl
    have htakes : ∀ w', Takes p 1 0
        { p with
          workspace := w'
          nextPaneId := p.nextPaneId + 1
          issuedPanes := p.issuedPanes ++ [p.nextPaneId.toNat] } := fun w' =>
      ⟨by rw [drawn_one], rfl, by simp, by simp⟩
    by_cases hv : p.workspace.Valid
    · refine wp_mono (splitFocused_grows hv hactive) (fun _ w' hgrows => ?_)
        (fun _ _ h => h.elim) fun h => h
      refine ⟨⟨1, 0, htakes w'⟩, fun _ => ?_⟩
      rw [IssuingOp.panes, hactive]
      refine ⟨htakes w', hgrows.active, .inr ⟨_, [], hgrows, rfl, ?_⟩⟩
      rw [List.map_nil, List.append_nil]
    · exact wp_mono splitFocused_ends (fun _ w' _ => ⟨⟨1, 0, htakes w'⟩, fun h => absurd h hv⟩)
        (fun _ w' _ => ⟨⟨1, 0, htakes w'⟩, fun h => absurd h hv⟩) fun h => h
  · refine ⟨⟨0, 0, .refl p⟩, fun hv => ?_⟩
    have hmem := List.mem_of_getElem? htab
    have hkey := (hv.keys tab.focusedPane).mpr
      (List.mem_flatMap.mpr ⟨tab, hmem, hv.focused tab hmem⟩)
    exact absurd hkey (SortedMap.get?_eq_none.mp hnone)
  · obtain ⟨tab, htab, -⟩ := tabIndex_spec hindex
    exact absurd (hnone.symm.trans htab) (by simp)
  · refine ⟨⟨0, 0, .refl p⟩, fun hv => ?_⟩
    obtain ⟨t, ht, hid⟩ := List.mem_map.mp (hv.existing active ha)
    exact absurd (List.findIdx?_eq_none_iff.mp hnone t ht) (by simp [hid])
  · exact issues_refl (fun _ => by rw [IssuingOp.panes, hnone]; rfl) rfl

theorem step_issues (p : CountedWorkspace) (op : IssuingOp) :
    ∃ p', step p op = some p' ∧ Issues p op p' := by
  have hspec : wp op.run (fun _ => Issues p op) (fun _ => Issues p op) False p := by
    cases op with
    | createTab name directory =>
      simp only [run, wp_discard]
      exact createTab_issues name directory
    | splitFocused axis =>
      simp only [run, wp_discard]
      exact splitFocused_issues axis
  obtain ⟨r, p', hx⟩ := hspec.ends
  exact ⟨p', by rw [step, hx]; rfl, hspec.state hx⟩

/-! ## Runs -/

theorem run_takes (p : CountedWorkspace) (ops : List IssuingOp) :
    ∃ p' j k, ops.foldlM step p = some p' ∧ Takes p j k p' := by
  induction ops generalizing p with
  | nil => exact ⟨p, 0, 0, rfl, .refl p⟩
  | cons op ops ih =>
    obtain ⟨p₁, hs, ⟨i, l, htakes⟩, -⟩ := step_issues p op
    obtain ⟨p', j, k, hr, htakes'⟩ := ih p₁
    refine ⟨p', i + j, l + k, ?_, htakes.trans htakes'⟩
    rw [List.foldlM_cons, hs]
    exact hr

section Known

variable {knownPanes knownTabs : List Nat}

/-- Both kinds of identifiers are issued once, and not known. -/
def Fresh (knownPanes knownTabs issuedPanes issuedTabs : List Nat) : Prop :=
  FreshFor knownPanes issuedPanes ∧ FreshFor knownTabs issuedTabs

/-- Fresh identifiers keep the workspace valid. -/
theorem Issues.valid_of_fresh (h : Issues p op p') (hv : p.workspace.Valid)
    (hw : Within knownPanes knownTabs p)
    (hfresh : Fresh knownPanes knownTabs p'.issuedPanes p'.issuedTabs) :
    p'.workspace.Valid ∧ Within knownPanes knownTabs p' := by
  obtain ⟨htakes, -, hsame | ⟨pane, tabs, hgrows, hpanes, htabs⟩⟩ := h.valid hv
  · refine ⟨hsame ▸ hv, fun id hid => ?_, fun tab htab => ?_⟩
    · rw [hsame] at hid
      rw [htakes.panes]
      exact (hw.panes id hid).imp_right (List.mem_append_left _)
    · rw [hsame] at htab
      rw [htakes.tabs]
      exact (hw.tabs tab htab).imp_right (List.mem_append_left _)
  · obtain ⟨⟨hnodup, hnew⟩, hnodup', hnew'⟩ := hfresh
    rw [hpanes] at hnodup hnew
    rw [htabs] at hnodup' hnew'
    rw [List.nodup_append] at hnodup hnodup'
    refine ⟨hgrows.valid hv (fun hmem => ?_) fun tab htab hmem => ?_, fun id hid => ?_,
      fun tab htab => ?_⟩
    · rcases hw.panes pane hmem with hknown | hissued
      · exact hnew _ (List.mem_append_right _ List.mem_cons_self) hknown
      · exact hnodup.2.2 _ hissued _ List.mem_cons_self rfl
    · have hnumber : tab.value ∈ tabs.map (·.value) := List.mem_map_of_mem htab
      obtain ⟨t, ht, rfl⟩ := List.mem_map.mp hmem
      rcases hw.tabs t ht with hknown | hissued
      · exact hnew' _ (List.mem_append_right _ hnumber) hknown
      · exact hnodup'.2.2 _ hissued _ hnumber rfl
    · rw [hpanes]
      rcases hgrows.keys id hid with rfl | hid
      · exact .inr (List.mem_append_right _ List.mem_cons_self)
      · exact (hw.panes id hid).imp_right (List.mem_append_left _)
    · rw [htabs]
      have hmem : tab.id ∈ p.workspace.tabs.map (·.id) ++ tabs :=
        hgrows.ids ▸ List.mem_map_of_mem htab
      rcases List.mem_append.mp hmem with hmem | hmem
      · obtain ⟨t, ht, hid⟩ := List.mem_map.mp hmem
        exact hid ▸ (hw.tabs t ht).imp_right (List.mem_append_left _)
      · exact .inr (List.mem_append_right _ (List.mem_map_of_mem hmem))

/-- The operations take as many identifiers as they say, where what they take is fresh and where
what they say is fresh. -/
theorem run_counts (knownPanes knownTabs : List Nat) (hv : p.workspace.Valid)
    (hw : Within knownPanes knownTabs p) (ops : List IssuingOp) :
    ∃ p' j k, ops.foldlM step p = some p' ∧ Takes p j k p' ∧
      (Fresh knownPanes knownTabs p'.issuedPanes p'.issuedTabs ∨
        Fresh knownPanes knownTabs
          (p.issuedPanes ++ drawn p.nextPaneId (paneDraws p.workspace.activeTab.isSome ops))
          (p.issuedTabs ++ drawn p.nextTabId (tabDraws ops)) →
        j = paneDraws p.workspace.activeTab.isSome ops ∧ k = tabDraws ops) := by
  induction ops generalizing p with
  | nil => exact ⟨p, 0, 0, rfl, .refl p, fun _ => ⟨rfl, rfl⟩⟩
  | cons op ops ih =>
    obtain ⟨p₁, hs, hissues⟩ := step_issues p op
    obtain ⟨htakes, hactive, -⟩ := hissues.valid hv
    have hrun : ∀ p', ops.foldlM step p₁ = some p' → (op :: ops).foldlM step p = some p' := by
      intro p' hr
      rw [List.foldlM_cons, hs]
      exact hr
    have hsaid : p.issuedPanes ++
          drawn p.nextPaneId (paneDraws p.workspace.activeTab.isSome (op :: ops)) =
        p₁.issuedPanes ++
          drawn p₁.nextPaneId (paneDraws p₁.workspace.activeTab.isSome ops) := by
      rw [htakes.panes, htakes.nextPane, List.append_assoc, ← drawn_add, hactive, paneDraws]
    have hsaid' : p.issuedTabs ++ drawn p.nextTabId (tabDraws (op :: ops)) =
        p₁.issuedTabs ++ drawn p₁.nextTabId (tabDraws ops) := by
      rw [htakes.tabs, htakes.nextTab, List.append_assoc, ← drawn_add]
      rfl
    by_cases hfresh : Fresh knownPanes knownTabs p₁.issuedPanes p₁.issuedTabs
    · obtain ⟨hv₁, hw₁⟩ := hissues.valid_of_fresh hv hw hfresh
      obtain ⟨p', j, k, hr, htakes', hcounts⟩ := ih hv₁ hw₁
      refine ⟨p', _, _, hrun p' hr, htakes.trans htakes', fun h => ?_⟩
      rw [hsaid, hsaid'] at h
      obtain ⟨rfl, rfl⟩ := hcounts h
      exact ⟨by rw [paneDraws, hactive], rfl⟩
    · -- What is not fresh after the first operation stays so.
      obtain ⟨p', j, k, hr, htakes'⟩ := run_takes p₁ ops
      refine ⟨p', _, _, hrun p' hr, htakes.trans htakes', fun h => absurd ?_ hfresh⟩
      rw [hsaid, hsaid', htakes'.panes, htakes'.tabs] at h
      exact h.elim (fun h => ⟨h.1.of_append, h.2.of_append⟩) fun h => ⟨h.1.of_append, h.2.of_append⟩

end Known

theorem paneDraws_le (active : Bool) (ops : List IssuingOp) : paneDraws active ops ≤ ops.length := by
  induction ops generalizing active with
  | nil => exact le_rfl
  | cons op ops ih =>
    have hop : op.panes active ≤ 1 := by
      cases op with
      | createTab name directory => exact Bool.toNat_le _
      | splitFocused axis => exact Bool.toNat_le _
    have hrest := ih (active || op.opens)
    rw [paneDraws, List.length_cons]
    omega

theorem tabDraws_le (ops : List IssuingOp) : tabDraws ops ≤ ops.length := by
  induction ops with
  | nil => exact le_rfl
  | cons op ops ih =>
    have hop : op.opens.toNat ≤ 1 := Bool.toNat_le _
    rw [tabDraws, List.map_cons, List.sum_cons, List.length_cons]
    unfold tabDraws at ih
    omega

theorem FreshFor.congr {known known' issued : List Nat} (h : ∀ id, id ∈ known ↔ id ∈ known') :
    FreshFor known issued ↔ FreshFor known' issued := by
  simp only [FreshFor, h]

/-- A restored workspace has the identifiers of its snapshot. -/
theorem restored_ids {s : TerminalWorkspaceSnapshot} (h : TerminalWorkspace.restore s = .ok w) :
    (∀ id, id ∈ w.panes.keys.map (·.value) ↔ id ∈ s.paneIds) ∧
      w.tabs.map (·.id.value) = s.tabIds ∧ w.activeTab = s.activeTab := by
  obtain ⟨_, -, h⟩ := bind_eq_ok.mp h
  cases h
  obtain ⟨htabs, hactive, hkeys⟩ := foldl_restoreTab s.tabs ⟨[], .empty, s.activeTab⟩
  refine ⟨fun id => ?_, ?_, hactive⟩
  · rw [TerminalWorkspaceSnapshot.paneIds, List.mem_flatMap, List.mem_map]
    constructor
    · rintro ⟨p, hp, rfl⟩
      rw [hkeys] at hp
      obtain ⟨tab, htab, hp⟩ := List.mem_flatMap.mp (hp.resolve_left List.not_mem_nil)
      obtain ⟨pane, hpane, rfl⟩ := List.mem_map.mp hp
      exact ⟨tab, htab, List.mem_map.mpr ⟨pane, hpane, rfl⟩⟩
    · rintro ⟨tab, htab, hid⟩
      obtain ⟨pane, hpane, rfl⟩ := List.mem_map.mp hid
      refine ⟨pane.id, (hkeys _).mpr (.inr ?_), rfl⟩
      exact List.mem_flatMap.mpr ⟨tab, htab, List.mem_map_of_mem hpane⟩
  · rw [htabs, List.nil_append, List.map_map]
    rfl

/-- What is issued after a restore is fresh exactly while the counters have room. -/
theorem freshness_law (nextPaneId nextTabId : UInt64) (earlierPanes earlierTabs : List UInt64)
    (s : TerminalWorkspaceSnapshot) (p₀ : CountedWorkspace) (ops : List IssuingOp)
    (hpanes : ∀ id ∈ s.paneIds, id < 2 ^ 64) (htabs : ∀ id ∈ s.tabIds, id < 2 ^ 64)
    (h₀ : CountedWorkspace.restore nextPaneId nextTabId s = .ok p₀) (hlen : ops.length < 2 ^ 63) :
    ∃ p, ops.foldlM step p₀ = some p ∧
      (Fresh (p₀.workspace.panes.keys.map (·.value) ++ earlierPanes.map (·.toNat))
          (p₀.workspace.tabs.map (·.id.value) ++ earlierTabs.map (·.toNat))
          p.issuedPanes p.issuedTabs ↔
        (paneDraws s.activeTab.isSome ops = 0 ∨
          Room nextPaneId s.paneIds (earlierPanes.map (·.toNat))
            (paneDraws s.activeTab.isSome ops)) ∧
        (tabDraws ops = 0 ∨
          Room nextTabId s.tabIds (earlierTabs.map (·.toNat)) (tabDraws ops))) := by
  obtain ⟨w, hw, h₀⟩ := bind_eq_ok.mp h₀
  cases h₀
  obtain ⟨hkeys, hids, hactive⟩ := restored_ids hw
  let p₀ : CountedWorkspace :=
    ⟨w, s.paneIds.foldl reserveAfter nextPaneId, s.tabIds.foldl reserveAfter nextTabId, [], []⟩
  have hwithin : Within (w.panes.keys.map (·.value) ++ earlierPanes.map (·.toNat))
      (w.tabs.map (·.id.value) ++ earlierTabs.map (·.toNat)) p₀ :=
    ⟨fun id hid => .inl (List.mem_append_left _ (List.mem_map_of_mem hid)),
      fun tab htab => .inl (List.mem_append_left _ (List.mem_map_of_mem htab))⟩
  have hv : p₀.workspace.Valid := valid_restore hw
  obtain ⟨p, j, k, hr, htakes, hcounts⟩ := run_counts _ _ hv hwithin ops
  refine ⟨p, hr, ?_⟩
  dsimp only [p₀] at hcounts htakes ⊢
  rw [hactive, List.nil_append, List.nil_append] at hcounts
  have hfits : ∀ l : List UInt64, ∀ id ∈ l.map (·.toNat), id < 2 ^ 64 := by
    intro l id hid
    obtain ⟨n, -, rfl⟩ := List.mem_map.mp hid
    exact n.toNat_lt
  have hroom := freshFor_drawn nextPaneId
    ((paneDraws_le s.activeTab.isSome ops).trans_lt hlen) hpanes (hfits earlierPanes)
  have hroom' := freshFor_drawn nextTabId ((tabDraws_le ops).trans_lt hlen) htabs
    (hfits earlierTabs)
  have hpresent : ∀ id, id ∈ w.panes.keys.map (·.value) ++ earlierPanes.map (·.toNat) ↔
      id ∈ s.paneIds ++ earlierPanes.map (·.toNat) := fun id => by
    rw [List.mem_append, List.mem_append, hkeys]
  rw [← hroom, ← hroom', hids, Fresh, FreshFor.congr hpresent]
  rw [hids, Fresh, Fresh, FreshFor.congr hpresent, FreshFor.congr hpresent] at hcounts
  have hpanes' := htakes.panes
  have htabs' := htakes.tabs
  rw [List.nil_append] at hpanes' htabs'
  constructor
  · intro hfresh
    obtain ⟨rfl, rfl⟩ := hcounts (.inl hfresh)
    rw [hpanes', htabs'] at hfresh
    exact hfresh
  · intro hfresh
    obtain ⟨rfl, rfl⟩ := hcounts (.inr hfresh)
    rw [hpanes', htabs']
    exact hfresh

/-- A snapshot of one tab with one pane. -/
def single (paneId tabId : Nat) : TerminalWorkspaceSnapshot where
  tabs := [⟨⟨tabId⟩, "shell", .pane ⟨paneId⟩, ⟨paneId⟩, [⟨⟨paneId⟩, ⟨[47]⟩⟩]⟩]
  activeTab := some ⟨tabId⟩

/-- A split and a new tab, behind pane 7 and tab 3. -/
theorem freshness_law_single : ∃ p₀ p : CountedWorkspace,
    CountedWorkspace.restore 5 5 (single 7 3) = .ok p₀ ∧
      [splitFocused .vertical, createTab "shell" ⟨[47]⟩].foldlM step p₀ = some p ∧
      Fresh (p₀.workspace.panes.keys.map (·.value) ++ [4])
        (p₀.workspace.tabs.map (·.id.value) ++ [4]) p.issuedPanes p.issuedTabs := by
  cases h : CountedWorkspace.restore 5 5 (single 7 3) with
  | error e =>
    have hok : (CountedWorkspace.restore 5 5 (single 7 3)).toBool = true := by decide
    rw [h] at hok
    cases hok
  | ok p₀ =>
    obtain ⟨p, hr, hlaw⟩ := freshness_law 5 5 [4] [4] (single 7 3) p₀
      [splitFocused .vertical, createTab "shell" ⟨[47]⟩] (by decide) (by decide) h (by decide)
    refine ⟨p₀, p, rfl, hr, hlaw.mpr ⟨.inr ⟨?_, ?_, ?_⟩, .inr ⟨?_, ?_, ?_⟩⟩⟩ <;> decide

/-- The last number is restored, and issued again. -/
theorem last_reissued : ∃ p₀ p : CountedWorkspace,
    CountedWorkspace.restore 1 1 (single u64Max 1) = .ok p₀ ∧
      [createTab "shell" ⟨[47]⟩].foldlM step p₀ = some p ∧
      ¬Fresh (p₀.workspace.panes.keys.map (·.value)) (p₀.workspace.tabs.map (·.id.value))
        p.issuedPanes p.issuedTabs := by
  have hruns : (CountedWorkspace.restore 1 1 (single u64Max 1)).toOption.any fun p₀ =>
      ([createTab "shell" ⟨[47]⟩].foldlM step p₀).any fun p =>
        u64Max ∈ p₀.workspace.panes.keys.map (·.value) ∧ u64Max ∈ p.issuedPanes := by
    decide
  obtain ⟨p₀, h, hnext⟩ := (Option.any_eq_true _ _).mp hruns
  obtain ⟨p, hr, hend⟩ := (Option.any_eq_true _ _).mp hnext
  obtain ⟨hpresent, hissued⟩ := of_decide_eq_true hend
  refine ⟨p₀, p, ?_, hr, fun hfresh => hfresh.1.2 u64Max hissued hpresent⟩
  cases hx : CountedWorkspace.restore 1 1 (single u64Max 1) with
  | error e => rw [hx] at h; cases h
  | ok p₁ => rw [hx] at h; cases h; rfl

end IssuingOp
end Strukt
