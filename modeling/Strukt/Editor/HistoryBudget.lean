import Strukt.Editor.HistorySpec
import Strukt.Lib.Runs

/-!
# The budget of a history

`retainedBytes` is what the undo entries cost (`Balanced`), and the entries stay within the budget
(`HistoryBudget.Allows`).

* `dropOldest` drops as many of the oldest entries as it has to, and not one more
  (`dropOldest_spec`). It ends in any case: no entries are within every budget.
* **The law** (`budget_law`): what each operation leaves of the undo entries.
-/

namespace Strukt

open Method

/-- The bytes of some entries. -/
def HistoryEntry.cost (es : List HistoryEntry) : Nat := (es.map (·.byteCost)).sum

open HistoryEntry

structure HistoryBudget.Allows (budget : HistoryBudget) (es : List HistoryEntry) : Prop where
  entries : es.length ≤ budget.maxEntries
  bytes : cost es ≤ budget.maxBytes

/-- The entries that are left of `es`: all but the oldest ones, as long as the budget does not allow
what is left. -/
def HistoryBudget.Leaves (budget : HistoryBudget) (es left : List HistoryEntry) : Prop :=
  ∃ n, left = es.drop n ∧ budget.Allows left ∧ ∀ m < n, ¬budget.Allows (es.drop m)

theorem HistoryBudget.leaves_self {budget : HistoryBudget} {es : List HistoryEntry}
    (h : budget.Allows es) : budget.Leaves es es :=
  ⟨0, rfl, h, fun _ hm => absurd hm (Nat.not_lt_zero _)⟩

theorem HistoryEntry.cost_append (es es' : List HistoryEntry) :
    cost (es ++ es') = cost es + cost es' := by
  rw [cost, List.map_append, List.sum_append]
  rfl

theorem HistoryEntry.cost_dropLast {es : List HistoryEntry} {e : HistoryEntry}
    (he : es.getLast? = some e) : cost es = cost es.dropLast + e.byteCost := by
  conv_lhs => rw [← List.dropLast_append_getLast? e he, cost_append]
  rfl

/-- A merged entry costs as much as the two. -/
theorem byteCost_of_coalesce {previous next merged : HistoryEntry}
    (h : coalesceTyping previous next = some merged) :
    merged.byteCost = previous.byteCost + next.byteCost := by
  unfold coalesceTyping at h
  split at h
  · cases h
  split at h
  · split at h
    · cases h
    · cases h
      rfl
  · cases h

namespace History

variable {h h' : History} {budget : HistoryBudget} {es : List HistoryEntry}

/-! ## What is dropped -/

theorem dropOldest_spec (budget : HistoryBudget) (es : List HistoryEntry) :
    budget.Leaves es (dropOldest budget es (cost es)).1 ∧
      (dropOldest budget es (cost es)).2 = cost (dropOldest budget es (cost es)).1 := by
  induction es with
  | nil => exact ⟨HistoryBudget.leaves_self ⟨Nat.zero_le _, Nat.zero_le _⟩, rfl⟩
  | cons e es ih =>
    rw [dropOldest]
    split
    · next hover =>
      have hcost : cost (e :: es) - e.byteCost = cost es :=
        Nat.add_sub_cancel_left e.byteCost _
      rw [hcost]
      obtain ⟨⟨n, hleft, hallows, hleast⟩, hbytes⟩ := ih
      refine ⟨⟨n + 1, hleft, hallows, fun m hm hm' => ?_⟩, hbytes⟩
      cases m with
      | zero =>
        rcases hover with hentries | hover
        · exact absurd hm'.entries (Nat.not_le_of_lt hentries)
        · exact absurd hm'.bytes (Nat.not_le_of_lt hover)
      | succ m => exact hleast m (Nat.lt_of_succ_lt_succ hm) hm'
    · next hwithin =>
      rw [not_or, gt_iff_lt, gt_iff_lt, not_lt, not_lt] at hwithin
      exact ⟨HistoryBudget.leaves_self ⟨hwithin.1, hwithin.2⟩, rfl⟩

/-- The count of bytes is the cost of the undo entries. -/
def Balanced (h : History) : Prop := h.retainedBytes = cost h.undoEntries

theorem Balanced.enforceBudget (hb : h.Balanced) :
    h.enforceBudget.Balanced ∧ h.budget.Leaves h.undoEntries h.enforceBudget.undoEntries := by
  have hspec := dropOldest_spec h.budget h.undoEntries
  rw [← hb] at hspec
  exact ⟨hspec.2, hspec.1⟩

/-! ## Operations -/

/-- The undo entries with a new one, which may be merged into the newest of them. -/
def pushed (h : History) (entry : HistoryEntry) : List HistoryEntry :=
  match h.undoEntries.getLast?.bind fun previous => coalesceTyping previous entry with
  | some merged => h.undoEntries.dropLast ++ [merged]
  | none => h.undoEntries ++ [entry]

theorem cost_pushed (h : History) (entry : HistoryEntry) :
    cost (h.pushed entry) = cost h.undoEntries + entry.byteCost := by
  unfold pushed
  cases hj : h.undoEntries.getLast?.bind fun previous => coalesceTyping previous entry with
  | none => exact cost_append h.undoEntries [entry]
  | some merged =>
    obtain ⟨previous, hprevious, hmerged⟩ := Option.bind_eq_some_iff.mp hj
    have hcost : cost [merged] = merged.byteCost := rfl
    dsimp only
    rw [cost_append, hcost, byteCost_of_coalesce hmerged, cost_dropLast hprevious, Nat.add_assoc]

theorem Balanced.record (hb : h.Balanced) (entry : HistoryEntry) :
    (h.record entry).Balanced ∧ h.budget.Leaves (h.pushed entry) (h.record entry).undoEntries := by
  have hpushed : Balanced { h with
      undoEntries := h.pushed entry
      redoEntries := []
      retainedBytes := h.retainedBytes + entry.byteCost } := by
    unfold Balanced at hb ⊢
    dsimp only
    rw [cost_pushed, hb]
  exact hpushed.enforceBudget

/-- An undo takes the newest entry to the entries to redo. -/
theorem wp_undo (hb : h.Balanced) (revision : Revision) :
    wp (undo revision)
      (fun _ h' => h'.Balanced ∧ h'.budget = h.budget ∧
        ∃ e, h.undoEntries = h'.undoEntries ++ [e] ∧ h'.redoEntries = h.redoEntries ++ [e])
      (fun _ h' => h' = h) False h := by
  simp only [undo, wp_bind, wp_get, wp_okOr, wp_set, wp_pure]
  refine ⟨fun e he => ⟨?_, trivial, e, ?_, rfl⟩, fun _ => trivial⟩
  · unfold Balanced at hb ⊢
    dsimp only
    rw [hb, cost_dropLast he, Nat.add_sub_cancel]
  · exact (List.dropLast_append_getLast? e he).symm

theorem wp_redo (hb : h.Balanced) (revision : Revision) :
    wp (redo revision)
      (fun _ h' => h'.Balanced ∧ h'.budget = h.budget ∧
        ∃ e, h.redoEntries = h'.redoEntries ++ [e] ∧
          h.budget.Leaves (h.undoEntries ++ [e]) h'.undoEntries)
      (fun _ h' => h' = h) False h := by
  simp only [redo, wp_bind, wp_get, wp_okOr, wp_set, wp_pure]
  refine ⟨fun e he => ?_, fun _ => trivial⟩
  have hpushed : Balanced { h with
      undoEntries := h.undoEntries ++ [e]
      redoEntries := h.redoEntries.dropLast
      retainedBytes := h.retainedBytes + e.byteCost } := by
    unfold Balanced at hb ⊢
    dsimp only
    rw [cost_append, hb]
    rfl
  obtain ⟨hbalanced, hleaves⟩ := hpushed.enforceBudget
  exact ⟨hbalanced, rfl, e, (List.dropLast_append_getLast? e he).symm, hleaves⟩

end History

/-! ## Runs -/

inductive HistoryOp where
  | record (entry : HistoryEntry)
  | undo (revision : Revision)
  | redo (revision : Revision)

namespace HistoryOp

open History

/-- The history after an operation, which may be one that fails. -/
def step (h : History) : HistoryOp → Option History
  | record entry => some (h.record entry)
  | undo revision => ((History.undo revision).exec h).map (·.2)
  | redo revision => ((History.redo revision).exec h).map (·.2)

/-- What an operation does to the undo entries. -/
def Moves (h : History) (op : HistoryOp) (h' : History) : Prop :=
  match op with
  | record entry => h.budget.Leaves (h.pushed entry) h'.undoEntries
  | undo _ => h' = h ∨ ∃ e, h.undoEntries = h'.undoEntries ++ [e]
  | redo _ => h' = h ∨ ∃ e, h.redoEntries = h'.redoEntries ++ [e] ∧
      h.budget.Leaves (h.undoEntries ++ [e]) h'.undoEntries

/-- What holds of a history between two operations. -/
structure Kept (budget : HistoryBudget) (h : History) : Prop where
  same : h.budget = budget
  balanced : h.Balanced
  allows : budget.Allows h.undoEntries

variable {budget : HistoryBudget} {h h' : History} {op : HistoryOp}

theorem kept_new : Kept budget (new budget) := ⟨rfl, rfl, Nat.zero_le _, Nat.zero_le _⟩

/-- A method that keeps what holds, also where it fails, makes a step. -/
theorem step_of_wp {α : Type} {x : HistoryM α} {I : History → Prop}
    (hx : wp x (fun _ s => I s) (fun _ s => I s) False h) :
    ∃ h', (x.exec h).map (·.2) = some h' ∧ I h' := by
  obtain ⟨r, h', hexec⟩ := hx.ends
  exact ⟨h', by rw [hexec]; rfl, wp.state hx hexec⟩

theorem Kept.step (hk : Kept budget h) (op : HistoryOp) :
    ∃ h', step h op = some h' ∧ Kept budget h' ∧ Moves h op h' := by
  obtain ⟨rfl, hbalanced, hallows⟩ := hk
  cases op with
  | record entry =>
    obtain ⟨hb, hleaves⟩ := hbalanced.record entry
    obtain ⟨n, -, hallows, -⟩ := id hleaves
    exact ⟨_, rfl, ⟨rfl, hb, hallows⟩, hleaves⟩
  | undo revision =>
    refine step_of_wp (wp_mono (wp_undo hbalanced revision) (fun _ h' hundo => ?_)
      (fun _ h' he => ?_) id)
    · obtain ⟨hb, hbudget, e, hundone, -⟩ := hundo
      refine ⟨⟨hbudget, hb, ?_, ?_⟩, .inr ⟨e, hundone⟩⟩
      · have hlength := hallows.entries
        rw [hundone, List.length_append] at hlength
        exact Nat.le_of_add_right_le hlength
      · have hbytes := hallows.bytes
        rw [hundone, cost_append] at hbytes
        exact Nat.le_of_add_right_le hbytes
    · obtain rfl := he
      exact ⟨⟨rfl, hbalanced, hallows⟩, .inl rfl⟩
  | redo revision =>
    refine step_of_wp (wp_mono (wp_redo hbalanced revision) (fun _ h' hredo => ?_)
      (fun _ h' he => ?_) id)
    · obtain ⟨hb, hbudget, e, hredone, hleaves⟩ := hredo
      obtain ⟨n, -, hallows, -⟩ := id hleaves
      exact ⟨⟨hbudget, hb, hallows⟩, .inr ⟨e, hredone, hleaves⟩⟩
    · obtain rfl := he
      exact ⟨⟨rfl, hbalanced, hallows⟩, .inl rfl⟩

/-- Some operations lead to a history. -/
theorem kept_of_ops (budget : HistoryBudget) (ops : List HistoryOp) :
    ∃ h, ops.foldlM HistoryOp.step (new budget) = some h ∧ Kept budget h := by
  induction ops using List.reverseRecOn with
  | nil => exact ⟨new budget, rfl, kept_new⟩
  | append_singleton ops op ih =>
    obtain ⟨h, hops, hk⟩ := ih
    obtain ⟨h', hstep, hk', -⟩ := hk.step op
    refine ⟨h', ?_, hk'⟩
    rw [List.foldlM_append, hops]
    exact (congrArg (· >>= pure) hstep).trans rfl

/-- In the history that some operations lead to, the count of bytes is the cost of the undo entries,
which are within the budget. The next operation keeps that: an entry that is recorded or redone only
drops the oldest ones, as long as the budget does not allow what is left, and an undo drops none. -/
theorem budget_law (budget : HistoryBudget) (ops : List HistoryOp) (op : HistoryOp) :
    ∃ h h', ops.foldlM HistoryOp.step (new budget) = some h ∧ HistoryOp.step h op = some h' ∧
      h.retainedBytes = cost h.undoEntries ∧ budget.Allows h.undoEntries ∧
      h'.retainedBytes = cost h'.undoEntries ∧ budget.Allows h'.undoEntries ∧ Moves h op h' := by
  obtain ⟨h, hops, hk⟩ := kept_of_ops budget ops
  obtain ⟨h', hstep, hk', hmoves⟩ := hk.step op
  exact ⟨h, h', hops, hstep, hk.balanced, hk.allows, hk'.balanced, hk'.allows, hmoves⟩

end HistoryOp
end Strukt
