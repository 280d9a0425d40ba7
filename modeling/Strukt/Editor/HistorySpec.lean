import Strukt.Editor.BufferSpec
import Strukt.Editor.History

/-!
# What the entries of a history do

An entry leads from the text before its edit to the text after it (`HistoryEntry.Moves`). A history
of a text is a walk: its undo entries lead back through earlier texts (`Visits`), its redo entries
forward to the texts that were undone (`Returns`).

* A merged entry leads from the text before the first of the two edits to the text after the second
  (`Moves.coalesce`): its one inverse range covers exactly what both inserted.
* Dropping the oldest entries leaves the rest of the walk as it is (`dropOldest_eq`).
-/

namespace Strukt

open Method EditTransaction

namespace HistoryEntry

/-- The entry's edit makes `after` of `before`, and the entry has its inverse. -/
structure Moves (e : HistoryEntry) (before after : Rope) : Prop where
  ordered : Splice.Ordered before.length 0 e.forward.splices
  after : after = Splice.spliceAll e.forward.splices before
  inverse : e.inverse.splices = Splice.inverseFrom before 0 e.forward.splices

variable {e previous next merged : HistoryEntry} {before middle after : Rope} {b b' : TextBuffer}
  {t : EditTransaction} {a : AppliedTransaction}

theorem moves_fromApplied (h : TextBuffer.Edited b t a b') (kind : EditKind) (cursorBefore
    cursorAfter : Nat) : (fromApplied t a kind cursorBefore cursorAfter).Moves b.text b'.text :=
  ⟨h.ordered, h.text, h.inverse⟩

/-- The inverse of an entry is applied to the text that the edit left. -/
theorem Moves.undo (h : e.Moves before after) (hb : b.text = after) (hr : b.revision.value ≠ -1) :
    overlaps (retarget e.inverse b.revision).replacements = false ∧
      b.Admits (retarget e.inverse b.revision) ∧
      Splice.spliceAll (retarget e.inverse b.revision).splices b.text = before := by
  obtain ⟨hord, hback⟩ := Splice.spliceAll_inverse h.ordered
  rw [← h.inverse, ← h.after, ← hb] at hord hback
  obtain ⟨hover, hin⟩ := ordered_zero_iff.mp hord
  exact ⟨hover, ⟨rfl, hr, hin⟩, hback⟩

theorem Moves.redo (h : e.Moves before after) (hb : b.text = before) (hr : b.revision.value ≠ -1) :
    overlaps (retarget e.forward b.revision).replacements = false ∧
      b.Admits (retarget e.forward b.revision) ∧
      Splice.spliceAll (retarget e.forward b.revision).splices b.text = after := by
  subst hb
  obtain ⟨hover, hin⟩ := ordered_zero_iff.mp h.ordered
  exact ⟨hover, ⟨rfl, hr, hin⟩, h.after.symm⟩

/-- Two insertions, the second one right behind the first, are one. -/
theorem spliceAll_insertions {text p q : Rope} {s : Nat} (hs : s ≤ text.length) :
    Splice.spliceAll [⟨s + p.length, s + p.length, q⟩] (Splice.spliceAll [⟨s, s, p⟩] text) =
      Splice.spliceAll [⟨s, s, p ++ q⟩] text := by
  have hlen : (text.take s ++ p).length = s + p.length := by
    rw [List.length_append, List.length_take_of_le hs]
  simp only [Splice.spliceAll, List.foldr_cons, List.foldr_nil, Splice.splice]
  rw [List.take_left' hlen, List.drop_left' hlen]
  simp only [List.append_assoc]

/-- A merged entry is the edit of both. -/
theorem Moves.coalesce (h : previous.Moves before middle) (h' : next.Moves middle after)
    (hc : coalesceTyping previous next = some merged) : merged.Moves before after := by
  unfold coalesceTyping at hc
  split at hc
  · cases hc
  split at hc
  swap
  · cases hc
  rename_i pf nf pi ni hpf hnf hpi hni
  split at hc
  · cases hc
  rename_i hcond
  simp only [not_or, ne_eq, not_not] at hcond
  obtain ⟨hp, hn, hadj, htext, -⟩ := hcond
  cases hc
  obtain ⟨hord, rfl, hinv⟩ := h
  obtain ⟨-, rfl, hinv'⟩ := h'
  obtain ⟨⟨s, s₁⟩, pt⟩ := pf
  obtain ⟨⟨s₂, s₃⟩, qt⟩ := nf
  obtain ⟨⟨i₁, i₂⟩, it⟩ := pi
  obtain ⟨⟨j₁, j₂⟩, jt⟩ := ni
  dsimp only at hp hn hadj htext
  subst hp hn hadj htext
  simp only [splices, hpf, hnf, hpi, hni, List.map_cons, List.map_nil, Replacement.toSplice,
    Splice.inverseFrom, Splice.Ordered, List.cons.injEq, and_true, Splice.mk.injEq, add_zero,
    Int.toNat_natCast] at hord hinv hinv'
  obtain ⟨rfl, -, -⟩ := hinv
  obtain ⟨-, rfl, -⟩ := hinv'
  have hs : i₁ ≤ before.length := hord.2.2
  refine ⟨?_, ?_, ?_⟩
  · simp [splices, Replacement.toSplice, Splice.Ordered, hs]
  · simp only [splices, hpf, hnf, List.map_cons, List.map_nil, Replacement.toSplice,
      String.toList_append]
    exact spliceAll_insertions hs
  · simp [splices, Replacement.toSplice, Splice.inverseFrom, Nat.add_assoc]

end HistoryEntry

/-! ## Walks -/

/-- Undoing the entries, the first one first, leads through the texts `past`; there may be more of
these. -/
def Visits : Rope → List HistoryEntry → List Rope → Prop
  | _, [], _ => True
  | present, e :: es, before :: past => e.Moves before present ∧ Visits before es past
  | _, _ :: _, [] => False

/-- Redoing the entries leads through the texts `future`. -/
def Returns : Rope → List HistoryEntry → List Rope → Prop
  | _, [], [] => True
  | present, e :: es, after :: future => e.Moves present after ∧ Returns after es future
  | _, _, _ => False

theorem Visits.take {present : Rope} {es : List HistoryEntry} {past : List Rope}
    (h : Visits present es past) (n : Nat) : Visits present (es.take n) past := by
  induction es generalizing present past n with
  | nil => rw [List.take_nil]; trivial
  | cons e es ih =>
    cases n with
    | zero => trivial
    | succ n =>
      cases past with
      | nil => exact h.elim
      | cons before past => exact ⟨h.1, ih h.2 n⟩

theorem Visits.moves {present : Rope} {es : List HistoryEntry} {past : List Rope}
    (h : Visits present es past) {e : HistoryEntry} (he : e ∈ es) :
    ∃ before after, e.Moves before after := by
  induction es generalizing present past with
  | nil => cases he
  | cons e' es ih =>
    cases past with
    | nil => exact h.elim
    | cons before past =>
      rcases List.mem_cons.mp he with rfl | he
      · exact ⟨_, _, h.1⟩
      · exact ih h.2 he

theorem Returns.moves {present : Rope} {es : List HistoryEntry} {future : List Rope}
    (h : Returns present es future) {e : HistoryEntry} (he : e ∈ es) :
    ∃ before after, e.Moves before after := by
  induction es generalizing present future with
  | nil => cases he
  | cons e' es ih =>
    cases future with
    | nil => exact h.elim
    | cons after future =>
      rcases List.mem_cons.mp he with rfl | he
      · exact ⟨_, _, h.1⟩
      · exact ih h.2 he

namespace History

variable {h h' : History} {entry : HistoryEntry} {past future : List Rope} {present : Rope}

/-- The history without its `n` oldest entries, with another count of bytes. -/
def evict (h : History) (n bytes : Nat) : History :=
  { h with undoEntries := h.undoEntries.drop n, retainedBytes := bytes }

/-- The entry is merged into the newest one. -/
def Joins (h : History) (entry : HistoryEntry) : Prop :=
  (h.undoEntries.getLast?.bind fun previous => coalesceTyping previous entry).isSome

instance (h : History) (entry : HistoryEntry) : Decidable (h.Joins entry) :=
  inferInstanceAs (Decidable (_ = true))

structure Walks (h : History) (past : List Rope) (present : Rope) (future : List Rope) : Prop where
  undone : Visits present h.undoEntries.reverse past
  redone : Returns present h.redoEntries.reverse future

theorem walks_new {budget : HistoryBudget} : (new budget).Walks [] present [] := ⟨trivial, trivial⟩

theorem dropOldest_eq (budget : HistoryBudget) (es : List HistoryEntry) (bytes : Nat) :
    ∃ n, (dropOldest budget es bytes).1 = es.drop n := by
  induction es generalizing bytes with
  | nil => exact ⟨0, rfl⟩
  | cons e es ih =>
    rw [dropOldest]
    split
    · obtain ⟨n, hn⟩ := ih (bytes - e.byteCost)
      exact ⟨n + 1, hn⟩
    · exact ⟨0, rfl⟩

theorem enforceBudget_eq (h : History) : ∃ n bytes, h.enforceBudget = h.evict n bytes := by
  obtain ⟨n, hn⟩ := dropOldest_eq h.budget h.undoEntries h.retainedBytes
  exact ⟨n, (dropOldest h.budget h.undoEntries h.retainedBytes).2, by
    rw [enforceBudget, evict, ← hn]⟩

/-- What is left of a walk leads through the same texts. -/
theorem Walks.evict (hw : h.Walks past present future) (n bytes : Nat) :
    (h.evict n bytes).Walks past present future := by
  refine ⟨?_, hw.redone⟩
  rw [History.evict, List.reverse_drop]
  exact hw.undone.take _

theorem Walks.enforceBudget (hw : h.Walks past present future) :
    h.enforceBudget.Walks past present future := by
  obtain ⟨n, bytes, he⟩ := h.enforceBudget_eq
  exact he ▸ hw.evict n bytes

theorem Walks.record {before : Rope} (hw : h.Walks past before future)
    (he : entry.Moves before present) :
    (h.record entry).Walks (if h.Joins entry then past else before :: past) present [] := by
  rw [History.record]
  refine Walks.enforceBudget ⟨?_, trivial⟩
  cases hj : h.undoEntries.getLast?.bind fun previous => coalesceTyping previous entry with
  | none =>
    rw [if_neg (by rw [Joins, hj]; simp)]
    simp only [List.reverse_append, List.reverse_singleton, List.singleton_append]
    exact ⟨he, hw.undone⟩
  | some merged =>
    obtain ⟨previous, hprevious, hmerged⟩ := Option.bind_eq_some_iff.mp hj
    have hsplit : h.undoEntries.reverse = previous :: h.undoEntries.dropLast.reverse := by
      rw [← List.dropLast_append_getLast? previous hprevious]
      simp
    have hundone := hw.undone
    rw [hsplit] at hundone
    rw [if_pos (by rw [Joins, hj]; rfl)]
    simp only [List.reverse_append, List.reverse_singleton, List.singleton_append]
    cases past with
    | nil => exact hundone.elim
    | cons first past => exact ⟨hundone.1.coalesce he hmerged, hundone.2⟩

theorem length_dropLast_add_one {es : List HistoryEntry} {e : HistoryEntry}
    (he : es.getLast? = some e) : es.dropLast.length + 1 = es.length := by
  rw [List.length_dropLast]
  exact Nat.sub_add_cancel (List.length_pos_iff.mpr (List.ne_nil_of_mem (List.mem_of_getLast? he)))

/-- An undo gives the inverse of the newest entry, and leaves the walk one text further back. -/
theorem undo_spec (hw : h.Walks past present future) (revision : Revision) :
    wp (undo revision)
      (fun t h' => ∃ (e : HistoryEntry) (before : Rope) (rest : List Rope),
        past = before :: rest ∧ t = retarget e.inverse revision ∧ e.Moves before present ∧
        h'.Walks rest before (present :: future) ∧
        h'.undoEntries.length + 1 = h.undoEntries.length ∧
        h'.redoEntries.length = h.redoEntries.length + 1)
      (fun e h' => h' = h ∧ e = .nothingToUndo ∧ h.undoEntries = []) False h := by
  simp only [undo, wp_bind, wp_get, wp_okOr, wp_set, wp_pure]
  refine ⟨fun e he => ?_, fun hnone => ⟨trivial, trivial, List.getLast?_eq_none_iff.mp hnone⟩⟩
  have hundone := hw.undone
  rw [← List.dropLast_append_getLast? e he, List.reverse_append, List.reverse_singleton,
    List.singleton_append] at hundone
  cases past with
  | nil => exact hundone.elim
  | cons before rest =>
    refine ⟨e, before, rest, rfl, rfl, hundone.1, ⟨hundone.2, ?_⟩, ?_, ?_⟩
    · rw [List.reverse_append, List.reverse_singleton, List.singleton_append]
      exact ⟨hundone.1, hw.redone⟩
    · exact length_dropLast_add_one he
    · rw [List.length_append, List.length_singleton]

theorem redo_spec (hw : h.Walks past present future) (revision : Revision) :
    wp (redo revision)
      (fun t h' => ∃ (e : HistoryEntry) (after : Rope) (rest : List Rope),
        future = after :: rest ∧ t = retarget e.forward revision ∧ e.Moves present after ∧
        h'.Walks (present :: past) after rest ∧
        h'.redoEntries.length + 1 = h.redoEntries.length)
      (fun e h' => h' = h ∧ e = .nothingToRedo ∧ h.redoEntries = []) False h := by
  simp only [redo, wp_bind, wp_get, wp_okOr, wp_set, wp_pure]
  refine ⟨fun e he => ?_, fun hnone => ⟨trivial, trivial, List.getLast?_eq_none_iff.mp hnone⟩⟩
  have hredone := hw.redone
  rw [← List.dropLast_append_getLast? e he, List.reverse_append, List.reverse_singleton,
    List.singleton_append] at hredone
  cases future with
  | nil => exact hredone.elim
  | cons after rest =>
    refine ⟨e, after, rest, rfl, rfl, hredone.1, Walks.enforceBudget ⟨?_, hredone.2⟩, ?_⟩
    · rw [List.reverse_append, List.reverse_singleton, List.singleton_append]
      exact ⟨hredone.1, hw.undone⟩
    · exact length_dropLast_add_one he

end History
end Strukt
