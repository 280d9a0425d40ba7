import Mathlib

/-!
# Embeddings of a subsequence

A query is embedded in a list when its elements stand there in their order, each after a gap.

* **`greedy`** takes for each element its first place after the one before.
* **Completeness** (`greedy_isSome_iff`): it finds an embedding where there is one.
* **Optimality** (`greedy_weight_le`): where each element has a weight, no embedding has gaps of a
  smaller weight.
-/

namespace Strukt

variable {α : Type}

/-- The query stands in the list, each of its elements after its gap. -/
inductive Embeds : List (List α) → List α → List α → Prop
  | nil {l : List α} : Embeds [] [] l
  | cons {gaps : List (List α)} {query rest gap : List α} {a : α} (h : Embeds gaps query rest) :
    Embeds (gap :: gaps) (a :: query) (gap ++ a :: rest)

variable {gaps : List (List α)} {query l : List α} {weight : α → Nat}

theorem Embeds.sublist (h : Embeds gaps query l) : query.Sublist l := by
  induction h with
  | nil => exact List.nil_sublist _
  | cons _ ih => exact (ih.cons_cons _).trans (List.sublist_append_right _ _)

/-- The weight of the gaps. -/
def gapWeight (weight : α → Nat) (gaps : List (List α)) : Nat :=
  (gaps.map fun gap => (gap.map weight).sum).sum

theorem gapWeight_cons (gap : List α) :
    gapWeight weight (gap :: gaps) = (gap.map weight).sum + gapWeight weight gaps := rfl

/-- After more elements the first gap is longer, if there is one. -/
theorem Embeds.after (h : Embeds gaps query l) (weight : α → Nat) (before : List α) :
    ∃ gaps', Embeds gaps' query (before ++ l) ∧
      gapWeight weight gaps' ≤ (before.map weight).sum + gapWeight weight gaps := by
  cases h with
  | nil => exact ⟨[], .nil, Nat.zero_le _⟩
  | @cons gaps query rest gap a h =>
    refine ⟨(before ++ gap) :: gaps, ?_, ?_⟩
    · rw [← List.append_assoc]
      exact .cons h
    · rw [gapWeight_cons, gapWeight_cons, List.map_append, List.sum_append, Nat.add_assoc]

theorem embeds_of_sublist (h : query.Sublist l) : ∃ gaps, Embeds gaps query l := by
  induction h with
  | slnil => exact ⟨[], .nil⟩
  | cons a _ ih =>
    obtain ⟨gaps, h⟩ := ih
    obtain ⟨gaps, h, -⟩ := h.after (fun _ => 0) [a]
    exact ⟨gaps, h⟩
  | cons_cons a _ ih =>
    obtain ⟨gaps, h⟩ := ih
    exact ⟨[] :: gaps, .cons h⟩

section Greedy

variable [DecidableEq α]

/-- The gaps before the first places, where the query has them. -/
def greedy : List α → List α → Option (List (List α))
  | [], _ => some []
  | a :: query, l =>
    if a ∈ l then
      (greedy query (l.dropWhile (· ≠ a)).tail).map fun gaps => l.takeWhile (· ≠ a) :: gaps
    else none

theorem takeWhile_cons_ne {a b : α} (h : b ≠ a) :
    (b :: l).takeWhile (· ≠ a) = b :: l.takeWhile (· ≠ a) := List.takeWhile_cons_of_pos (by simpa)

theorem dropWhile_cons_ne {a b : α} (h : b ≠ a) :
    (b :: l).dropWhile (· ≠ a) = l.dropWhile (· ≠ a) := List.dropWhile_cons_of_pos (by simpa)

/-- A list is cut at the first place of an element. -/
theorem takeWhile_cons_dropWhile {a : α} (h : a ∈ l) :
    l.takeWhile (· ≠ a) ++ a :: (l.dropWhile (· ≠ a)).tail = l := by
  induction l with
  | nil => cases h
  | cons b l ih =>
    by_cases hb : b = a
    · subst hb
      rw [List.takeWhile_cons_of_neg (by simp), List.dropWhile_cons_of_neg (by simp)]
      rfl
    · rw [takeWhile_cons_ne hb, dropWhile_cons_ne hb, List.cons_append,
        ih (List.mem_of_ne_of_mem (Ne.symm hb) h)]

theorem greedy_embeds (h : greedy query l = some gaps) : Embeds gaps query l := by
  induction query generalizing l gaps with
  | nil =>
    cases h
    exact .nil
  | cons a query ih =>
    rw [greedy] at h
    split at h
    · rename_i hmem
      obtain ⟨gaps, hgaps, rfl⟩ := Option.map_eq_some_iff.mp h
      have hl : Embeds (l.takeWhile (· ≠ a) :: gaps) (a :: query) _ := .cons (ih hgaps)
      rw [takeWhile_cons_dropWhile hmem] at hl
      exact hl
    · cases h

/-- The first place of an element leaves at least what any other place leaves. -/
theorem first_place {a : α} {gap rest : List α} (h : l = gap ++ a :: rest) :
    ∃ skipped, gap ++ [a] = l.takeWhile (· ≠ a) ++ a :: skipped ∧
      (l.dropWhile (· ≠ a)).tail = skipped ++ rest := by
  subst h
  induction gap with
  | nil =>
    refine ⟨[], ?_, ?_⟩ <;> simp
  | cons b gap ih =>
    by_cases hb : b = a
    · subst hb
      refine ⟨gap ++ [b], ?_, ?_⟩ <;> simp
    · obtain ⟨skipped, hgap, hrest⟩ := ih
      refine ⟨skipped, ?_, ?_⟩
      · rw [List.cons_append, List.cons_append, takeWhile_cons_ne hb, hgap, List.cons_append]
      · rw [List.cons_append, dropWhile_cons_ne hb, hrest]

/-- No embedding has gaps of a smaller weight than those before the first places. -/
theorem greedy_weight_le (weight : α → Nat) (h : Embeds gaps query l) :
    ∃ first, greedy query l = some first ∧ gapWeight weight first ≤ gapWeight weight gaps := by
  induction query generalizing l gaps with
  | nil => exact ⟨[], rfl, Nat.zero_le _⟩
  | cons a query ih =>
    generalize hl : l = l' at h
    cases h with
    | @cons gaps _ rest gap _ h =>
    obtain ⟨skipped, hgap, hrest⟩ := first_place hl
    -- The rest of the embedding moves to what is after the first place.
    obtain ⟨moved, hmoved, hle⟩ := h.after weight skipped
    rw [← hrest] at hmoved
    obtain ⟨first, hfirst, hle'⟩ := ih hmoved
    refine ⟨l.takeWhile (· ≠ a) :: first, ?_, ?_⟩
    · have hmem : a ∈ l := by rw [hl]; exact List.mem_append_cons_self
      rw [← hl, greedy, if_pos hmem, hfirst]
      rfl
    · have hsum := congrArg (fun l => (l.map weight).sum) hgap
      simp only [List.map_append, List.map_cons, List.map_nil, List.sum_append, List.sum_cons,
        List.sum_nil] at hsum
      rw [gapWeight_cons, gapWeight_cons]
      omega

theorem greedy_isSome_iff : (greedy query l).isSome ↔ query.Sublist l := by
  constructor
  · intro h
    obtain ⟨gaps, h⟩ := Option.isSome_iff_exists.mp h
    exact (greedy_embeds h).sublist
  · intro h
    obtain ⟨gaps, h⟩ := embeds_of_sublist h
    obtain ⟨first, h, -⟩ := greedy_weight_le (fun _ => 0) h
    exact Option.isSome_iff_exists.mpr ⟨first, h⟩

end Greedy

end Strukt
