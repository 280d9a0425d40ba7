import Mathlib

/-!
# Texts in pieces

`splitOn a` cuts a list at each `a`, which is in no piece; `splitInclusive a` leaves each `a` at the
end of its piece and gives no empty last one. `split_induction` is the induction over the pieces.
`breakOn` cuts a list at the first place where a pattern is.
-/

namespace Strukt

variable {α : Type} [DecidableEq α] {a : α} {l xs : List α}

/-- A list without `a`, or a piece without `a`, then `a`, and a shorter list. -/
theorem split_induction {P : List α → Prop} (a : α) (last : ∀ l, a ∉ l → P l)
    (piece : ∀ l rest, a ∉ l → P rest → P (l ++ a :: rest)) (xs : List α) : P xs := by
  induction hn : xs.length using Nat.strong_induction_on generalizing xs with
  | _ n ih =>
    by_cases h : a ∈ xs
    · obtain ⟨l, rest, rfl, hl⟩ := List.eq_append_cons_of_mem h
      refine piece l rest hl (ih rest.length ?_ rest rfl)
      rw [← hn, List.length_append, List.length_cons]
      omega
    · exact last xs h

theorem not_mem_of_mem_splitOn : ∀ l ∈ xs.splitOn a, a ∉ l := by
  induction xs using split_induction a with
  | last l h =>
    rw [List.splitOn_eq_singleton h, List.forall_mem_singleton]
    exact h
  | piece l rest h ih =>
    rw [List.splitOn_append_cons_self_of_not_mem h, List.forall_mem_cons]
    exact ⟨h, ih⟩

theorem mem_iff_mem_splitOn {c : α} (hc : c ≠ a) : c ∈ xs ↔ ∃ l ∈ xs.splitOn a, c ∈ l := by
  induction xs using split_induction a with
  | last l h =>
    rw [List.splitOn_eq_singleton h]
    simp
  | piece l rest h ih =>
    rw [List.splitOn_append_cons_self_of_not_mem h, List.mem_append, List.mem_cons, ih]
    simp [hc]

/-! ## Pieces with their separators -/

def splitInclusive (a : α) : List α → List (List α)
  | [] => []
  | c :: rest =>
    if c = a then [c] :: splitInclusive a rest
    else match splitInclusive a rest with
      | [] => [[c]]
      | first :: pieces => (c :: first) :: pieces

theorem splitInclusive_cons (h : a ∉ l) (rest : List α) :
    splitInclusive a (l ++ a :: rest) = (l ++ [a]) :: splitInclusive a rest := by
  induction l with
  | nil => rw [List.nil_append, splitInclusive, if_pos rfl, List.nil_append]
  | cons c l ih =>
    rw [List.mem_cons, not_or] at h
    rw [List.cons_append, splitInclusive, if_neg (Ne.symm h.1), ih h.2]
    rfl

theorem splitInclusive_last (h : a ∉ l) (hl : l ≠ []) : splitInclusive a l = [l] := by
  induction l with
  | nil => exact absurd rfl hl
  | cons c l ih =>
    rw [List.mem_cons, not_or] at h
    rw [splitInclusive, if_neg (Ne.symm h.1)]
    cases l with
    | nil => rfl
    | cons d l => rw [ih h.2 (List.cons_ne_nil _ _)]

/-! ## At a pattern -/

/-- What is before the first occurrence of the pattern, and behind it. -/
def breakOn (pattern : List α) : List α → Option (List α × List α)
  | [] => if pattern = [] then some ([], []) else none
  | c :: l =>
    if pattern <+: c :: l then some ([], (c :: l).drop pattern.length)
    else (breakOn pattern l).map fun (before, rest) => (c :: before, rest)

variable {pattern before rest : List α}

theorem append_of_breakOn (h : breakOn pattern l = some (before, rest)) :
    l = before ++ (pattern ++ rest) := by
  induction l generalizing before with
  | nil =>
    rw [breakOn] at h
    split at h
    · next hp =>
      cases h
      rw [hp]
      rfl
    · cases h
  | cons c l ih =>
    rw [breakOn] at h
    split at h
    · next hp =>
      cases h
      obtain ⟨t, ht⟩ := hp
      rw [← ht, List.drop_left]
      rfl
    · obtain ⟨⟨before', rest'⟩, hrest, heq⟩ := Option.map_eq_some_iff.mp h
      cases heq
      rw [ih hrest]
      rfl

/-- It is the first. -/
theorem breakOn_first (h : breakOn pattern l = some (before, rest)) {x y : List α}
    (hl : l = x ++ (pattern ++ y)) : y <:+ rest := by
  induction l generalizing before x with
  | nil =>
    rw [eq_comm, List.append_eq_nil_iff, List.append_eq_nil_iff] at hl
    rw [hl.2.2]
    exact List.nil_suffix
  | cons c l ih =>
    rw [breakOn] at h
    split at h
    · cases h
      rw [hl]
      have hdrop : (x ++ (pattern ++ y)).drop pattern.length <:+ x ++ (pattern ++ y) :=
        List.drop_suffix ..
      refine List.suffix_of_suffix_length_le
        ((List.suffix_append pattern y).trans (List.suffix_append x _)) hdrop ?_
      rw [List.length_drop, List.length_append, List.length_append]
      omega
    · next hp =>
      obtain ⟨⟨before', rest'⟩, hrest, heq⟩ := Option.map_eq_some_iff.mp h
      cases heq
      cases x with
      | nil => exact absurd ⟨y, hl.symm⟩ hp
      | cons d x => exact ih hrest (List.cons_eq_cons.mp hl).2

theorem breakOn_isSome (h : pattern <:+: l) :
    ∃ before rest, breakOn pattern l = some (before, rest) := by
  induction l with
  | nil =>
    rw [List.infix_nil] at h
    exact ⟨[], [], if_pos h⟩
  | cons c l ih =>
    rw [breakOn]
    split
    · exact ⟨_, _, rfl⟩
    · next hp =>
      obtain ⟨before, rest, hrest⟩ := ih ((List.infix_cons_iff.mp h).resolve_left hp)
      rw [hrest]
      exact ⟨_, _, rfl⟩

end Strukt
