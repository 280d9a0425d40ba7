import Mathlib

/-!
# Columns

An item of a list may be `width` units wide. `column` counts the units before an item; where each
item has some width, it grows with every item, so that a column tells at which item it is.
-/

namespace Strukt

variable {α : Type} {width : α → Nat} {l : List α} {m n : Nat}

/-- The units before the item `n`. -/
def column (width : α → Nat) (l : List α) (n : Nat) : Nat := ((l.take n).map width).sum

@[simp] theorem column_zero : column width l 0 = 0 := rfl

@[simp] theorem column_nil : column width [] n = 0 := by
  unfold column
  rw [List.take_nil]
  rfl

@[simp] theorem column_cons_succ (a : α) :
    column width (a :: l) (n + 1) = width a + column width l n := rfl

/-- Each item has some width. -/
theorem column_strictMono (h : ∀ a, 0 < width a) (hmn : m < n) (hn : n ≤ l.length) :
    column width l m < column width l n := by
  induction l generalizing m n with
  | nil =>
    rw [List.length_nil] at hn
    omega
  | cons a l ih =>
    obtain ⟨n, rfl⟩ := Nat.exists_eq_add_of_lt (Nat.zero_lt_of_lt hmn)
    rw [Nat.zero_add] at *
    rw [List.length_cons] at hn
    cases m with
    | zero =>
      have := h a
      rw [column_zero, column_cons_succ]
      omega
    | succ m =>
      have := ih (Nat.lt_of_succ_lt_succ hmn) (Nat.le_of_succ_le_succ hn)
      rw [column_cons_succ, column_cons_succ]
      omega

theorem column_lt_iff (h : ∀ a, 0 < width a) (hm : m ≤ l.length) (hn : n ≤ l.length) :
    column width l m < column width l n ↔ m < n := by
  refine ⟨fun hlt => ?_, fun hlt => column_strictMono h hlt hn⟩
  by_contra hle
  obtain hlt' | rfl := Nat.lt_or_eq_of_le (Nat.le_of_not_lt hle)
  · have := column_strictMono h hlt' hm
    omega
  · exact absurd hlt (Nat.lt_irrefl _)

theorem le_column (h : ∀ a, 0 < width a) (hn : n ≤ l.length) : n ≤ column width l n := by
  induction l generalizing n with
  | nil => exact Nat.le_trans hn (Nat.zero_le _)
  | cons a l ih =>
    cases n with
    | zero => exact Nat.zero_le _
    | succ n =>
      have := h a
      have := ih (Nat.le_of_succ_le_succ hn)
      rw [column_cons_succ]
      omega

/-- Between two items that follow each other there is no third. -/
theorem column_ne_of_between (h : ∀ a, 0 < width a) (hn : n < l.length) {target : Nat}
    (hlo : column width l n < target) (hhi : target < column width l (n + 1)) :
    ∀ k ≤ l.length, column width l k ≠ target := by
  rintro k hk rfl
  have := (column_lt_iff h (Nat.le_of_lt hn) hk).mp hlo
  have := (column_lt_iff h hk hn).mp hhi
  omega

theorem column_replicate (a : α) {k : Nat} (hn : n ≤ k) :
    column width (List.replicate k a) n = n * width a := by
  unfold column
  rw [List.take_replicate, Nat.min_eq_left hn, List.map_replicate, List.sum_replicate, smul_eq_mul]

end Strukt
