import Mathlib

/-!
# Simultaneous edits of a sequence

A `Splice` puts items in the place of a range of a sequence. Several of them have their ranges in
one sequence, the one before any of them is made.

* `spliceAll` makes them one after the other, the last one first.
* `simultaneous` says what they are to give, position by position: what the splices that start there
  put in, then the item of the sequence, unless a splice covers it.
* `inverseFrom` is the list of splices that takes them back. Its ranges lie in the new sequence, so
  it carries the shift between the two along.

For splices in order and without overlap (`Ordered`), the first gives the second
(`spliceAll_eq_simultaneous`), and the inverse is in order, too, and gives the old sequence
(`spliceAll_inverse`). Both go through `spliceFrom`, one pass over the sequence from the left.
-/

namespace Strukt

structure Splice (α : Type) where
  start : Nat
  stop : Nat
  items : List α

namespace Splice

variable {α : Type}

def splice (e : Splice α) (l : List α) : List α := l.take e.start ++ e.items ++ l.drop e.stop

def spliceAll (es : List (Splice α)) (l : List α) : List α := es.foldr splice l

/-- What the splices put in at position `i`. -/
def insertedAt (es : List (Splice α)) (i : Nat) : List α :=
  (es.filter (·.start = i)).flatMap (·.items)

def Covered (es : List (Splice α)) (i : Nat) : Prop := ∃ e ∈ es, e.start ≤ i ∧ i < e.stop

instance (es : List (Splice α)) (i : Nat) : Decidable (Covered es i) :=
  inferInstanceAs (Decidable (∃ e ∈ es, e.start ≤ i ∧ i < e.stop))

/-- What becomes of position `i`. -/
def becomes (es : List (Splice α)) (l : List α) (i : Nat) : List α :=
  insertedAt es i ++ if Covered es i then [] else l[i]?.toList

def simultaneous (es : List (Splice α)) (l : List α) : List α :=
  (List.range' 0 (l.length + 1)).flatMap (becomes es l)

/-- The inverse splices, where the new sequence is ahead of the old one by `shift`. -/
def inverseFrom (l : List α) : Int → List (Splice α) → List (Splice α)
  | _, [] => []
  | shift, e :: es =>
    ⟨(e.start + shift).toNat, (e.start + shift).toNat + e.items.length,
        (l.drop e.start).take (e.stop - e.start)⟩ ::
      inverseFrom l (shift + e.items.length - (e.stop - e.start : Nat)) es

/-- In order from `pos` on, without overlap, within a sequence of `n` items. -/
def Ordered (n : Nat) : Nat → List (Splice α) → Prop
  | pos, [] => pos ≤ n
  | pos, e :: es => pos ≤ e.start ∧ e.start ≤ e.stop ∧ Ordered n e.stop es

/-- The splices on the part of a sequence from `pos` on. -/
def spliceFrom : Nat → List (Splice α) → List α → List α
  | _, [], l => l
  | pos, e :: es, l =>
    l.take (e.start - pos) ++ (e.items ++ spliceFrom e.stop es (l.drop (e.stop - pos)))

variable {n pos : Nat} {e : Splice α} {es : List (Splice α)} {l : List α}

theorem Ordered.le (h : Ordered n pos es) : pos ≤ n := by
  induction es generalizing pos with
  | nil => exact h
  | cons e es ih => exact h.1.trans (h.2.1.trans (ih h.2.2))

theorem Ordered.start_le (h : Ordered n pos es) : ∀ e ∈ es, pos ≤ e.start := by
  induction es generalizing pos with
  | nil => exact fun _ he => absurd he List.not_mem_nil
  | cons e es ih =>
    rw [List.forall_mem_cons]
    exact ⟨h.1, fun e' he => (h.1.trans h.2.1).trans (ih h.2.2 e' he)⟩

/-! ## One pass -/

theorem take_drop_append {i j : Nat} (h : i ≤ j) (l : List α) :
    (l.drop i).take (j - i) ++ l.drop j = l.drop i := by
  rw [show l.drop j = (l.drop i).drop (j - i) by rw [List.drop_drop, Nat.add_sub_cancel' h]]
  exact List.take_append_drop _ _

theorem spliceAll_eq_spliceFrom (h : Ordered l.length pos es) :
    spliceAll es l = l.take pos ++ spliceFrom pos es (l.drop pos) := by
  induction es generalizing pos with
  | nil => exact (List.take_append_drop pos l).symm
  | cons e es ih =>
    obtain ⟨hpos, hle, hes⟩ := h
    have hlen : (l.take e.stop).length = e.stop := List.length_take_of_le hes.le
    have hmid : l.take pos ++ (l.drop pos).take (e.start - pos) = l.take e.start := by
      rw [← List.take_add, Nat.add_sub_cancel' hpos]
    rw [spliceAll, List.foldr_cons, ← spliceAll, ih hes, splice, spliceFrom,
      List.take_append_of_le_length (by omega), List.take_take, Nat.min_eq_left hle,
      List.drop_append_of_le_length (by omega), List.drop_take, Nat.sub_self, List.take_zero,
      List.nil_append, List.drop_drop, Nat.add_sub_cancel' (hpos.trans hle), ← List.append_assoc,
      hmid, List.append_assoc]

/-- The inverse is in order from the new position on, and takes the pass back. -/
theorem spliceFrom_inverse {m : Nat} (h : Ordered l.length pos es) :
    Ordered (m + (spliceFrom pos es (l.drop pos)).length) m (inverseFrom l (m - pos) es) ∧
      spliceFrom m (inverseFrom l (m - pos) es) (spliceFrom pos es (l.drop pos)) = l.drop pos := by
  induction es generalizing pos m with
  | nil => exact ⟨Nat.le_add_right _ _, rfl⟩
  | cons e es ih =>
    obtain ⟨hpos, hle, hes⟩ := h
    have hstop := hes.le
    have hlen : ((l.drop pos).take (e.start - pos)).length = e.start - pos := by
      rw [List.length_take, List.length_drop]
      omega
    have hstart : ((e.start : Int) + (m - pos)).toNat = m + (e.start - pos) := by omega
    have hshift : ((m : Int) - pos + e.items.length - ((e.stop - e.start : Nat) : Int)) =
        (m + (e.start - pos) + e.items.length : Nat) - e.stop := by omega
    obtain ⟨hord, hback⟩ := ih hes (m := m + (e.start - pos) + e.items.length)
    rw [← hshift] at hord hback
    simp only [inverseFrom, spliceFrom, Ordered, hstart, List.drop_drop,
      Nat.add_sub_cancel' (hpos.trans hle)]
    generalize htail : spliceFrom e.stop es (l.drop e.stop) = tail at hord hback
    refine ⟨⟨Nat.le_add_right _ _, Nat.le_add_right _ _, ?_⟩, ?_⟩
    · rw [List.length_append, List.length_append, hlen]
      rwa [show m + (e.start - pos + (e.items.length + tail.length)) =
        m + (e.start - pos) + e.items.length + tail.length by omega]
    · have hleft : ((l.drop pos).take (e.start - pos) ++ (e.items ++ tail)).take
          (m + (e.start - pos) - m) = (l.drop pos).take (e.start - pos) := by
        rw [Nat.add_sub_cancel_left]
        exact List.take_left' hlen
      have hright : ((l.drop pos).take (e.start - pos) ++ (e.items ++ tail)).drop
          (m + (e.start - pos) + e.items.length - m) = tail := by
        rw [← List.append_assoc]
        refine List.drop_left' ?_
        rw [List.length_append, hlen]
        omega
      rw [hleft, hright, hback, take_drop_append hle, take_drop_append hpos]

/-! ## Position by position -/

theorem insertedAt_cons {i : Nat} :
    insertedAt (e :: es) i = (if e.start = i then e.items else []) ++ insertedAt es i := by
  unfold insertedAt
  by_cases h : e.start = i <;> simp [h]

theorem insertedAt_nil_of_lt {i : Nat} (h : Ordered n pos es) (hi : i < pos) :
    insertedAt es i = [] := by
  unfold insertedAt
  rw [List.flatMap_eq_nil_iff]
  intro e he
  obtain ⟨he, hs⟩ := List.mem_filter.mp he
  have := h.start_le e he
  have := of_decide_eq_true hs
  omega

theorem not_covered_of_lt {i : Nat} (h : Ordered n pos es) (hi : i < pos) : ¬Covered es i := by
  rintro ⟨e, he, hs, -⟩
  have := h.start_le e he
  omega

theorem becomes_nil {i : Nat} : becomes [] l i = l[i]?.toList := by
  simp [becomes, insertedAt, Covered]

/-- Before the first splice, the sequence stays. -/
theorem becomes_of_lt {i : Nat} (h : Ordered n pos es) (hi : i < pos) :
    becomes es l i = l[i]?.toList := by
  rw [becomes, insertedAt_nil_of_lt h hi, if_neg (not_covered_of_lt h hi), List.nil_append]

/-- Behind a splice, the others say what becomes of a position. -/
theorem becomes_cons_of_le {i : Nat} (hi : e.stop ≤ i) :
    becomes (e :: es) l i = (if e.start = i then e.items else []) ++ becomes es l i := by
  have hc : Covered (e :: es) i ↔ Covered es i := by
    unfold Covered
    rw [List.exists_mem_cons_iff]
    exact or_iff_right fun h => by omega
  rw [becomes, becomes, insertedAt_cons, List.append_assoc, if_congr hc rfl rfl]

theorem flatMap_items (k : Nat) : ((List.range' pos k).flatMap fun i => l[i]?.toList) =
    (l.drop pos).take k := by
  induction k generalizing pos with
  | zero => rw [List.take_zero]; rfl
  | succ k ih =>
    rw [List.range'_succ, List.flatMap_cons, ih]
    by_cases h : pos < l.length
    · rw [List.getElem?_eq_getElem h, List.drop_eq_getElem_cons h, List.take_succ_cons]
      rfl
    · rw [List.getElem?_eq_none (not_lt.mp h), List.drop_of_length_le (by omega),
        List.drop_of_length_le (by omega), List.take_nil, List.take_nil]
      rfl

theorem flatMap_range'_congr {f g : Nat → List α} {k : Nat}
    (h : ∀ i, pos ≤ i → i < pos + k → f i = g i) :
    (List.range' pos k).flatMap f = (List.range' pos k).flatMap g := by
  refine List.flatMap_congr fun i hi => ?_
  obtain ⟨h₁, h₂⟩ := List.mem_range'_1.mp hi
  exact h i h₁ h₂

/-- A splice puts its items in the place of its range. -/
theorem flatMap_becomes_cons (hle : e.start ≤ e.stop) (h : Ordered l.length e.stop es) :
    (List.range' e.start (l.length + 1 - e.start)).flatMap (becomes (e :: es) l) =
      e.items ++ (List.range' e.stop (l.length + 1 - e.stop)).flatMap (becomes es l) := by
  have hstop := h.le
  by_cases heq : e.start = e.stop
  · -- An insertion: the position stays, behind the items.
    rw [heq, show l.length + 1 - e.stop = (l.length - e.stop) + 1 by omega, List.range'_succ,
      List.flatMap_cons, List.flatMap_cons, becomes_cons_of_le le_rfl, if_pos heq,
      List.append_assoc]
    congr 2
    refine flatMap_range'_congr fun i hi _ => ?_
    rw [becomes_cons_of_le (by omega), if_neg (by omega), List.nil_append]
  · have hfirst : becomes (e :: es) l e.start = e.items := by
      have hc : Covered (e :: es) e.start := ⟨e, List.mem_cons_self, le_rfl, by omega⟩
      rw [becomes, insertedAt_cons, if_pos rfl, insertedAt_nil_of_lt h (by omega), if_pos hc,
        List.append_nil, List.append_nil]
    have hmid : ∀ i, e.start + 1 ≤ i → i < e.stop → becomes (e :: es) l i = [] := by
      intro i hi hlt
      have hc : Covered (e :: es) i := ⟨e, List.mem_cons_self, by omega, hlt⟩
      rw [becomes, insertedAt_cons, if_neg (by omega), insertedAt_nil_of_lt h hlt, if_pos hc]
      rfl
    have hlast : ∀ i, e.stop ≤ i → becomes (e :: es) l i = becomes es l i := by
      intro i hi
      rw [becomes_cons_of_le hi, if_neg (by omega), List.nil_append]
    rw [show l.length + 1 - e.start = (e.stop - (e.start + 1)) + (l.length + 1 - e.stop) + 1 by omega,
      List.range'_succ, List.flatMap_cons, hfirst, ← List.range'_append_1, List.flatMap_append,
      show e.start + 1 + (e.stop - (e.start + 1)) = e.stop by omega,
      flatMap_range'_congr (g := fun _ => []) fun i hi hlt => hmid i hi (by omega),
      flatMap_range'_congr fun i hi _ => hlast i hi]
    simp

theorem spliceFrom_eq_becomes (h : Ordered l.length pos es) :
    spliceFrom pos es (l.drop pos) =
      (List.range' pos (l.length + 1 - pos)).flatMap (becomes es l) := by
  induction es generalizing pos with
  | nil =>
    rw [spliceFrom, flatMap_range'_congr fun i _ _ => becomes_nil (l := l), flatMap_items]
    exact (List.take_of_length_le (by rw [List.length_drop]; omega)).symm
  | cons e es ih =>
    obtain ⟨hpos, hle, hes⟩ := h
    have hstop := hes.le
    rw [spliceFrom, List.drop_drop, Nat.add_sub_cancel' (hpos.trans hle), ih hes,
      ← flatMap_becomes_cons hle hes,
      show l.length + 1 - pos = (e.start - pos) + (l.length + 1 - e.start) by omega,
      ← List.range'_append_1, List.flatMap_append, Nat.add_sub_cancel' hpos]
    congr 1
    have hall : Ordered l.length e.start (e :: es) := ⟨le_rfl, hle, hes⟩
    rw [flatMap_range'_congr fun i _ hi => becomes_of_lt hall (by omega), flatMap_items]

/-! ## The results -/

theorem spliceAll_eq_simultaneous (h : Ordered l.length 0 es) :
    spliceAll es l = simultaneous es l := by
  rw [spliceAll_eq_spliceFrom h, simultaneous, List.take_zero, List.nil_append,
    spliceFrom_eq_becomes h, Nat.sub_zero]

/-- The inverse is in order, within the new sequence, and gives the old one. -/
theorem spliceAll_inverse (h : Ordered l.length 0 es) :
    Ordered (spliceAll es l).length 0 (inverseFrom l 0 es) ∧
      spliceAll (inverseFrom l 0 es) (spliceAll es l) = l := by
  have hnew : spliceAll es l = spliceFrom 0 es (l.drop 0) := by
    rw [spliceAll_eq_spliceFrom h, List.take_zero, List.nil_append]
  obtain ⟨hord, hback⟩ := spliceFrom_inverse (m := 0) h
  rw [Nat.cast_zero, sub_self, Nat.zero_add, ← hnew] at hord
  rw [Nat.cast_zero, sub_self, ← hnew] at hback
  refine ⟨hord, ?_⟩
  rw [spliceAll_eq_spliceFrom hord, List.take_zero, List.nil_append, List.drop_zero, hback]
  rfl

end Splice
end Strukt
