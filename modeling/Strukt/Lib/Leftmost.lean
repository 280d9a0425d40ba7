import Mathlib

/-!
# Leftmost occurrences

Things of length `k` may occur at any position, and overlap. `Leftmost` picks them from the left:
each pick is the first one behind the pick before it. The picks are apart (`Leftmost.apart`), and
what is not picked begins inside of a pick (`Leftmost.complete`). `leftmost` computes them.
-/

namespace Strukt

/-- The picks from the position `from` on. A thing without length takes up one position. -/
inductive Leftmost (occurs : Nat → Prop) (k : Nat) : Nat → List Nat → Prop
  | done {start : Nat} (h : ∀ s, start ≤ s → ¬occurs s) : Leftmost occurs k start []
  | next {start s : Nat} {rest : List Nat} (hs : occurs s) (hle : start ≤ s)
      (hleast : ∀ t, start ≤ t → occurs t → s ≤ t) (hrest : Leftmost occurs k (s + max k 1) rest) :
      Leftmost occurs k start (s :: rest)

namespace Leftmost

variable {occurs : Nat → Prop} {k start t : Nat} {picks : List Nat}

theorem start_le (h : Leftmost occurs k start picks) : ∀ s ∈ picks, start ≤ s := by
  induction h with
  | done h => exact nofun
  | next hs hle hleast hrest ih =>
    rw [List.forall_mem_cons]
    exact ⟨hle, fun t ht => by have := ih t ht; omega⟩

theorem occurs_of_mem (h : Leftmost occurs k start picks) : ∀ s ∈ picks, occurs s := by
  induction h with
  | done h => exact nofun
  | next hs hle hleast hrest ih =>
    rw [List.forall_mem_cons]
    exact ⟨hs, ih⟩

theorem apart (h : Leftmost occurs k start picks) :
    picks.Pairwise fun s t => s + max k 1 ≤ t := by
  induction h with
  | done h => exact .nil
  | next hs hle hleast hrest ih => exact List.pairwise_cons.mpr ⟨hrest.start_le, ih⟩

/-- What is not picked begins inside of an earlier pick. -/
theorem complete (h : Leftmost occurs k start picks) (ht : occurs t) (hle : start ≤ t) :
    t ∈ picks ∨ ∃ s ∈ picks, s < t ∧ t < s + k := by
  induction h with
  | done h => exact absurd ht (h t hle)
  | @next _ s _ hs hstart hleast hrest ih =>
    obtain rfl | hlt := Nat.eq_or_lt_of_le (hleast t hle ht)
    · exact .inl List.mem_cons_self
    · by_cases hin : t < s + k
      · exact .inr ⟨_, List.mem_cons_self, hlt, hin⟩
      · obtain hmem | ⟨s, hs, hst⟩ := ih (by omega)
        · exact .inl (List.mem_cons_of_mem _ hmem)
        · exact .inr ⟨s, List.mem_cons_of_mem _ hs, hst⟩

/-- The picks are those from an earlier position on, if nothing occurs in between. -/
theorem from_le (h : Leftmost occurs k start picks) {start' : Nat} (hle : start' ≤ start)
    (hno : ∀ t, start' ≤ t → occurs t → start ≤ t) : Leftmost occurs k start' picks := by
  cases h with
  | done h => exact .done fun t ht hocc => h t (hno t ht hocc) hocc
  | next hs hstart hleast hrest =>
    exact .next hs (hle.trans hstart) (fun t ht hocc => hleast t (hno t ht hocc) hocc) hrest

/-- There is one way to pick. -/
theorem unique {picks' : List Nat} (h : Leftmost occurs k start picks)
    (h' : Leftmost occurs k start picks') : picks = picks' := by
  induction h generalizing picks' with
  | done h =>
    cases h' with
    | done => rfl
    | next hs hle _ _ => exact absurd hs (h _ hle)
  | next hs hle hleast hrest ih =>
    cases h' with
    | done h => exact absurd hs (h _ hle)
    | next hs' hle' hleast' hrest' =>
      obtain rfl := Nat.le_antisymm (hleast _ hle' hs') (hleast' _ hle hs)
      rw [ih hrest']

end Leftmost

/-- The picks among `n` positions from `s` on, the first `skip` of which are taken up. -/
def leftmost (occurs : Nat → Bool) (k : Nat) : Nat → Nat → Nat → List Nat
  | _, _, 0 => []
  | skip + 1, s, n + 1 => leftmost occurs k skip (s + 1) n
  | 0, s, n + 1 =>
    if occurs s then s :: leftmost occurs k (max k 1 - 1) (s + 1) n
    else leftmost occurs k 0 (s + 1) n

/-- Where nothing occurs behind them, these are all. -/
theorem leftmost_spec (occurs : Nat → Bool) (k skip s : Nat) {n : Nat}
    (hend : ∀ t, s + n ≤ t → ¬occurs t) :
    Leftmost (occurs · = true) k (s + skip) (leftmost occurs k skip s n) := by
  induction n generalizing skip s with
  | zero =>
    unfold leftmost
    exact .done fun t ht => hend t (by omega)
  | succ n ih =>
    have ih (skip : Nat) := ih skip (s + 1) fun t ht => hend t (by omega)
    cases skip with
    | succ skip =>
      rw [leftmost, show s + (skip + 1) = s + 1 + skip by omega]
      exact ih skip
    | zero =>
      rw [leftmost]
      split
      · next hs =>
        refine .next hs (Nat.le_refl _) (fun t ht _ => ht) ?_
        rw [show s + max k 1 = s + 1 + (max k 1 - 1) by omega]
        exact ih _
      · next hs =>
        -- Not being there, it is as well to look from the next position on.
        have hne : ∀ t, s ≤ t → occurs t = true → s + 1 ≤ t := fun t ht hocc =>
          Nat.lt_of_le_of_ne ht fun heq => hs (heq ▸ hocc)
        exact (ih 0).from_le (Nat.le_succ s) hne

end Strukt
