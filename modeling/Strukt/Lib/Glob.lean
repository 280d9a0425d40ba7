import Mathlib

/-!
# Matching with one saved star

A pattern is a list of elements, of which some are stars. `hits x a` says that the element `x` takes
the symbol `a`, and where it does it is not used otherwise: a star takes a run of symbols only
before a symbol that it does not hit (`Accepts`). A matcher that keeps no alternative but the last
star it used decides this relation, by the rules here:
* **One element** (`accepts_hit`, `accepts_star`, `not_accepts`): what the next symbol makes of it.
* **Later ends** (`Later`): that the pattern accepts some end of the symbols. The next element
  leaves a later end to the rest (`Later.next`, `Later.hit`), so what a star before the last one
  could take, the last one can take too.
-/

namespace Strukt.Glob

variable {π α : Type} (hits : π → α → Bool) (isStar : π → Bool)

inductive Accepts : List π → List α → Prop
  | nil : Accepts [] []
  | hit {x : π} {a : α} {p : List π} {v : List α} :
    hits x a = true → Accepts p v → Accepts (x :: p) (a :: v)
  | star {x : π} {p : List π} {part v : List α} :
    isStar x = true → (∀ a ∈ (part ++ v).head?, hits x a = false) → Accepts p v →
      Accepts (x :: p) (part ++ v)

/-- The pattern accepts some end of the symbols. -/
def Later (p : List π) (v : List α) : Prop := ∃ w, w <:+ v ∧ Accepts hits isStar p w

variable {hits : π → α → Bool} {isStar : π → Bool} {x : π} {a : α} {p : List π} {v w : List α}

/-! ## One element -/

theorem accepts_nil : Accepts hits isStar [] v ↔ v = [] := by
  constructor
  · intro h
    cases h
    rfl
  · rintro rfl
    exact .nil

theorem accepts_hit (h : hits x a = true) :
    Accepts hits isStar (x :: p) (a :: v) ↔ Accepts hits isStar p v := by
  constructor
  · intro hacc
    generalize hv : a :: v = v' at hacc
    cases hacc with
    | hit _ hacc =>
      cases hv
      exact hacc
    | star _ hhead _ =>
      rw [← hv] at hhead
      exact absurd h (by rw [hhead a rfl]; exact Bool.false_ne_true)
  · exact .hit h

theorem accepts_star (hs : isStar x = true) (h : ∀ a ∈ v.head?, hits x a = false) :
    Accepts hits isStar (x :: p) v ↔ Later hits isStar p v := by
  constructor
  · intro hacc
    cases hacc with
    | hit hx _ => exact absurd hx (by rw [h _ rfl]; exact Bool.false_ne_true)
    | star _ _ hacc => exact ⟨_, List.suffix_append .., hacc⟩
  · rintro ⟨w, ⟨part, rfl⟩, hacc⟩
    exact .star hs h hacc

theorem not_accepts (hs : isStar x = false) (h : hits x a = false) :
    ¬Accepts hits isStar (x :: p) (a :: v) := by
  intro hacc
  generalize hv : a :: v = v' at hacc
  cases hacc with
  | hit hx _ =>
    cases hv
    exact absurd hx (by rw [h]; exact Bool.false_ne_true)
  | star hx _ _ => exact absurd hx (by rw [hs]; exact Bool.false_ne_true)

/-- Of nothing is left only what stars take. -/
theorem accepts_end : Accepts hits isStar p [] ↔ ∀ x ∈ p, isStar x = true := by
  induction p with
  | nil => simp [accepts_nil]
  | cons x p ih =>
    rw [List.forall_mem_cons, ← ih]
    constructor
    · intro hacc
      generalize hv : ([] : List α) = v at hacc
      cases hacc with
      | hit => cases hv
      | star hs _ hacc =>
        obtain ⟨rfl, rfl⟩ := List.append_eq_nil_iff.mp hv.symm
        exact ⟨hs, hacc⟩
    · rintro ⟨hs, hacc⟩
      have hhead : ∀ a ∈ ([] ++ [] : List α).head?, hits x a = false := by simp
      exact .star hs hhead hacc

/-! ## Later ends -/

theorem Accepts.later (h : Accepts hits isStar p v) : Later hits isStar p v :=
  ⟨v, List.suffix_refl v, h⟩

theorem Later.mono (h : Later hits isStar p w) (hw : w <:+ v) : Later hits isStar p v := by
  obtain ⟨u, hu, hacc⟩ := h
  exact ⟨u, hu.trans hw, hacc⟩

theorem later_cons :
    Later hits isStar p (a :: v) ↔ Accepts hits isStar p (a :: v) ∨ Later hits isStar p v := by
  constructor
  · rintro ⟨w, hw, hacc⟩
    rcases List.suffix_cons_iff.mp hw with rfl | hw
    · exact .inl hacc
    · exact .inr ⟨w, hw, hacc⟩
  · rintro (hacc | hlater)
    · exact hacc.later
    · exact hlater.mono (List.suffix_cons ..)

theorem later_nil : Later hits isStar p [] ↔ Accepts hits isStar p [] := by
  constructor
  · rintro ⟨w, hw, hacc⟩
    rw [List.suffix_nil] at hw
    exact hw ▸ hacc
  · exact Accepts.later

theorem later_drop {n : Nat} : Later hits isStar p (v.drop n) ↔
    Accepts hits isStar p (v.drop n) ∨ Later hits isStar p (v.drop (n + 1)) := by
  by_cases hn : n < v.length
  · rw [List.drop_eq_getElem_cons hn, later_cons]
  · rw [List.drop_eq_nil_of_le (by omega), List.drop_eq_nil_of_le (by omega), later_nil, or_self]

/-- What the first element takes leaves an end to the rest. -/
theorem Later.next (h : Later hits isStar (x :: p) v) : Later hits isStar p v := by
  obtain ⟨w, hw, hacc⟩ := h
  cases hacc with
  | hit _ hacc => exact hacc.later.mono ((List.suffix_cons ..).trans hw)
  | star _ _ hacc => exact hacc.later.mono ((List.suffix_append ..).trans hw)

/-- An element that hits the next symbol leaves an end after it. -/
theorem Later.hit (h : Later hits isStar (x :: p) (a :: v)) (hx : hits x a = true) :
    Later hits isStar p v := by
  rcases later_cons.mp h with hacc | hlater
  · exact ((accepts_hit hx).mp hacc).later
  · exact hlater.next

end Strukt.Glob
