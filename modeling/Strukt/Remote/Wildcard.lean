import Strukt.Lib.Glob

/-!
# Wildcards of include directives

`wildcardMatch` is the matcher of the file patterns of `Include`. It walks the pattern and the value
with two indices and goes back to the last star. It compares a byte of the pattern with the byte of
the value before it asks whether it is a star, so a star before the byte `*` takes just that byte.

* **Reference** (`Matches`): what a value that matches a pattern looks like. `takes` restricts what
  a star may take.
* **Termination**: a step back moves the saved position on, which is not after the current one
  (`Scan.saved`).
* **Exactness** (`wildcard_law`): the matcher accepts the values that match with no restriction
  exactly where they also match with each star taking no more than a `*` that it stands before.
-/

namespace Strukt.Remote

/-! ## The matcher -/

/-- The variables of the loop. -/
structure Scan where
  patternIndex : Nat
  valueIndex : Nat
  star : Option Nat
  starValue : Nat
  saved : starValue ≤ valueIndex

/-- The second loop: past the stars at `index`. -/
def skipStars (pattern : List UInt8) (index : Nat) : Nat :=
  if h : pattern[index]? = some 42 then
    have : index < pattern.length := (List.getElem?_eq_some_iff.mp h).1
    skipStars pattern (index + 1)
  else index
termination_by pattern.length - index

def scan (pattern value : List UInt8) (s : Scan) : Bool :=
  if hv : s.valueIndex < value.length then
    if pattern[s.patternIndex]?.any fun b => b = 63 ∨ b = value[s.valueIndex] then
      scan pattern value
        ⟨s.patternIndex + 1, s.valueIndex + 1, s.star, s.starValue, Nat.le_succ_of_le s.saved⟩
    else if hp : pattern[s.patternIndex]? = some 42 then
      have := (List.getElem?_eq_some_iff.mp hp).1
      scan pattern value
        ⟨s.patternIndex + 1, s.valueIndex, some s.patternIndex, s.valueIndex, Nat.le_refl _⟩
    else
      match s.star with
      | some star =>
        scan pattern value ⟨star + 1, s.starValue + 1, some star, s.starValue + 1, Nat.le_refl _⟩
      | none => false
  else skipStars pattern s.patternIndex = pattern.length
termination_by
  (value.length - s.starValue, value.length - s.valueIndex, pattern.length - s.patternIndex)
decreasing_by
  · exact Prod.Lex.right _ (Prod.Lex.left _ _ (by omega))
  · have := s.saved
    exact Prod.Lex.right' _ (Nat.sub_le_sub_left this _) (Prod.Lex.right _ (by omega))
  · have := s.saved
    exact Prod.Lex.left _ _ (by omega)

def wildcardMatch (pattern value : List UInt8) : Bool :=
  scan pattern value ⟨0, 0, none, 0, Nat.le_refl _⟩

/-! ## The reference -/

inductive Matches (takes : List UInt8 → List UInt8 → Prop) : List UInt8 → List UInt8 → Prop
  | nil : Matches takes [] []
  | any {b : UInt8} {p v : List UInt8} : Matches takes p v → Matches takes (63 :: p) (b :: v)
  | star {p part v : List UInt8} :
    takes part v → Matches takes p v → Matches takes (42 :: p) (part ++ v)
  | byte {b : UInt8} {p v : List UInt8} :
    b ≠ 42 → b ≠ 63 → Matches takes p v → Matches takes (b :: p) (b :: v)

def anything (_part _rest : List UInt8) : Prop := True

/-- A star before the byte `*` takes just that byte. -/
def justAStar (part rest : List UInt8) : Prop := (part ++ rest).head? = some 42 → part = [42]

theorem Matches.mono {takes takes' : List UInt8 → List UInt8 → Prop} {p v : List UInt8}
    (h : Matches takes p v) (ht : ∀ part rest, takes part rest → takes' part rest) :
    Matches takes' p v := by
  induction h with
  | nil => exact .nil
  | any _ ih => exact .any ih
  | star hpart _ ih => exact .star (ht _ _ hpart) ih
  | byte hs hq _ ih => exact .byte hs hq ih

/-! ## What the matcher decides -/

/-- The comparison of the first branch. -/
def hitsByte (b a : UInt8) : Bool := b = 63 ∨ b = a

def isStarByte (b : UInt8) : Bool := b = 42

open Glob

theorem accepts_iff {p v : List UInt8} :
    Accepts hitsByte isStarByte p v ↔ Matches justAStar p v := by
  constructor
  · intro h
    induction h with
    | nil => exact .nil
    | @hit x a p v hx _ ih =>
      rcases of_decide_eq_true hx with rfl | rfl
      · exact .any ih
      · by_cases hs : x = 42
        · subst hs
          have htakes : justAStar [42] v := fun _ => rfl
          exact .star htakes ih
        · by_cases hq : x = 63
          · subst hq
            exact .any ih
          · exact .byte hs hq ih
    | @star x p part v hs hhead _ ih =>
      obtain rfl := of_decide_eq_true hs
      refine .star (fun h => ?_) ih
      exact absurd (hhead 42 h) (by decide)
  · intro h
    induction h with
    | nil => exact .nil
    | any _ ih => exact .hit (by simp [hitsByte]) ih
    | @star p part v hpart _ ih =>
      by_cases hhead : (part ++ v).head? = some 42
      · obtain rfl := hpart hhead
        exact .hit (by decide) ih
      · refine .star (by decide) (fun a ha => ?_) ih
        have hne : (42 : UInt8) ≠ a := fun he => hhead (he ▸ ha)
        simp [hitsByte, hne]
    | byte _ _ _ ih => exact .hit (by simp [hitsByte]) ih

variable {pattern value : List UInt8}

theorem skipStars_eq {i : Nat} (hi : i ≤ pattern.length) :
    skipStars pattern i = pattern.length ↔ ∀ x ∈ pattern.drop i, isStarByte x = true := by
  induction i using skipStars.induct pattern with
  | case1 i h hlt ih =>
    rw [skipStars, dif_pos h, ih hlt, List.drop_eq_getElem_cons hlt, List.forall_mem_cons]
    obtain ⟨_, hb⟩ := List.getElem?_eq_some_iff.mp h
    rw [hb]
    exact (and_iff_right (by decide)).symm
  | case2 i h =>
    rw [skipStars, dif_neg h]
    constructor
    · rintro rfl
      simp
    · intro hall
      by_contra hne
      have hlt : i < pattern.length := by omega
      have hb := hall pattern[i] (by rw [List.drop_eq_getElem_cons hlt]; exact List.mem_cons_self)
      exact h (List.getElem?_eq_some_iff.mpr ⟨hlt, of_decide_eq_true hb⟩)

/-- The invariant of the loop: what the saved star could still take leaves the rest of the pattern
an end of what is left now. -/
structure Scan.Sound (pattern value : List UInt8) (s : Scan) : Prop where
  index : s.patternIndex ≤ pattern.length
  star : ∀ i ∈ s.star, i < pattern.length
  later : ∀ i ∈ s.star,
    Later hitsByte isStarByte (pattern.drop (i + 1)) (value.drop (s.starValue + 1)) →
      Later hitsByte isStarByte (pattern.drop s.patternIndex) (value.drop s.valueIndex)

theorem drop_of_get {i : Nat} {b : UInt8} (h : pattern[i]? = some b) :
    i < pattern.length ∧ pattern.drop i = b :: pattern.drop (i + 1) := by
  obtain ⟨hlt, rfl⟩ := List.getElem?_eq_some_iff.mp h
  exact ⟨hlt, List.drop_eq_getElem_cons hlt⟩

theorem later_suffix {p : List UInt8} {n : Nat}
    (h : Later hitsByte isStarByte p (value.drop (n + 1))) :
    Later hitsByte isStarByte p (value.drop n) :=
  later_drop.mpr (.inr h)

/-- An element that neither hits the byte nor is a star leaves the saved star alone. -/
theorem not_accepts_drop {i j : Nat} (hj : j < value.length)
    (hhit : ¬(pattern[i]?.any fun b => b = 63 ∨ b = value[j]) = true)
    (hstar : pattern[i]? ≠ some 42) :
    ¬Accepts hitsByte isStarByte (pattern.drop i) (value.drop j) := by
  rw [List.drop_eq_getElem_cons hj]
  rcases hb : pattern[i]? with _ | b
  · rw [List.drop_eq_nil_of_le (List.getElem?_eq_none_iff.mp hb), accepts_nil]
    exact List.cons_ne_nil _ _
  · rw [hb] at hhit hstar
    rw [(drop_of_get hb).2]
    refine not_accepts (decide_eq_false fun he => hstar (by rw [he])) ?_
    exact eq_false_of_ne_true hhit

/-- What the loop decides: the rest of the pattern accepts what is left of the value, or the saved
star takes more. -/
theorem scan_iff {s : Scan} (h : s.Sound pattern value) :
    scan pattern value s = true ↔
      Accepts hitsByte isStarByte (pattern.drop s.patternIndex) (value.drop s.valueIndex) ∨
        ∃ i ∈ s.star,
          Later hitsByte isStarByte (pattern.drop (i + 1)) (value.drop (s.starValue + 1)) := by
  induction s using scan.induct pattern value with
  | case1 s hv hhit ih =>
    obtain ⟨b, hb, hd⟩ := (Option.any_eq_true _ _).mp hhit
    have hd : hitsByte b value[s.valueIndex] = true := hd
    obtain ⟨hlt, hdrop⟩ := drop_of_get hb
    have hvalue := List.drop_eq_getElem_cons hv
    rw [scan, dif_pos hv, if_pos hhit, ih ⟨hlt, h.star, fun i hi hl => ?_⟩]
    · rw [hdrop, hvalue, accepts_hit hd]
    · have := h.later i hi hl
      rw [hdrop, hvalue] at this
      exact Later.hit this hd
  | case2 s hv hhit hp hlt ih =>
    obtain ⟨-, hdrop⟩ := drop_of_get hp
    have hhead : ∀ a ∈ (value.drop s.valueIndex).head?, hitsByte 42 a = false := by
      rw [hp] at hhit
      rw [List.drop_eq_getElem_cons hv]
      rintro a ⟨⟩
      exact eq_false_of_ne_true hhit
    rw [scan, dif_pos hv, if_neg hhit, dif_pos hp,
      ih ⟨hlt, fun i hi => by cases hi; exact hlt, fun i hi hl => by cases hi; exact later_suffix hl⟩]
    -- The new star takes whatever the last one could have left to it.
    rw [hdrop, accepts_star (by decide) hhead]
    simp only [Option.mem_def, Option.some.injEq, exists_eq_left', ← later_drop]
    refine (or_iff_left_of_imp ?_).symm
    rintro ⟨i, hi, hl⟩
    have := h.later i hi hl
    rw [hdrop] at this
    exact Later.next this
  | case3 s hv hhit hp star hs ih =>
    have hlt := h.star star hs
    rw [scan, dif_pos hv, if_neg hhit, dif_neg hp, hs]
    refine (ih ⟨hlt, fun i hi => by cases hi; exact hlt,
      fun i hi hl => by cases hi; exact later_suffix hl⟩).trans ?_
    simp only [Option.mem_def, Option.some.injEq, exists_eq_left', ← later_drop]
    exact (or_iff_right (not_accepts_drop hv hhit hp)).symm
  | case4 s hv hhit hp hs =>
    rw [scan, dif_pos hv, if_neg hhit, dif_neg hp, hs]
    simpa using not_accepts_drop hv hhit hp
  | case5 s hv =>
    have hnil : value.drop s.valueIndex = [] := List.drop_eq_nil_of_le (Nat.le_of_not_lt hv)
    rw [scan, dif_neg hv, decide_eq_true_iff, skipStars_eq h.index, ← accepts_end, hnil]
    refine (or_iff_left_of_imp ?_).symm
    rintro ⟨i, hi, hl⟩
    have := h.later i hi hl
    rw [hnil] at this
    exact later_nil.mp this

theorem wildcardMatch_iff :
    wildcardMatch pattern value = true ↔ Matches justAStar pattern value := by
  rw [wildcardMatch, scan_iff ⟨Nat.zero_le _, by simp, by simp⟩, ← accepts_iff]
  simp

/-! ## Exactness -/

/-- The matcher decides whether the value matches the pattern where a value that matches also does
so with no star taking more than a `*` that it stands before, and nowhere else. -/
theorem wildcard_law (pattern value : List UInt8) :
    (wildcardMatch pattern value = true ↔ Matches anything pattern value) ↔
      (Matches anything pattern value → Matches justAStar pattern value) := by
  rw [wildcardMatch_iff]
  constructor
  · exact fun h => h.mpr
  · exact fun h => ⟨fun hm => hm.mono fun _ _ _ => trivial, h⟩

/-- `*` does not match `*a`. -/
theorem star_before_star :
    ¬(wildcardMatch [42] [42, 97] = true ↔ Matches anything [42] [42, 97]) := by
  have hmatch : Matches anything [42] ([42, 97] ++ []) := .star trivial .nil
  intro h
  have := h.mpr hmatch
  simp [wildcardMatch, scan] at this

end Strukt.Remote
