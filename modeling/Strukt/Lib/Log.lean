import Mathlib

/-!
# Statements about the past of a log

A log is a list with its last entry at the end. An entry's past is what stands before it.

* **Each entry and its past** (`Each R`): every entry stands in `R` to the list before it. A log is
  extended entry by entry (`each_concat`) or by a block (`Each.append`).
* **Since** (`Since P Q`): an entry satisfies `P`, and all later ones `Q`.
* **Followed** (`Followed P Q`): an entry satisfies `P`, and some later one `Q`.
* **The latest value** (`latest f`): what `f` reads off the last entry it is defined on.
-/

namespace Strukt

variable {α β : Type} {l l' : List α} {x : α}

/-! ## Each entry -/

def Each (R : List α → α → Prop) (l : List α) : Prop :=
  ∀ pre x post, l = pre ++ x :: post → R pre x

section Each

variable {R : List α → α → Prop}

theorem each_nil : Each R [] := by
  intro pre x post h
  simp at h

theorem each_concat : Each R (l ++ [x]) ↔ Each R l ∧ R l x := by
  constructor
  · intro h
    refine ⟨fun pre y post hl => h pre y (post ++ [x]) ?_, h l x [] rfl⟩
    rw [hl, List.append_assoc, List.cons_append]
  · rintro ⟨h, hx⟩ pre y post hl
    rcases List.eq_nil_or_concat post with rfl | ⟨post', z, rfl⟩
    · obtain ⟨rfl, hyx⟩ := List.append_inj' hl rfl
      cases hyx
      exact hx
    · have hl' : l ++ [x] = (pre ++ y :: post') ++ [z] := by
        rw [hl, List.concat_eq_append, List.append_assoc, List.cons_append]
      exact h pre y post' (List.append_inj' hl' rfl).1

/-- A block of entries, each one in `R` to the log and the entries of the block before it. -/
theorem Each.append (h : Each R l) (h' : Each (fun pre x => R (l ++ pre) x) l') :
    Each R (l ++ l') := by
  induction l' using List.reverseRecOn with
  | nil => rwa [List.append_nil]
  | append_singleton l' x ih =>
    obtain ⟨hl', hx⟩ := each_concat.mp h'
    rw [← List.append_assoc]
    exact each_concat.mpr ⟨ih hl', hx⟩

theorem Each.left (h : Each R (l ++ l')) : Each R l := by
  intro pre x post hl
  exact h pre x (post ++ l') (by rw [hl, List.append_assoc, List.cons_append])

theorem each_of_forall (h : ∀ x ∈ l, ∀ pre, R pre x) : Each R l :=
  fun pre x _ hl => h x (by rw [hl]; simp) pre

end Each

/-! ## Since -/

def Since (P Q : α → Prop) (l : List α) : Prop :=
  ∃ pre x post, l = pre ++ x :: post ∧ P x ∧ ∀ y ∈ post, Q y

section Since

variable {P Q : α → Prop}

theorem Since.append (h : Since P Q l) (hQ : ∀ y ∈ l', Q y) : Since P Q (l ++ l') := by
  obtain ⟨pre, x, post, rfl, hx, hpost⟩ := h
  refine ⟨pre, x, post ++ l', by simp, hx, fun y hy => ?_⟩
  obtain hy | hy := List.mem_append.mp hy
  · exact hpost y hy
  · exact hQ y hy

theorem since_concat (h : P x) : Since P Q (l ++ [x]) := ⟨l, x, [], rfl, h, nofun⟩

theorem since_append :
    Since P Q (l ++ l') ↔ (Since P Q l ∧ ∀ y ∈ l', Q y) ∨ Since P Q l' := by
  constructor
  · rintro ⟨pre, x, post, heq, hx, hpost⟩
    obtain ⟨mid, rfl, hmid⟩ | ⟨mid, rfl, hmid⟩ := List.append_eq_append_iff.mp heq
    · exact .inr ⟨mid, x, post, hmid, hx, hpost⟩
    · cases mid with
      | nil =>
        refine .inr ⟨[], x, post, hmid.symm, hx, hpost⟩
      | cons y mid =>
        obtain ⟨rfl, rfl⟩ := List.cons.inj hmid
        refine .inl ⟨⟨pre, x, mid, rfl, hx, fun z hz => ?_⟩, fun z hz => ?_⟩
        · exact hpost z (List.mem_append_left _ hz)
        · exact hpost z (List.mem_append_right _ hz)
  · rintro (⟨h, hQ⟩ | ⟨pre, x, post, rfl, hx, hpost⟩)
    · exact h.append hQ
    · exact ⟨l ++ pre, x, post, (List.append_assoc ..).symm, hx, hpost⟩

/-- Among entries that all satisfy `Q`. -/
theorem since_of_forall (hQ : ∀ y ∈ l, Q y) : Since P Q l ↔ ∃ x ∈ l, P x := by
  constructor
  · rintro ⟨pre, x, post, rfl, hx, -⟩
    exact ⟨x, by simp, hx⟩
  · rintro ⟨x, hmem, hx⟩
    obtain ⟨pre, post, rfl⟩ := List.append_of_mem hmem
    exact ⟨pre, x, post, rfl, hx, fun y hy => hQ y (by simp [hy])⟩

end Since

/-! ## Followed -/

def Followed (P Q : α → Prop) (l : List α) : Prop :=
  ∃ pre x post, l = pre ++ x :: post ∧ P x ∧ ∃ y ∈ post, Q y

section Followed

variable {P Q : α → Prop}

theorem Followed.append (h : Followed P Q l) : Followed P Q (l ++ l') := by
  obtain ⟨pre, x, post, rfl, hx, y, hy, hQ⟩ := h
  exact ⟨pre, x, post ++ l', by simp, hx, y, List.mem_append_left _ hy, hQ⟩

theorem followed_concat {y : α} (h : x ∈ l) (hx : P x) (hy : Q y) : Followed P Q (l ++ [y]) := by
  obtain ⟨pre, post, rfl⟩ := List.append_of_mem h
  exact ⟨pre, x, post ++ [y], by simp, hx, y, by simp, hy⟩

end Followed

/-! ## The latest value -/

def latest (f : α → Option β) (l : List α) : Option β := l.reverse.findSome? f

variable {f : α → Option β}

theorem latest_append : latest f (l ++ l') = (latest f l').or (latest f l) := by
  simp [latest, List.findSome?_append]

/-- Entries on which `f` is not defined leave the latest value. -/
theorem latest_append_of_none (h : ∀ y ∈ l', f y = none) : latest f (l ++ l') = latest f l := by
  have hnone : latest f l' = none := by
    simpa [latest] using h
  rw [latest_append, hnone, Option.none_or]

theorem latest_concat {b : β} (h : f x = some b) : latest f (l ++ [x]) = some b := by
  simp [latest, h]

end Strukt
