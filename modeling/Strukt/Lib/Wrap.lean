import Mathlib

/-!
# Greedy wrapping

Items of given sizes are placed one after the other on lines of a given width; one that does not
fit on the rest of its line starts the next one.

* **Order** (`wrap_flatten`): the lines hold the items, each one once and in their order.
* **Width** (`wrap_fits`): no line is wider than the width, where no item is.
* **Drawing** (`flatMap_eq_iff`): two drawings of the same items, each item as long in one as in
  the other, agree exactly if they agree on each item.
-/

namespace Strukt

variable {α β : Type}

/-- The width of a line. -/
def lineWidth (size : α → Nat) (line : List α) : Nat := (line.map size).sum

@[simp] theorem lineWidth_nil (size : α → Nat) : lineWidth size [] = 0 := rfl

@[simp] theorem lineWidth_append (size : α → Nat) (line line' : List α) :
    lineWidth size (line ++ line') = lineWidth size line + lineWidth size line' := by
  simp [lineWidth]

@[simp] theorem lineWidth_singleton (size : α → Nat) (item : α) :
    lineWidth size [item] = size item := by
  simp [lineWidth]

/-- The lines of the items that follow on `line`. -/
def wrap (size : α → Nat) (width : Nat) : List α → List α → List (List α)
  | line, [] => [line]
  | line, item :: rest =>
    if lineWidth size line + size item ≤ width then wrap size width (line ++ [item]) rest
    else line :: wrap size width [item] rest

variable {size : α → Nat} {width : Nat} {line items : List α}

theorem wrap_flatten (size : α → Nat) (width : Nat) (line items : List α) :
    (wrap size width line items).flatten = line ++ items := by
  fun_induction wrap size width line items with
  | case1 line => simp
  | case2 line item rest hfit ih => rw [ih, List.append_assoc, List.singleton_append]
  | case3 line item rest hfit ih => rw [List.flatten_cons, ih, List.singleton_append]

theorem wrap_fits (hline : lineWidth size line ≤ width)
    (hitems : ∀ item ∈ items, size item ≤ width) :
    ∀ l ∈ wrap size width line items, lineWidth size l ≤ width := by
  fun_induction wrap size width line items with
  | case1 line =>
    intro l hl
    rw [List.mem_singleton.mp hl]
    exact hline
  | case2 line item rest hfit ih =>
    refine ih ?_ (List.forall_mem_cons.mp hitems).2
    rw [lineWidth_append, lineWidth_singleton]
    exact hfit
  | case3 line item rest hfit ih =>
    obtain ⟨hitem, hrest⟩ := List.forall_mem_cons.mp hitems
    refine List.forall_mem_cons.mpr ⟨hline, ih ?_ hrest⟩
    rw [lineWidth_singleton]
    exact hitem

/-- Two drawings of the same items. -/
theorem flatMap_eq_iff {f g : α → List β} (h : ∀ a ∈ items, (f a).length = (g a).length) :
    items.flatMap f = items.flatMap g ↔ ∀ a ∈ items, f a = g a := by
  induction items with
  | nil => simp
  | cons a rest ih =>
    obtain ⟨ha, hrest⟩ := List.forall_mem_cons.mp h
    rw [List.flatMap_cons, List.flatMap_cons, List.forall_mem_cons, ← ih hrest]
    exact ⟨fun he => List.append_inj he ha, fun he => by rw [he.1, he.2]⟩

theorem length_flatMap_eq {f : α → List β} (h : ∀ a ∈ items, (f a).length = size a) :
    (items.flatMap f).length = lineWidth size items := by
  rw [List.length_flatMap, lineWidth, List.map_congr_left h]

end Strukt
