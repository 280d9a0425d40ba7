import Mathlib

/-!
# Finite trees as partial maps from paths

A tree is a partial map from paths to items, and only an item that is a branch has others below it.
The structure records this, so what is below a missing item is missing too (`lookup_append_none`).

* **Changes** (`create`, `replace`, `remove`, `move`): each has the condition that keeps the result
  a tree, which can be decided, and is read by its `lookup`.
* **Children** (`mem_children`): the names below a path.
* **Growth** (`Extends`): a tree that has all that another one has.
* **Loss** (`Carries`): a tree that has it too, but not all at its own path.
-/

namespace Strukt

/-- `paths` are the paths that may have an item. -/
structure PathTree (ν ι : Type) (branch : ι → Bool) where
  lookup : List ν → Option ι
  paths : List (List ν)
  finite : ∀ p, (lookup p).isSome = true → p ∈ paths
  root : (lookup []).any branch = true
  below : ∀ p n, (lookup (p ++ [n])).isSome = true → (lookup p).any branch = true

namespace PathTree

variable {ν ι : Type} {branch : ι → Bool} {t t' : PathTree ν ι branch} {p q r : List ν} {n : ν}

def isBranch (t : PathTree ν ι branch) (p : List ν) : Bool := (t.lookup p).any branch

theorem isSome_of_isBranch (h : t.isBranch p = true) : (t.lookup p).isSome = true := by
  unfold isBranch at h
  cases ht : t.lookup p with
  | none =>
    rw [ht] at h
    cases h
  | some i => rfl

theorem isBranch_of_cons (h : (t.lookup (p ++ n :: q)).isSome = true) : t.isBranch p = true := by
  induction q using List.reverseRecOn with
  | nil => exact t.below p n h
  | append_singleton q m ih =>
    refine ih (isSome_of_isBranch (t.below _ m ?_))
    rwa [List.append_assoc, List.cons_append]

theorem lookup_append_none (h : t.lookup p = none) (q : List ν) : t.lookup (p ++ q) = none := by
  cases q with
  | nil => rwa [List.append_nil]
  | cons n q =>
    by_contra hne
    have hb := isSome_of_isBranch (isBranch_of_cons (Option.isSome_iff_ne_none.mpr hne))
    rw [h] at hb
    cases hb

theorem lookup_none_below (h : t.lookup p = none) (hq : p <+: q) : t.lookup q = none := by
  obtain ⟨rest, rfl⟩ := hq
  exact lookup_append_none h rest

/-- All that `t` has. -/
def Extends (t t' : PathTree ν ι branch) : Prop := ∀ p i, t.lookup p = some i → t'.lookup p = some i

theorem Extends.isBranch (h : Extends t t') (hp : t.isBranch p = true) : t'.isBranch p = true := by
  obtain ⟨i, hi⟩ := Option.isSome_iff_exists.mp (isSome_of_isBranch hp)
  unfold PathTree.isBranch at *
  rw [h p i hi, ← hi]
  exact hp

/-- All that `t` has stands in `t'` at some path, no two items at one. -/
def Carries (t t' : PathTree ν ι branch) : Prop :=
  ∃ f : List ν → List ν, (∀ p i, t.lookup p = some i → t'.lookup (f p) = some i) ∧
    ∀ p q, (t.lookup p).isSome = true → (t.lookup q).isSome = true → f p = f q → p = q

theorem Extends.carries (h : Extends t t') : Carries t t' := ⟨id, h, fun _ _ _ _ he => he⟩

theorem Carries.trans {t'' : PathTree ν ι branch} (h : Carries t t') (h' : Carries t' t'') :
    Carries t t'' := by
  obtain ⟨f, hf, hinj⟩ := h
  obtain ⟨g, hg, hinj'⟩ := h'
  have hsome : ∀ p, (t.lookup p).isSome = true → (t'.lookup (f p)).isSome = true := by
    intro p hp
    obtain ⟨i, hi⟩ := Option.isSome_iff_exists.mp hp
    rw [hf p i hi]
    rfl
  exact ⟨g ∘ f, fun p i hp => hg _ i (hf p i hp), fun p q hp hq he =>
    hinj p q hp hq (hinj' _ _ (hsome p hp) (hsome q hq) he)⟩

variable [DecidableEq ν]

/-! ## Children -/

def children (t : PathTree ν ι branch) (p : List ν) : List ν :=
  (t.paths.filterMap fun q =>
    if q.dropLast = p ∧ (t.lookup q).isSome then q.getLast? else none).dedup

theorem mem_children : n ∈ t.children p ↔ (t.lookup (p ++ [n])).isSome = true := by
  unfold children
  rw [List.mem_dedup, List.mem_filterMap]
  constructor
  · rintro ⟨q, -, hq⟩
    split at hq
    · rename_i h
      obtain ⟨rfl, hsome⟩ := h
      rwa [List.dropLast_append_getLast? n hq]
    · cases hq
  · intro h
    refine ⟨p ++ [n], t.finite _ h, ?_⟩
    rw [if_pos ⟨List.dropLast_concat, h⟩, List.getLast?_concat]

theorem nodup_children : (t.children p).Nodup := List.nodup_dedup _

/-! ## Changes -/

/-- There is room for an item at the path. -/
def Admits (t : PathTree ν ι branch) (p : List ν) : Prop :=
  p ≠ [] ∧ t.lookup p = none ∧ t.isBranch p.dropLast = true

instance : Decidable (t.Admits p) := inferInstanceAs (Decidable (_ ∧ _))

/-- The item at the path is a branch exactly if the new one is. -/
def Replaces (t : PathTree ν ι branch) (p : List ν) (i : ι) : Prop :=
  (t.lookup p).map branch = some (branch i)

instance {i : ι} : Decidable (t.Replaces p i) := inferInstanceAs (Decidable (_ = _))

/-- There is something to move, and room for it. -/
def Moves (t : PathTree ν ι branch) (p q : List ν) : Prop :=
  (t.lookup p).isSome = true ∧ t.Admits q ∧ p ≠ [] ∧ ¬p <+: q

instance : Decidable (t.Moves p q) := inferInstanceAs (Decidable (_ ∧ _))

def create (t : PathTree ν ι branch) (p : List ν) (i : ι) (h : t.Admits p) :
    PathTree ν ι branch where
  lookup q := if q = p then some i else t.lookup q
  paths := p :: t.paths
  finite q hq := by
    split at hq
    · rename_i heq
      exact heq ▸ List.mem_cons_self
    · exact List.mem_cons_of_mem _ (t.finite q hq)
  root := by
    rw [if_neg h.1.symm]
    exact t.root
  below q n hq := by
    have hb : t.isBranch q = true := by
      split at hq
      · rename_i heq
        have hparent := h.2.2
        rwa [← heq, List.dropLast_concat] at hparent
      · exact t.below q n hq
    rw [if_neg]
    · exact hb
    · rintro rfl
      exact absurd (isSome_of_isBranch hb) (by rw [h.2.1]; simp)

theorem map_branch_of_replaces {i : ι} (h : t.Replaces p i) (q : List ν) :
    (if q = p then some i else t.lookup q).map branch = (t.lookup q).map branch := by
  split
  · rename_i heq
    rw [heq, h, Option.map_some]
  · rfl

theorem any_eq_of_map {a b : Option ι} (h : a.map branch = b.map branch) :
    a.any branch = b.any branch ∧ a.isSome = b.isSome := by
  rw [← Option.isSome_map (f := branch), h, Option.isSome_map]
  refine ⟨?_, rfl⟩
  cases a <;> cases b <;> simp_all

def replace (t : PathTree ν ι branch) (p : List ν) (i : ι) (h : t.Replaces p i) :
    PathTree ν ι branch where
  lookup q := if q = p then some i else t.lookup q
  paths := t.paths
  finite q hq := t.finite q ((any_eq_of_map (map_branch_of_replaces h q)).2 ▸ hq)
  root := (any_eq_of_map (map_branch_of_replaces h [])).1.trans t.root
  below q n hq := by
    rw [(any_eq_of_map (map_branch_of_replaces h _)).2] at hq
    exact (any_eq_of_map (map_branch_of_replaces h q)).1.trans (t.below q n hq)

def remove (t : PathTree ν ι branch) (p : List ν) (h : p ≠ []) : PathTree ν ι branch where
  lookup q := if p <+: q then none else t.lookup q
  paths := t.paths
  finite q hq := by
    split at hq
    · cases hq
    · exact t.finite q hq
  root := by
    rw [if_neg fun hp => h (List.prefix_nil.mp hp)]
    exact t.root
  below q n hq := by
    split at hq
    · cases hq
    · rename_i hno
      rw [if_neg fun hp => hno (hp.trans (List.prefix_append q [n]))]
      exact t.below q n hq

def move (t : PathTree ν ι branch) (p q : List ν) (h : t.Moves p q) : PathTree ν ι branch where
  lookup r :=
    if q <+: r then t.lookup (p ++ r.drop q.length)
    else if p <+: r then none
    else t.lookup r
  paths := t.paths.map (fun r => q ++ r.drop p.length) ++ t.paths
  finite r hr := by
    split at hr
    · rename_i hq
      obtain ⟨rest, rfl⟩ := hq
      rw [List.drop_left] at hr
      refine List.mem_append_left _ (List.mem_map.mpr ⟨_, t.finite _ hr, ?_⟩)
      rw [List.drop_left]
    · split at hr
      · cases hr
      · exact List.mem_append_right _ (t.finite r hr)
  root := by
    rw [if_neg fun hq => h.2.1.1 (List.prefix_nil.mp hq),
      if_neg fun hp => h.2.2.1 (List.prefix_nil.mp hp)]
    exact t.root
  below r n hr := by
    by_cases hq : q <+: r
    · rw [if_pos (hq.trans (List.prefix_append r [n]))] at hr
      rw [if_pos hq]
      obtain ⟨rest, rfl⟩ := hq
      rw [List.append_assoc, List.drop_left, ← List.append_assoc] at hr
      rw [List.drop_left]
      exact t.below _ n hr
    · rw [if_neg hq]
      -- What is above the moved items is a branch, and stays where it is.
      have hb : t.isBranch r = true ∧ ¬p <+: r := by
        split at hr
        · rename_i hqr
          obtain rfl := (List.prefix_concat_iff.mp hqr).resolve_right hq
          have hparent := h.2.1.2.2
          rw [List.dropLast_concat] at hparent
          exact ⟨hparent, fun hp => h.2.2.2 (hp.trans (List.prefix_append r [n]))⟩
        · split at hr
          · cases hr
          · rename_i hpr
            exact ⟨t.below r n hr, fun hp => hpr (hp.trans (List.prefix_append r [n]))⟩
      rw [if_neg hb.2]
      exact hb.1

@[simp] theorem lookup_create {i : ι} {h : t.Admits p} :
    (t.create p i h).lookup q = if q = p then some i else t.lookup q := rfl

@[simp] theorem lookup_replace {i : ι} {h : t.Replaces p i} :
    (t.replace p i h).lookup q = if q = p then some i else t.lookup q := rfl

@[simp] theorem lookup_remove {h : p ≠ []} :
    (t.remove p h).lookup q = if p <+: q then none else t.lookup q := rfl

@[simp] theorem lookup_move {h : t.Moves p q} : (t.move p q h).lookup r =
    if q <+: r then t.lookup (p ++ r.drop q.length)
    else if p <+: r then none else t.lookup r := rfl

/-- A move to where nothing is. -/
theorem carries_of_moved (hq : t.lookup q = none) (h : ∀ r, t'.lookup r =
    if q <+: r then t.lookup (p ++ r.drop q.length) else if p <+: r then none else t.lookup r) :
    Carries t t' := by
  have hfree : ∀ r, (t.lookup r).isSome = true → ¬q <+: r := by
    intro r hr hqr
    rw [lookup_none_below hq hqr] at hr
    cases hr
  refine ⟨fun r => if p <+: r then q ++ r.drop p.length else r, fun r i hr => ?_,
    fun r r' hr hr' he => ?_⟩
  · dsimp only
    split
    · rename_i hp
      obtain ⟨rest, rfl⟩ := hp
      rw [h, List.drop_left, if_pos (List.prefix_append q rest), List.drop_left]
      exact hr
    · rename_i hp
      rw [h, if_neg (hfree r (hr ▸ rfl)), if_neg hp]
      exact hr
  · dsimp only at he
    split at he <;> split at he
    · rename_i hp hp'
      obtain ⟨rest, rfl⟩ := hp
      obtain ⟨rest', rfl⟩ := hp'
      rw [List.drop_left, List.drop_left, List.append_cancel_left_eq] at he
      rw [he]
    · exact absurd (he ▸ List.prefix_append q _) (hfree r' hr')
    · exact absurd (he ▸ List.prefix_append q _) (hfree r hr)
    · exact he

end PathTree

end Strukt
