import Mathlib

/-!
# Closing a set of nodes under a relation

A search visits nodes one after the other and marks them by name: two nodes with one name are one.

* **Folds** (`foldl_grows`): what each step establishes about its element (`D`) and the growth of
  the state (`R`) does not undo holds of all elements after a fold.
* **Closed sets** (`Reached.seen`): a set that has the roots and whatever follows its members has,
  up to names, what is reached from the roots.
-/

namespace Strukt

variable {ν κ σ α : Type}

theorem foldl_grows {I : σ → Prop} {R : σ → σ → Prop} {D : α → σ → Prop} {f : σ → α → σ}
    {l : List α} (refl : ∀ s, R s s) (trans : ∀ a b c, R a b → R b c → R a c)
    (mono : ∀ a s s', R s s' → D a s → D a s')
    (step : ∀ s, I s → ∀ a ∈ l, I (f s a) ∧ R s (f s a) ∧ D a (f s a)) {s : σ} (hs : I s) :
    I (l.foldl f s) ∧ R s (l.foldl f s) ∧ ∀ a ∈ l, D a (l.foldl f s) := by
  induction l generalizing s with
  | nil => exact ⟨hs, refl s, fun a ha => absurd ha List.not_mem_nil⟩
  | cons b l ih =>
    obtain ⟨hb, hR, hD⟩ := step s hs b List.mem_cons_self
    obtain ⟨hl, hmore, hrest⟩ := ih (fun s hs a ha => step s hs a (List.mem_cons_of_mem _ ha)) hb
    rw [List.foldl_cons]
    refine ⟨hl, trans _ _ _ hR hmore, fun a ha => ?_⟩
    rcases List.mem_cons.mp ha with rfl | ha
    · exact mono a _ _ hmore hD
    · exact hrest a ha

/-- What can be reached from the roots. -/
def Reached (next : ν → ν → Prop) (roots : List ν) (p : ν) : Prop :=
  ∃ root ∈ roots, Relation.ReflTransGen next root p

section Reached

variable {next next' : ν → ν → Prop} {roots : List ν} {p q : ν}

theorem Reached.root (h : p ∈ roots) : Reached next roots p := ⟨p, h, .refl⟩

theorem Reached.tail (h : Reached next roots p) (hq : next p q) : Reached next roots q := by
  obtain ⟨root, hroot, hp⟩ := h
  exact ⟨root, hroot, hp.tail hq⟩

/-- Nodes of one name have the same successors, so a set of nodes that is closed up to names has a
node for each that is reached. -/
theorem Reached.seen {name : ν → κ} {seen : List ν} (h : Reached next roots p)
    (hname : ∀ p q r, name p = name q → next p r → next q r)
    (hroots : ∀ root ∈ roots, name root ∈ seen.map name)
    (hclosed : ∀ p ∈ seen, ∀ q, next p q → name q ∈ seen.map name) : name p ∈ seen.map name := by
  obtain ⟨root, hroot, hp⟩ := h
  induction hp with
  | refl => exact hroots root hroot
  | tail _ hq ih =>
    obtain ⟨p', hp', hsame⟩ := List.mem_map.mp ih
    exact hclosed p' hp' _ (hname _ _ _ hsame.symm hq)

end Reached

end Strukt
