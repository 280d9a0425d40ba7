import Strukt.Lib.Method

/-!
# What a method leaves alone

`Preserves f x`: however the method `x` ends, it leaves `f` of the state as it was. The rules follow
the combinators of `Method`, so that this is read off the text of a method; a method that loops has
it by the induction of its loop.
-/

namespace Strukt.Method

variable {σ τ υ ε ε' α β : Type}

/-- The method ends with `f` of the state as it was. -/
def Preserves (f : σ → υ) (x : Method σ ε α) : Prop :=
  ∀ s r s', x.exec s = some (r, s') → f s' = f s

section Preserving

variable {f : σ → υ} {x : Method σ ε α} {k : α → Method σ ε β}

theorem Preserves.wp (h : Preserves f x) (s : σ) :
    wp x (fun _ s' => f s' = f s) (fun _ s' => f s' = f s) True s :=
  wp_mono (wp_self x s) (fun _ s' hx => h s _ s' hx) (fun _ s' hx => h s _ s' hx)
    fun _ => trivial

theorem preserves_of_wp
    (h : ∀ s, Method.wp x (fun _ s' => f s' = f s) (fun _ s' => f s' = f s) True s) :
    Preserves f x :=
  fun s _ _ hx => (h s).state hx

theorem Preserves.wp_and (h : Preserves f x) {s : σ} {Q : α → σ → Prop} {E : ε → σ → Prop}
    {p : Prop} (hx : Method.wp x Q E p s) :
    Method.wp x (fun a s' => Q a s' ∧ f s' = f s) (fun e s' => E e s' ∧ f s' = f s) p s :=
  wp_mono (Method.wp_and hx (h.wp s)) (fun _ _ h => h) (fun _ _ h => h) And.left

theorem preserves_pure (a : α) : Preserves f (pure a : Method σ ε α) := by
  intro s r s' h
  cases h
  rfl

theorem preserves_throw (e : ε) : Preserves f (throw e : Method σ ε α) := by
  intro s r s' h
  cases h
  rfl

theorem preserves_get : Preserves f (get : Method σ ε σ) := by
  intro s r s' h
  cases h
  rfl

theorem preserves_modify {g : σ → σ} (h : ∀ s, f (g s) = f s) :
    Preserves f (modify g : Method σ ε Unit) := by
  intro s r s' hx
  cases hx
  exact h s

theorem Preserves.bind (h : Preserves f x) (hk : ∀ a, Preserves f (k a)) :
    Preserves f (x >>= k) := by
  intro s r s' hx
  rw [exec_bind] at hx
  split at hx
  · next a s₁ h₁ => exact (hk a s₁ r s' hx).trans (h s _ s₁ h₁)
  · next e s₁ h₁ =>
    cases hx
    exact h s _ s' h₁
  · cases hx

theorem preserves_modify_bind {g : σ → σ} {k : Unit → Method σ ε β} (h : ∀ s, f (g s) = f s)
    (hk : Preserves f (k ())) : Preserves f (modify g >>= k) :=
  (preserves_modify h).bind fun _ => hk

theorem preserves_ofExcept (r : Except ε α) : Preserves f (ofExcept r : Method σ ε α) := by
  cases r with
  | error e => exact preserves_throw e
  | ok a => exact preserves_pure a

theorem preserves_okOr (e : ε) (o : Option α) : Preserves f (okOr e o : Method σ ε α) := by
  cases o with
  | none => exact preserves_throw e
  | some a => exact preserves_pure a

theorem preserves_orPanic (o : Option α) : Preserves f (orPanic o : Method σ ε α) := by
  cases o with
  | none =>
    intro s r s' h
    cases h
  | some a => exact preserves_pure a

theorem preserves_ensure (c : Prop) [Decidable c] (e : ε) :
    Preserves f (ensure c e : Method σ ε Unit) := by
  unfold ensure
  split
  · exact preserves_pure ()
  · exact preserves_throw e

theorem Preserves.discard (h : Preserves f x) : Preserves f (discard x) := by
  rw [show (Functor.discard x : Method σ ε Unit) = x >>= fun _ => pure () from rfl]
  exact h.bind fun _ => preserves_pure ()

theorem Preserves.attempt {x : Method σ ε' α} (h : Preserves f x) :
    Preserves f (attempt x : Method σ ε (Except ε' α)) := by
  intro s r s' hx
  obtain ⟨⟨r₁, s₁⟩, h₁, heq⟩ := Option.map_eq_some_iff.mp hx
  cases heq
  exact h s r₁ s₁ h₁

/-- A method on a part of the state: `f` of the whole may read what `x` leaves alone. -/
theorem Preserves.focus {υ' : Type} {g : τ → υ'} {get : σ → τ} {set : σ → τ → σ} {err : ε' → ε}
    {x : Method τ ε' α} (hx : Preserves g x)
    (h : ∀ s t, g t = g (get s) → f (set s t) = f s) : Preserves f (focus get set err x) := by
  intro s r s' hf
  obtain ⟨⟨r₁, t⟩, hr, heq⟩ := Option.map_eq_some_iff.mp hf
  cases heq
  exact h s t (hx _ r₁ t hr)

/-- A method on a part of the state that `f` does not read. -/
theorem preserves_focus {get : σ → τ} {set : σ → τ → σ} {err : ε' → ε} {x : Method τ ε' α}
    (h : ∀ s t, f (set s t) = f s) : Preserves f (focus get set err x) :=
  Preserves.focus (fun _ _ _ _ => rfl : Preserves (fun _ => ()) x) fun s t _ => h s t

end Preserving

end Strukt.Method
