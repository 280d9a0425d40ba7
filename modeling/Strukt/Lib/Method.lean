import Mathlib

/-!
# Methods: state, errors and panics

`Method σ ε α` is the effect of a method that works on a state `σ` in place and returns `α`, an
error `ε`, or panics. An error keeps the state as the method left it: a method that fails after
its first write leaves a half-written state, so atomicity is a theorem and not a typing fact.

`wp x Q E P s` is the weakest precondition: from `s`, `x` returns with `Q`, fails with `E`, or
panics with `P`. The `wp_*` lemmas compute it from the method's text and are simp lemmas, so a
specification of a method is proved by rewriting with them and its callees' specifications
(`wp_mono`), one branch at a time.

`focus` runs a method on a part of a larger state, and `observe` is what an observer of the method
holds after it (`wp.observe`).
-/

namespace Strukt

abbrev Method (σ ε α : Type) := ExceptT ε (StateT σ Option) α

namespace Method

variable {σ τ ε ε' α β : Type}

/-- Run from a state: `none` is a panic. -/
def exec (x : Method σ ε α) (s : σ) : Option (Except ε α × σ) := x.run.run s

/-- Fail with `e` unless `c`. -/
def ensure (c : Prop) [Decidable c] (e : ε) : Method σ ε Unit := if c then pure () else throw e

def okOr (e : ε) : Option α → Method σ ε α
  | some a => pure a
  | none => throw e

/-- The value, or a panic where the source indexes without a check. -/
def orPanic : Option α → Method σ ε α
  | some a => pure a
  | none => ExceptT.mk fun _ => none

/-- Run `x` on the part of the state that `get` reads and `set` writes, with its errors mapped. -/
def focus (get : σ → τ) (set : σ → τ → σ) (err : ε' → ε) (x : Method τ ε' α) : Method σ ε α :=
  ExceptT.mk fun s => (x.exec (get s)).map fun r => (r.1.mapError err, set s r.2)

/-- Run `x`, and return its result or its error. -/
def attempt (x : Method σ ε' α) : Method σ ε (Except ε' α) :=
  ExceptT.mk fun s => (x.exec s).map fun r => (.ok r.1, r.2)

/-- The weakest precondition of a result in `Q`, an error in `E`, a panic in `P`. -/
def wp (x : Method σ ε α) (Q : α → σ → Prop) (E : ε → σ → Prop) (P : Prop) (s : σ) : Prop :=
  match x.exec s with
  | some (.ok a, s') => Q a s'
  | some (.error e, s') => E e s'
  | none => P

section Rules

variable {Q : α → σ → Prop} {E : ε → σ → Prop} {P : Prop} {s : σ}

@[simp] theorem wp_pure {a : α} : wp (pure a : Method σ ε α) Q E P s ↔ Q a s := Iff.rfl

@[simp] theorem wp_throw {e : ε} : wp (throw e : Method σ ε α) Q E P s ↔ E e s := Iff.rfl

@[simp] theorem wp_get {Q : σ → σ → Prop} :
    wp (get : Method σ ε σ) Q E P s ↔ Q s s := Iff.rfl

@[simp] theorem wp_set {Q : Unit → σ → Prop} {s' : σ} :
    wp (set s' : Method σ ε Unit) (fun u => Q u) E P s ↔ Q () s' := Iff.rfl

@[simp] theorem wp_modify {Q : Unit → σ → Prop} {f : σ → σ} :
    wp (modify f : Method σ ε Unit) (fun u => Q u) E P s ↔ Q () (f s) := Iff.rfl

theorem exec_bind (x : Method σ ε α) (f : α → Method σ ε β) (s : σ) :
    (x >>= f).exec s = match x.exec s with
      | some (.ok a, s') => (f a).exec s'
      | some (.error e, s') => some (.error e, s')
      | none => none := by
  simp only [exec, ExceptT.run_bind, StateT.run_bind]
  cases h : x.run.run s with
  | none => rfl
  | some r =>
    obtain ⟨(e | a), s'⟩ := r <;> rfl

variable {x : Method σ ε α}

@[simp] theorem wp_bind {f : α → Method σ ε β} {Q : β → σ → Prop} :
    wp (x >>= f) Q E P s ↔ wp x (fun a s' => wp (f a) Q E P s') E P s := by
  simp only [wp, exec_bind]
  cases x.exec s with
  | none => rfl
  | some r => obtain ⟨(e | a), s'⟩ := r <;> rfl

@[simp] theorem wp_map {f : α → β} {Q : β → σ → Prop} :
    wp (f <$> x) Q E P s ↔ wp x (fun a s' => Q (f a) s') E P s := by
  rw [map_eq_pure_bind, wp_bind]
  simp only [wp_pure]

@[simp] theorem wp_discard {Q : Unit → σ → Prop} :
    wp (discard x) Q E P s ↔ wp x (fun _ => Q ()) E P s := by
  rw [show (discard x : Method σ ε Unit) = (fun _ => ()) <$> x from rfl, wp_map]

@[simp] theorem wp_ite {c : Prop} [Decidable c] {x y : Method σ ε α} :
    wp (if c then x else y) Q E P s ↔ (c → wp x Q E P s) ∧ (¬c → wp y Q E P s) := by
  split <;> simp [*]

@[simp] theorem wp_ensure {Q : Unit → σ → Prop} {c : Prop} [Decidable c] {e : ε} :
    wp (ensure c e : Method σ ε Unit) Q E P s ↔ (c → Q () s) ∧ (¬c → E e s) := by
  simp [ensure]

@[simp] theorem wp_okOr {e : ε} {o : Option α} :
    wp (okOr e o : Method σ ε α) Q E P s ↔ (∀ a, o = some a → Q a s) ∧ (o = none → E e s) := by
  cases o <;> simp [okOr]

@[simp] theorem wp_ofExcept {r : Except ε α} :
    wp (ofExcept r : Method σ ε α) Q E P s ↔
      (∀ a, r = .ok a → Q a s) ∧ (∀ e, r = .error e → E e s) := by
  cases r <;> simp [MonadExcept.ofExcept]

@[simp] theorem wp_orPanic {o : Option α} :
    wp (orPanic o : Method σ ε α) Q E P s ↔ (∀ a, o = some a → Q a s) ∧ (o = none → P) := by
  cases o with
  | none =>
    simp only [reduceCtorEq, false_implies, implies_true, true_and, true_implies]
    rfl
  | some a => simp [orPanic]

@[simp] theorem wp_focus {get : σ → τ} {set : σ → τ → σ} {err : ε' → ε} {x : Method τ ε' α} :
    wp (focus get set err x) Q E P s ↔
      wp x (fun a t => Q a (set s t)) (fun e t => E (err e) (set s t)) P (get s) := by
  have he : (focus get set err x).exec s =
      (x.exec (get s)).map fun r => (r.1.mapError err, set s r.2) := rfl
  simp only [wp, he]
  cases x.exec (get s) with
  | none => rfl
  | some r => obtain ⟨(e | a), t⟩ := r <;> rfl

@[simp] theorem wp_attempt {x : Method σ ε' α} {Q : Except ε' α → σ → Prop} :
    wp (attempt x) Q E P s ↔ wp x (fun a => Q (.ok a)) (fun e => Q (.error e)) P s := by
  have he : (attempt x : Method σ ε (Except ε' α)).exec s =
      (x.exec s).map fun r => (.ok r.1, r.2) := rfl
  simp only [wp, he]
  cases x.exec s with
  | none => rfl
  | some r => obtain ⟨(e | a), t⟩ := r <;> rfl

theorem wp_mono {Q' : α → σ → Prop} {E' : ε → σ → Prop} {P' : Prop}
    (h : wp x Q E P s) (hQ : ∀ a s', Q a s' → Q' a s') (hE : ∀ e s', E e s' → E' e s')
    (hP : P → P') : wp x Q' E' P' s := by
  unfold wp at *
  split <;> simp_all

theorem wp_and {Q' : α → σ → Prop} {E' : ε → σ → Prop} {P' : Prop}
    (h : wp x Q E P s) (h' : wp x Q' E' P' s) :
    wp x (fun a s' => Q a s' ∧ Q' a s') (fun e s' => E e s' ∧ E' e s') (P ∧ P') s := by
  unfold wp at *
  split <;> simp_all

end Rules

/-! ## Reading a specification back -/

section Outcomes

variable {x : Method σ ε α} {Q : α → σ → Prop} {E : ε → σ → Prop} {P : Prop} {s s' : σ}

theorem wp.of_ok {a : α} (h : wp x Q E P s) (hx : x.exec s = some (.ok a, s')) : Q a s' := by
  simpa [wp, hx] using h

theorem wp.of_error {e : ε} (h : wp x Q E P s) (hx : x.exec s = some (.error e, s')) : E e s' := by
  simpa [wp, hx] using h

theorem wp.of_none (h : wp x Q E P s) (hx : x.exec s = none) : P := by
  rw [wp, hx] at h
  exact h

theorem wp_self (x : Method σ ε α) (s : σ) :
    wp x (fun a s' => x.exec s = some (.ok a, s')) (fun e s' => x.exec s = some (.error e, s'))
      (x.exec s = none) s := by
  unfold wp
  split <;> assumption

/-- What holds of any value and any state. -/
theorem wp_any (hQ : ∀ a s', Q a s') (hE : ∀ e s', E e s') : wp x Q E True s :=
  wp_mono (wp_self x s) (fun a s' _ => hQ a s') (fun e s' _ => hE e s') fun _ => trivial

/-- What holds of every error of a method. -/
theorem wp_errors : wp x (fun _ _ => True) E True s ↔
    ∀ e s', x.exec s = some (.error e, s') → E e s' := by
  unfold wp
  split <;> simp_all

/-- A method whose panic is excluded ends. -/
theorem wp.ends (h : wp x Q E False s) : ∃ r s', x.exec s = some (r, s') := by
  unfold wp at h
  split at h
  · exact ⟨_, _, ‹_›⟩
  · exact ⟨_, _, ‹_›⟩
  · exact h.elim

theorem wp_returns {a : α} : wp x (fun b t => b = a ∧ t = s') (fun _ _ => False) False s ↔
    x.exec s = some (.ok a, s') := by
  unfold wp
  split <;> simp_all

theorem wp_fails {e : ε} : wp x (fun _ _ => False) (fun e' t => e' = e ∧ t = s') False s ↔
    x.exec s = some (.error e, s') := by
  unfold wp
  split <;> simp_all

/-- A fact of every outcome is a fact of the state that the method leaves. -/
theorem wp.state {I : σ → Prop} (h : wp x (fun _ => I) (fun _ => I) P s) {r : Except ε α}
    (hx : x.exec s = some (r, s')) : I s' := by
  cases r with
  | ok a => exact h.of_ok hx
  | error e => exact h.of_error hx

end Outcomes

/-! ## Observing -/

section Observing

variable {x : Method σ ε α} {ok : α → σ → τ} {error : ε → σ → τ} {s : σ} {t : τ}

/-- What an observer of the method holds after it: `none` where it panics. -/
def observe (x : Method σ ε α) (s : σ) (ok : α → σ → τ) (error : ε → σ → τ) : Option τ :=
  (x.exec s).map fun r =>
    match r.1 with
    | .ok a => ok a r.2
    | .error e => error e r.2

theorem wp.observe {I : τ → Prop} {P : Prop}
    (h : wp x (fun a s' => I (ok a s')) (fun e s' => I (error e s')) P s)
    (ht : observe x s ok error = some t) : I t := by
  unfold Method.observe at ht
  obtain ⟨⟨r, s'⟩, hx, rfl⟩ := Option.map_eq_some_iff.mp ht
  cases r with
  | ok a => exact h.of_ok hx
  | error e => exact h.of_error hx

/-- A method that ends is observed. -/
theorem wp.observes {I : τ → Prop}
    (h : wp x (fun a s' => I (ok a s')) (fun e s' => I (error e s')) False s) :
    ∃ t, Method.observe x s ok error = some t ∧ I t := by
  obtain ⟨r, s', hx⟩ := h.ends
  rw [Method.observe, hx]
  cases r with
  | ok a => exact ⟨_, rfl, h.of_ok hx⟩
  | error e => exact ⟨_, rfl, h.of_error hx⟩

end Observing

end Method
end Strukt
