import Mathlib

/-!
# Runs of a step function, and what holds between two of their moments

A system is a step function `step s o : Option σ`: the state after operation `o`, or `none` where
the system stops. `Runs step cond s s'` says that some operations lead from `s` to `s'`, each one
meeting `cond` in the state it is taken from.

* **Invariants** (`Runs.invariant`): what one step keeps, a run keeps.
* **Two moments** (`Runs.related`): a reflexive and transitive relation that each step from an
  invariant state establishes holds between any two moments of a run.
* **Sequences of operations** (`Along`, `RunsIn`): the runs of a given list of operations. Where
  `cond` decides at each step whether an invariant is kept, it decides it for a sequence
  (`runsIn_iff`).
* **Versioned observations** (`Follows`): the version never decreases and, while it stays, neither
  does the content change. `Follows` is reflexive and transitive, so it is proved step by step; it
  is what makes a version a safe name for a content (`Follows.lt_of_ne`).
-/

namespace Strukt

variable {σ ω : Type}

/-- One step under an operation that meets `cond`. -/
abbrev Next (step : σ → ω → Option σ) (cond : σ → ω → Prop) (s s' : σ) : Prop :=
  ∃ o, cond s o ∧ step s o = some s'

abbrev Runs (step : σ → ω → Option σ) (cond : σ → ω → Prop) : σ → σ → Prop :=
  Relation.ReflTransGen (Next step cond)

namespace Runs

variable {step : σ → ω → Option σ} {cond cond' : σ → ω → Prop} {I : σ → Prop} {s s' : σ}

theorem invariant (h : Runs step cond s s') (h₀ : I s)
    (hstep : ∀ s o s', I s → cond s o → step s o = some s' → I s') : I s' := by
  induction h with
  | refl => exact h₀
  | tail _ hn ih =>
    obtain ⟨o, hc, hs⟩ := hn
    exact hstep _ o _ ih hc hs

theorem related {R : σ → σ → Prop} (h : Runs step cond s s') (h₀ : I s) (refl : ∀ s, R s s)
    (trans : ∀ a b c, R a b → R b c → R a c)
    (hI : ∀ s o s', I s → cond s o → step s o = some s' → I s')
    (hR : ∀ s o s', I s → cond s o → step s o = some s' → R s s') : R s s' := by
  have key : I s' ∧ R s s' := by
    induction h with
    | refl => exact ⟨h₀, refl _⟩
    | tail _ hn ih =>
      obtain ⟨o, hc, hs⟩ := hn
      exact ⟨hI _ o _ ih.1 hc hs, trans _ _ _ ih.2 (hR _ o _ ih.1 hc hs)⟩
  exact key.2

theorem mono (h : Runs step cond s s') (hc : ∀ s o, cond s o → cond' s o) :
    Runs step cond' s s' :=
  Relation.ReflTransGen.mono (fun _ _ ⟨o, ho, hs⟩ => ⟨o, hc _ o ho, hs⟩) _ _ h

theorem single {o : ω} (hc : cond s o) (hs : step s o = some s') : Runs step cond s s' :=
  Relation.ReflTransGen.single ⟨o, hc, hs⟩

end Runs

/-! ## Sequences of operations -/

section Sequences

variable {step : σ → ω → Option σ} {cond : σ → ω → Prop} {I : σ → Prop} {s s' : σ}

/-- Each operation of the sequence meets `cond` in the state it is taken from. -/
def Along (step : σ → ω → Option σ) (cond : σ → ω → Prop) : List ω → σ → Prop
  | [], _ => True
  | o :: os, s => cond s o ∧ ∀ s', step s o = some s' → Along step cond os s'

instance Along.decidable [∀ s o, Decidable (cond s o)] : ∀ os s, Decidable (Along step cond os s)
  | [], _ => isTrue trivial
  | o :: os, s =>
    have : ∀ s', Decidable (Along step cond os s') := Along.decidable os
    inferInstanceAs (Decidable (cond s o ∧ ∀ s' ∈ step s o, Along step cond os s'))

variable {os : List ω}

theorem Along.runs (h : Along step cond os s) (hr : os.foldlM step s = some s') :
    Runs step cond s s' := by
  induction os generalizing s with
  | nil => cases hr; exact .refl
  | cons o os ih =>
    rw [List.foldlM_cons] at hr
    obtain ⟨s₁, hs, hr⟩ := Option.bind_eq_some_iff.mp hr
    exact .head ⟨o, h.1, hs⟩ (ih (h.2 s₁ hs) hr)

/-- Operations that meet `cond` in whatever state. -/
theorem along_of_forall : ∀ {os : List ω}, (∀ o ∈ os, ∀ s, cond s o) → ∀ s, Along step cond os s
  | [], _, _ => trivial
  | o :: _, h, s =>
    ⟨h o List.mem_cons_self s, fun s' _ => along_of_forall (fun o ho => h o (.tail _ ho)) s'⟩

theorem along_true (os : List ω) (s : σ) : Along step (fun _ _ => True) os s :=
  along_of_forall (fun _ _ _ => trivial) s

/-- What an operation that meets `cond` keeps, a sequence of them keeps. -/
theorem Along.invariant (h : Along step cond os s) (h₀ : I s)
    (hstep : ∀ s o s', I s → cond s o → step s o = some s' → I s')
    (hr : os.foldlM step s = some s') : I s' := by
  induction os generalizing s with
  | nil => cases hr; exact h₀
  | cons o os ih =>
    obtain ⟨hc, ha⟩ := h
    rw [List.foldlM_cons] at hr
    obtain ⟨s₁, hs, hr⟩ := Option.bind_eq_some_iff.mp hr
    exact ih (ha s₁ hs) (hstep s o s₁ h₀ hc hs) hr

/-- The operations are taken one after the other, no one stops, and every state is in `I`. -/
def RunsIn (step : σ → ω → Option σ) (I : σ → Prop) : List ω → σ → Prop
  | [], s => I s
  | o :: os, s => I s ∧ ∃ s', step s o = some s' ∧ RunsIn step I os s'

theorem RunsIn.start (h : RunsIn step I os s) : I s := by
  cases os with
  | nil => exact h
  | cons o os => exact h.1

theorem RunsIn.last (h : RunsIn step I os s) (hr : os.foldlM step s = some s') :
    I s' := by
  induction os generalizing s with
  | nil => cases hr; exact h
  | cons o os ih =>
    obtain ⟨-, s₁, hs, hrun⟩ := h
    rw [List.foldlM_cons, hs] at hr
    exact ih hrun hr

theorem runsIn_iff (hstep : ∀ s o, I s → ((∃ s', step s o = some s' ∧ I s') ↔ cond s o))
    (h₀ : I s) : RunsIn step I os s ↔ Along step cond os s := by
  induction os generalizing s with
  | nil => exact ⟨fun _ => trivial, fun _ => h₀⟩
  | cons o os ih =>
    constructor
    · rintro ⟨-, s', hs, hr⟩
      refine ⟨(hstep s o h₀).mp ⟨s', hs, hr.start⟩, fun s'' hs' => ?_⟩
      obtain rfl := Option.some.inj (hs.symm.trans hs')
      exact (ih hr.start).mp hr
    · rintro ⟨hc, ha⟩
      obtain ⟨s', hs, hI⟩ := (hstep s o h₀).mpr hc
      exact ⟨h₀, s', hs, (ih hI).mpr (ha s' hs)⟩

/-- Operations that each run from `I` into `I` run in sequence. -/
theorem foldlM_total (h₀ : I s)
    (hstep : ∀ s o, o ∈ os → I s → ∃ s', step s o = some s' ∧ I s') :
    ∃ s', os.foldlM step s = some s' ∧ I s' := by
  induction os generalizing s with
  | nil => exact ⟨s, rfl, h₀⟩
  | cons o os ih =>
    obtain ⟨s₁, hs, hI⟩ := hstep s o List.mem_cons_self h₀
    obtain ⟨s', hr, hI'⟩ := ih hI fun s o ho => hstep s o (List.mem_cons_of_mem _ ho)
    refine ⟨s', ?_, hI'⟩
    rw [List.foldlM_cons, hs]
    exact hr

/-- Every state has `P` exactly under the operations that keep an invariant stronger than `P`. -/
theorem runsIn_iff_of_imp {P : σ → Prop} (hP : ∀ s, I s → P s)
    (hkeep : ∀ s o, I s → cond s o → ∃ s', step s o = some s' ∧ I s')
    (hneed : ∀ s o s', I s → step s o = some s' → P s' → cond s o)
    (h₀ : I s) : RunsIn step P os s ↔ Along step cond os s := by
  induction os generalizing s with
  | nil => exact ⟨fun _ => trivial, fun _ => hP s h₀⟩
  | cons o os ih =>
    constructor
    · rintro ⟨-, s', hs, hr⟩
      have hc := hneed s o s' h₀ hs hr.start
      refine ⟨hc, fun s'' hs' => ?_⟩
      obtain ⟨s₁, hs₁, hI⟩ := hkeep s o h₀ hc
      obtain rfl := Option.some.inj (hs.symm.trans hs')
      obtain rfl := Option.some.inj (hs.symm.trans hs₁)
      exact (ih hI).mp hr
    · rintro ⟨hc, ha⟩
      obtain ⟨s', hs, hI⟩ := hkeep s o h₀ hc
      exact ⟨hP s h₀, s', hs, (ih hI).mpr (ha s' hs)⟩

/-- What a run ends in has `P` exactly under the operations that keep an invariant stronger than
`P`, where `P` is never regained. -/
theorem along_iff_last {P : σ → Prop} (hP : ∀ s, I s → P s)
    (hkeep : ∀ s o s', I s → cond s o → step s o = some s' → I s')
    (hneed : ∀ s o s', I s → step s o = some s' → P s' → cond s o)
    (hback : ∀ s o s', step s o = some s' → P s' → P s)
    (h₀ : I s) (hr : os.foldlM step s = some s') :
    P s' ↔ Along step cond os s := by
  refine ⟨fun h => ?_, fun h => hP s' (h.invariant h₀ hkeep hr)⟩
  have hfirst : ∀ (os : List ω) (s : σ), os.foldlM step s = some s' → P s := by
    intro os
    induction os with
    | nil =>
      intro s hr
      cases hr
      exact h
    | cons o os ih =>
      intro s hr
      rw [List.foldlM_cons] at hr
      obtain ⟨s₁, hs, hr⟩ := Option.bind_eq_some_iff.mp hr
      exact hback s o s₁ hs (ih s₁ hr)
  induction os generalizing s with
  | nil => trivial
  | cons o os ih =>
    rw [List.foldlM_cons] at hr
    obtain ⟨s₁, hs, hr⟩ := Option.bind_eq_some_iff.mp hr
    have hc := hneed s o s₁ h₀ hs (hfirst os s₁ hr)
    refine ⟨hc, fun s₂ hs₂ => ?_⟩
    obtain rfl := Option.some.inj (hs.symm.trans hs₂)
    exact ih (hkeep s o _ h₀ hc hs) hr

/-- Two conditions that agree on the invariant, for the operations of a sequence. -/
theorem along_iff_of_mem {cond' : σ → ω → Prop} (h₀ : I s)
    (h : ∀ s o, o ∈ os → I s → (cond s o ↔ cond' s o))
    (hstep : ∀ s o s', o ∈ os → I s → cond s o → step s o = some s' → I s') :
    Along step cond os s ↔ Along step cond' os s := by
  induction os generalizing s with
  | nil => exact Iff.rfl
  | cons o os ih =>
    have hm : o ∈ o :: os := List.mem_cons_self
    have ih' : ∀ s', I s' → (Along step cond os s' ↔ Along step cond' os s') := fun s' hI =>
      ih hI (fun s o ho => h s o (List.mem_cons_of_mem _ ho))
        fun s o s' ho => hstep s o s' (List.mem_cons_of_mem _ ho)
    constructor
    · rintro ⟨hc, ha⟩
      exact ⟨(h s o hm h₀).mp hc, fun s' hs => (ih' s' (hstep s o s' hm h₀ hc hs)).mp (ha s' hs)⟩
    · rintro ⟨hc', ha⟩
      have hc := (h s o hm h₀).mpr hc'
      exact ⟨hc, fun s' hs => (ih' s' (hstep s o s' hm h₀ hc hs)).mpr (ha s' hs)⟩

/-- Two conditions that agree on the invariant are met along the same sequences. -/
theorem along_iff {cond' : σ → ω → Prop} (h₀ : I s)
    (h : ∀ s o, I s → (cond s o ↔ cond' s o))
    (hstep : ∀ s o s', I s → cond s o → step s o = some s' → I s') :
    Along step cond os s ↔ Along step cond' os s :=
  along_iff_of_mem h₀ (fun s o _ => h s o) fun s o s' _ => hstep s o s'

/-- A condition that the invariant gives from another one. -/
theorem Along.mono_in {cond' : σ → ω → Prop} (h : Along step cond os s) (h₀ : I s)
    (hstep : ∀ s o, I s → cond s o → cond' s o ∧ ∀ s', step s o = some s' → I s') :
    Along step cond' os s := by
  induction os generalizing s with
  | nil => trivial
  | cons o os ih =>
    obtain ⟨hc, ha⟩ := h
    obtain ⟨hc', hI⟩ := hstep s o h₀ hc
    exact ⟨hc', fun s' hs => ih (ha s' hs) (hI s' hs)⟩

/-- What each operation of a sequence keeps, the sequence keeps. -/
theorem foldlM_keeps (h₀ : I s)
    (hstep : ∀ s o s', o ∈ os → I s → step s o = some s' → I s')
    (h : os.foldlM step s = some s') : I s' := by
  induction os generalizing s with
  | nil => cases h; exact h₀
  | cons o os ih =>
    rw [List.foldlM_cons] at h
    obtain ⟨s₁, hs, h⟩ := Option.bind_eq_some_iff.mp h
    exact ih (hstep s o s₁ List.mem_cons_self h₀ hs)
      (fun s o s' ho => hstep s o s' (List.mem_cons_of_mem _ ho)) h

end Sequences

/-! ## Versioned observations -/

section Versioned

variable {ν κ : Type} [PartialOrder ν] {version : σ → ν} {content : σ → κ}

/-- From `s` to `s'` the version does not decrease, and the content is the same while it stays. -/
def Follows (version : σ → ν) (content : σ → κ) (s s' : σ) : Prop :=
  version s ≤ version s' ∧ (version s = version s' → content s = content s')

theorem Follows.refl (s : σ) : Follows version content s s := ⟨le_rfl, fun _ => rfl⟩

theorem Follows.trans {a b c : σ} (hab : Follows version content a b)
    (hbc : Follows version content b c) : Follows version content a c := by
  refine ⟨hab.1.trans hbc.1, fun h => ?_⟩
  -- A version that comes back was never left: it lies between itself and itself.
  have h₁ : version a = version b := le_antisymm hab.1 (h ▸ hbc.1)
  exact (hab.2 h₁).trans (hbc.2 (h₁ ▸ h))

theorem Follows.of_lt {a b : σ} (h : version a < version b) : Follows version content a b :=
  ⟨h.le, fun he => absurd he h.ne⟩

theorem Follows.of_eq {a b : σ} (hv : version a = version b) (hc : content a = content b) :
    Follows version content a b :=
  ⟨hv.le, fun _ => hc⟩

/-- A different content has a larger version. -/
theorem Follows.lt_of_ne {a b : σ} (h : Follows version content a b)
    (hne : content a ≠ content b) : version a < version b :=
  lt_of_le_of_ne h.1 fun he => hne (h.2 he)

end Versioned

end Strukt
