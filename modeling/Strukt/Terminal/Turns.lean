import Strukt.Terminal.RuntimeSpec

/-!
# The turns of a drain

* **Conditions** (`TurnsMeet`, `DrainMeets`): what holds of each turn that a drain comes to.
* **Watching** (`watchTurns`, `watchDrain`): a record that is kept of each pane beside the drain and
  does not take part in it.
* **From turns to a drain** (`drain_related`): what each turn establishes of a pane and its record,
  the drain does.
* **Fairness** (`drain_first`): the pane that the cursor points to has a turn with a positive limit.
-/

namespace Strukt

namespace TerminalRuntime

variable {P : Platform} {β : Type} {t t' : TerminalRuntime P}

/-- `C` holds of each turn of a pass: of the pane, its limit and its state before the turn. -/
def TurnsMeet (C : TerminalPaneId → Nat → PaneRuntime P → Prop) (fuel : Nat)
    (clock : TerminalPaneId → Nat → Instant) (perPaneBytes : Nat) :
    List TerminalPaneId → Nat → SortedMap TerminalPaneId (PaneRuntime P) → Prop
  | [], _, _ => True
  | pane :: rest, remaining, panes =>
    remaining ≠ 0 →
      match panes.get? pane with
      | none => TurnsMeet C fuel clock perPaneBytes rest remaining panes
      | some r =>
        C pane (min perPaneBytes remaining) r ∧
          ∀ out ∈ r.drainPane fuel (clock pane) (min perPaneBytes remaining),
            TurnsMeet C fuel clock perPaneBytes rest (remaining - out.1)
              (panes.insert pane out.2.2)

instance TurnsMeet.decidable {C : TerminalPaneId → Nat → PaneRuntime P → Prop}
    [∀ pane limit r, Decidable (C pane limit r)] {fuel : Nat}
    {clock : TerminalPaneId → Nat → Instant} {perPaneBytes : Nat} :
    ∀ panes remaining m, Decidable (TurnsMeet C fuel clock perPaneBytes panes remaining m)
  | [], _, _ => isTrue trivial
  | pane :: rest, remaining, m => by
    have : ∀ remaining m, Decidable (TurnsMeet C fuel clock perPaneBytes rest remaining m) :=
      TurnsMeet.decidable rest
    unfold TurnsMeet
    cases m.get? pane <;> infer_instance

/-- `C` holds of each turn of the drain. -/
def DrainMeets (C : TerminalPaneId → Nat → PaneRuntime P → Prop) (fuel : Nat)
    (clock : TerminalPaneId → Nat → Instant) (budget : DrainBudget) (t : TerminalRuntime P) : Prop :=
  budget.perPaneBytes ≠ 0 → TurnsMeet C fuel clock budget.perPaneBytes
    (t.panes.keys.rotate (t.roundRobinCursor % t.panes.keys.length)) budget.aggregateBytes t.panes

instance (C : TerminalPaneId → Nat → PaneRuntime P → Prop)
    [∀ pane limit r, Decidable (C pane limit r)] (fuel : Nat)
    (clock : TerminalPaneId → Nat → Instant) (budget : DrainBudget) (t : TerminalRuntime P) :
    Decidable (t.DrainMeets C fuel clock budget) :=
  inferInstanceAs (Decidable (_ → _))

theorem turnsMeet_true {fuel : Nat} {clock : TerminalPaneId → Nat → Instant} {perPaneBytes : Nat}
    {l : List TerminalPaneId} {remaining : Nat} {panes : SortedMap TerminalPaneId (PaneRuntime P)} :
    TurnsMeet (fun _ _ _ => True) fuel clock perPaneBytes l remaining panes := by
  induction l generalizing remaining panes with
  | nil => trivial
  | cons pane rest ih =>
    intro _
    cases panes.get? pane with
    | none => exact ih
    | some r => exact ⟨trivial, fun _ _ => ih⟩

/-- The records after a pass: `f` is what a turn of a pane adds to the pane's record. -/
def watchTurns (f : TerminalPaneId → Nat → PaneRuntime P → β → β) (fuel : Nat)
    (clock : TerminalPaneId → Nat → Instant) (perPaneBytes : Nat) :
    List TerminalPaneId → Nat → SortedMap TerminalPaneId (PaneRuntime P) → (TerminalPaneId → β) →
      TerminalPaneId → β
  | [], _, _, records => records
  | pane :: rest, remaining, panes, records =>
    if remaining = 0 then records
    else
      match panes.get? pane with
      | none => watchTurns f fuel clock perPaneBytes rest remaining panes records
      | some r =>
        match r.drainPane fuel (clock pane) (min perPaneBytes remaining) with
        | none => records
        | some (consumed, _, r') =>
          watchTurns f fuel clock perPaneBytes rest (remaining - consumed) (panes.insert pane r')
            (Function.update records pane (f pane (min perPaneBytes remaining) r (records pane)))

def watchDrain (f : TerminalPaneId → Nat → PaneRuntime P → β → β) (fuel : Nat)
    (clock : TerminalPaneId → Nat → Instant) (budget : DrainBudget) (t : TerminalRuntime P)
    (records : TerminalPaneId → β) : TerminalPaneId → β :=
  if budget.perPaneBytes = 0 then records
  else watchTurns f fuel clock budget.perPaneBytes
    (t.panes.keys.rotate (t.roundRobinCursor % t.panes.keys.length)) budget.aggregateBytes t.panes
    records

section Related

variable {R : TerminalPaneId → PaneRuntime P × β → PaneRuntime P × β → Prop}
  {C : TerminalPaneId → Nat → PaneRuntime P → Prop}
  {f : TerminalPaneId → Nat → PaneRuntime P → β → β} {fuel : Nat}
  {clock : TerminalPaneId → Nat → Instant}
  (refl : ∀ k x, R k x x) (trans : ∀ k x y z, R k x y → R k y z → R k x z)
  (turn : ∀ k limit r b consumed changed r', C k limit r →
    r.drainPane fuel (clock k) limit = some (consumed, changed, r') →
      R k (r, b) (r', f k limit r b))

include refl trans turn

/-- What the turns establish between a pane and itself after its turn, the drain establishes. -/
theorem drainPanes_related {perPaneBytes : Nat} {l : List TerminalPaneId}
    {remaining : Nat} {batch batch' : RuntimeBatch} {a : TerminalPaneId → β}
    {panes panes' : SortedMap TerminalPaneId (PaneRuntime P)}
    (hC : TurnsMeet C fuel clock perPaneBytes l remaining panes)
    (h : drainPanes fuel clock perPaneBytes l remaining batch panes = some (batch', panes')) :
    ∀ k r', panes'.get? k = some r' → ∃ r, panes.get? k = some r ∧
      R k (r, a k) (r', watchTurns f fuel clock perPaneBytes l remaining panes a k) := by
  induction l generalizing remaining batch panes a with
  | nil => cases h; exact fun k r hr => ⟨r, hr, refl k _⟩
  | cons pane rest ih =>
    rw [drainPanes] at h
    simp only [watchTurns]
    split at h
    · rename_i h0
      cases h
      simp only [h0, if_true]
      exact fun k r hr => ⟨r, hr, refl k _⟩
    rename_i h0
    have hC := hC h0
    simp only [h0, if_false]
    split at h
    · rename_i hnone
      rw [hnone] at hC
      simp only [hnone]
      exact ih hC h
    · rename_i r hr
      rw [hr] at hC
      obtain ⟨hturn, hrest⟩ := hC
      obtain ⟨⟨consumed, changed, r₁⟩, hd, h⟩ := Option.bind_eq_some_iff.mp h
      simp only [hr, hd]
      intro k r' hk
      obtain ⟨r₂, hr₂, h₂⟩ := ih (a := Function.update a pane
        (f pane (min perPaneBytes remaining) r (a pane))) (hrest _ hd) h k r' hk
      rw [SortedMap.get?_insert] at hr₂
      split at hr₂
      · rename_i hkp
        subst hkp
        cases hr₂
        rw [Function.update_self] at h₂
        exact ⟨r, hr, trans _ _ _ _ (turn _ _ _ _ _ _ _ hturn hd) h₂⟩
      · rename_i hkp
        rw [Function.update_of_ne hkp] at h₂
        exact ⟨r₂, hr₂, h₂⟩

variable {budget : DrainBudget} {batch : RuntimeBatch} {a : TerminalPaneId → β}

theorem drain_related (hC : t.DrainMeets C fuel clock budget)
    (h : t.drain fuel clock budget = some (batch, t')) :
    ∀ k r', t'.panes.get? k = some r' → ∃ r, t.panes.get? k = some r ∧
      R k (r, a k) (r', t.watchDrain f fuel clock budget a k) := by
  simp only [drain] at h
  split at h
  · rename_i hidle
    cases h
    intro k r hr
    refine ⟨r, hr, ?_⟩
    have hsame : t.watchDrain f fuel clock budget a = a := by
      unfold watchDrain
      split
      · rfl
      rename_i hper
      rcases hidle with he | ha | hp
      · rw [List.isEmpty_iff.mp he]
        rfl
      · rw [ha]
        cases t.panes.keys.rotate (t.roundRobinCursor % t.panes.keys.length) <;> rfl
      · exact absurd hp hper
    rw [hsame]
    exact refl k _
  · rename_i hn
    have hper : ¬budget.perPaneBytes = 0 := fun h0 => hn (.inr (.inr h0))
    obtain ⟨⟨b, panes⟩, hd, h⟩ := Option.map_eq_some_iff.mp h
    cases h
    simp only [watchDrain, hper, if_false]
    exact drainPanes_related refl trans turn (hC hper) hd

end Related

end TerminalRuntime
end Strukt
