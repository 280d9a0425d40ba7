import Strukt.Terminal.RuntimeRuns
import Strukt.Terminal.Turns

/-!
# The life of a pane's generation

* **Coherent panes** (`PaneRuntime.Coherent`): a pane runs, or runs under backpressure, exactly
  while it has a process or an unfinished termination.
* **A turn of `drain`** (`PaneRuntime.drainPane_settles`) keeps this and wakes no other pane, unless
  it finds output that has been pending for 250 ms without a process (`PaneRuntime.PressedBare`).
* **Runs** (`lifecycle_runs`): panes stay coherent, and an exited or failed one stays as it is until
  it is started again.
-/

namespace Strukt

variable {P : Platform}

/-- Running, or running under backpressure. -/
def RuntimePaneState.active : RuntimePaneState → Bool
  | running | backpressured => true
  | _ => false

/-- Exited or failed. -/
def RuntimePaneState.settled : RuntimePaneState → Bool
  | exited _ | failed _ => true
  | _ => false

theorem RuntimePaneState.active_of_settled {state : RuntimePaneState} (h : state.settled) :
    state.active = false := by
  cases state <;> first | rfl | cases h

namespace PaneRuntime

variable {r r' r'' : PaneRuntime P} {J : Prop}

/-- The pane is active exactly while it has a process or `J`, an unfinished termination that took
its process. -/
structure Coherent (J : Prop) (r : PaneRuntime P) : Prop where
  active : r.state.active = true ↔ (r.process.isSome ∨ J)
  exclusive : r.process.isSome → ¬J

/-- The pane is coherent, and changed its state only if it was active. -/
structure Settles (J : Prop) (r r' : PaneRuntime P) : Prop where
  coherent : r'.Coherent J
  state : r.state.active = false → r'.state = r.state

theorem Settles.trans (h : Settles J r r') (h' : Settles J r' r'') : Settles J r r'' := by
  refine ⟨h'.coherent, fun hr => ?_⟩
  have hs := h.state hr
  rw [h'.state (by rw [hs]; exact hr), hs]

theorem Coherent.settles (h : r.Coherent J) : Settles J r r := ⟨h, fun _ => rfl⟩

theorem Coherent.congr (h : r.Coherent J) (hs : r'.state = r.state)
    (hp : r'.process.isSome = r.process.isSome) : r'.Coherent J :=
  ⟨by rw [hs, hp]; exact h.active, by rw [hp]; exact h.exclusive⟩

theorem Coherent.same (h : r.Coherent J) (hs : r'.state = r.state)
    (hp : r'.process.isSome = r.process.isSome) : Settles J r r' :=
  ⟨h.congr hs hp, fun _ => hs⟩

/-- A process that is gone leaves a settled pane. -/
theorem Coherent.ends (h : r.Coherent J) (hp : r.process.isSome) (hs : r'.state.active = false)
    (hp' : r'.process = none) : Settles J r r' := by
  refine ⟨⟨?_, by simp [hp']⟩, fun hr => ?_⟩
  · simp [hs, hp', h.exclusive hp]
  · rw [h.active.mpr (.inl hp)] at hr
    cases hr

theorem pollOneOutput_settles (now : Instant) (h : r.Coherent J) :
    Settles J r (r.pollOneOutput now) := by
  unfold pollOneOutput
  split
  · exact h.settles
  · rename_i p hp
    have hsome : r.process.isSome := by simp [hp]
    dsimp only
    split
    · split
      · rename_i r₁ he
        have hq := TerminalRuntime.enqueue_quiet he
        exact h.same hq.state (by rw [hq.process, hsome]; rfl)
      · exact h.ends hsome rfl rfl
    · exact h.same rfl (by rw [hsome]; rfl)
    · exact h.ends hsome rfl rfl

theorem advanceFront_same {limit count : Nat} {front : PendingOutput} {rest : List PendingOutput}
    (h : r.advanceFront limit front rest = some (count, r')) :
    r'.state = r.state ∧ r'.process = r.process := by
  simp only [advanceFront, Option.bind_eq_bind, Option.pure_def] at h
  obtain ⟨model, -, h⟩ := Option.bind_eq_some_iff.mp h
  cases h
  exact ⟨rfl, rfl⟩

variable {clock : Nat → Instant}

theorem drainLoop_settles {limit fuel consumed consumed' : Nat}
    (h : r.Coherent J) (hl : drainLoop clock limit fuel consumed r = some (consumed', r')) :
    Settles J r r' := by
  induction fuel generalizing consumed r with
  | zero => cases hl
  | succ fuel ih =>
    rw [drainLoop] at hl
    split at hl
    swap
    · cases hl; exact h.settles
    have hpoll : Settles J r (if r.pending.isEmpty then r.pollOneOutput (clock fuel) else r) := by
      split
      · exact pollOneOutput_settles _ h
      · exact h.settles
    generalize (if r.pending.isEmpty then r.pollOneOutput (clock fuel) else r) = r₁ at hl hpoll
    dsimp only at hl
    split at hl
    · cases hl; exact hpoll
    · obtain ⟨⟨count, r₂⟩, hf, hl⟩ := Option.bind_eq_some_iff.mp hl
      obtain ⟨hs, hp⟩ := advanceFront_same hf
      have hnext := hpoll.coherent.same hs (by rw [hp])
      exact hpoll.trans (hnext.trans (ih hnext.coherent hl))

theorem drainBytes_settles {fuel : Nat} {limit consumed : Nat}
    (h : r.Coherent J) (hd : r.drainBytes fuel clock limit = some (consumed, r')) :
    Settles J r r' := by
  obtain ⟨⟨n, r₁⟩, hl, hd⟩ := Option.map_eq_some_iff.mp hd
  have hs := drainLoop_settles h hl
  cases hd
  split
  · refine hs.trans ⟨⟨?_, hs.coherent.exclusive⟩, fun hr => ?_⟩
    · rw [← hs.coherent.active]
      dsimp only
      split
      · rename_i hb
        rw [hb]
        rfl
      · rfl
    · refine if_neg fun hb => ?_
      rw [hb] at hr
      cases hr
  · exact hs

theorem pollExit_settles (h : r.Coherent J) : Settles J r r.pollExit.2 := by
  unfold pollExit
  split
  · exact h.settles
  · rename_i p hp
    have hsome : r.process.isSome := by simp [hp]
    dsimp only
    split
    · exact h.ends hsome rfl rfl
    · exact h.same rfl (by rw [hsome]; rfl)
    · exact h.ends hsome rfl rfl

/-- Output has been pending for 250 ms. -/
def Overdue (clock : Nat → Instant) (r : PaneRuntime P) : Prop :=
  r.pendingSince.any (clock 2 - · ≥ 250)

instance (clock : Nat → Instant) (r : PaneRuntime P) : Decidable (r.Overdue clock) := by
  unfold Overdue
  infer_instance

theorem updatePressureState_settles (h : r.Coherent J)
    (hc : r.process.isNone → r.Overdue clock → J) : Settles J r (r.updatePressureState clock) := by
  by_cases hact : r.process.isSome ∨ J
  · have hr := h.active.mpr hact
    refine ⟨⟨iff_of_true ?_ hact, h.exclusive⟩, fun hn => by rw [hr] at hn; cases hn⟩
    have hstate : (r.updatePressureState clock).state = .backpressured ∨
        (r.updatePressureState clock).state = .running ∨
          (r.updatePressureState clock).state = r.state := by
      simp only [updatePressureState]
      split_ifs <;> simp
    rcases hstate with hs | hs | hs <;> rw [hs]
    exacts [rfl, rfl, hr]
  · have hnone : r.process = none := by
      cases hp : r.process with
      | none => rfl
      | some p => exact absurd (.inl (by simp [hp])) hact
    have hnot : ¬r.Overdue clock := fun ho => hact (.inr (hc (by simp [hnone]) ho))
    have hr : r.state.active = false := by
      rw [← Bool.not_eq_true, h.active]
      exact hact
    have hstate : (r.updatePressureState clock).state = r.state := by
      have hb : r.state ≠ .backpressured := by
        intro hb
        rw [hb] at hr
        cases hr
      unfold Overdue at hnot
      simp only [updatePressureState, hnone, Option.any_none, Bool.false_eq_true, if_false, or_false,
        hnot, hb]
    exact h.same hstate rfl

/-- The turn comes to the pressure test with output overdue and no process left. -/
def PressedBare (fuel : Nat) (clock : Nat → Instant) (limit : Nat) (r : PaneRuntime P) : Prop :=
  ∃ out ∈ (r.pollOneOutput (clock 4)).drainBytes fuel (fun n => clock (n + 5)) limit,
    out.2.pollExit.2.process.isNone ∧ out.2.pollExit.2.Overdue clock

instance (fuel : Nat) (clock : Nat → Instant) (limit : Nat) (r : PaneRuntime P) :
    Decidable (r.PressedBare fuel clock limit) := by
  unfold PressedBare
  infer_instance

theorem drainPane_settles {fuel : Nat} {limit consumed : Nat} {changed : Bool}
    (h : r.Coherent J) (hc : r.PressedBare fuel clock limit → J)
    (hd : r.drainPane fuel clock limit = some (consumed, changed, r')) : Settles J r r' := by
  simp only [drainPane, Option.bind_eq_bind, Option.pure_def] at hd
  obtain ⟨⟨n, r₂⟩, hb, hd⟩ := Option.bind_eq_some_iff.mp hd
  have h₁ := pollOneOutput_settles (clock 4) h
  have h₂ := h₁.trans (drainBytes_settles h₁.coherent hb)
  have h₃ := h₂.trans (pollExit_settles h₂.coherent)
  cases hd
  exact h₃.trans (updatePressureState_settles h₃.coherent fun hp ho => hc ⟨_, hb, hp, ho⟩)

end PaneRuntime

/-! ## Runs -/

namespace RuntimeSystem

open TerminalRuntime

variable {s s' : RuntimeSystem P} {op : RuntimeOp P}

/-- A start of the pane's generation was begun and is not finished. -/
def Spawning (s : RuntimeSystem P) (pane : TerminalPaneId) (r : PaneRuntime P) : Prop :=
  (pane, r.generation) ∈ s.startJobs.map (·.key)

/-- A termination of the pane's generation was begun and is not finished. -/
def Terminating (s : RuntimeSystem P) (pane : TerminalPaneId) (r : PaneRuntime P) : Prop :=
  (pane, r.generation) ∈ s.terminateJobs.map (·.key)

instance (s : RuntimeSystem P) (pane : TerminalPaneId) (r : PaneRuntime P) :
    Decidable (s.Terminating pane r) :=
  inferInstanceAs (Decidable (_ ∈ _))

/-- A start gets a generation of which no job is unfinished, and no turn of a drain finds output
overdue in a pane that has neither a process nor an unfinished termination. -/
def Orderly (s : RuntimeSystem P) (op : RuntimeOp P) : Prop :=
  match op with
  | .prepare pane _ | .beginRestart pane _ =>
    (pane, s.runtime.nextGeneration pane) ∉ (s.startJobs ++ s.terminateJobs).map (·.key)
  | .drain fuel clock budget => s.runtime.DrainMeets
      (fun pane limit r => r.PressedBare fuel (clock pane) limit → s.Terminating pane r)
      fuel clock budget
  | _ => True

theorem Orderly.unclaimed {pane : TerminalPaneId} (h : s.Orderly op) (hop : op.Starts pane) :
    (pane, s.runtime.nextGeneration pane) ∉ (s.startJobs ++ s.terminateJobs).map (·.key) := by
  cases op <;> first | exact hop.elim | (cases hop; exact h)

/-- The pane is coherent, and starting while its start is unfinished. -/
structure PaneOk (s : RuntimeSystem P) (k : TerminalPaneId) (r : PaneRuntime P) : Prop where
  coherent : r.Coherent (s.Terminating k r)
  spawning : s.Spawning k r → r.state = .starting

structure Lifecycle (s : RuntimeSystem P) : Prop where
  pane : ∀ k r, s.runtime.panes.get? k = some r → s.PaneOk k r
  startJobs : (s.startJobs.map (·.key)).Nodup
  terminateJobs : (s.terminateJobs.map (·.key)).Nodup

theorem lifecycle_new (limit : Nat) : (new limit : RuntimeSystem P).Lifecycle :=
  ⟨fun k r h => absurd h (by simp [new, TerminalRuntime.new]), List.nodup_nil, List.nodup_nil⟩

/-- The jobs that are left when one is finished are those of another pane or generation. -/
theorem mem_keys_eraseIdx {jobs : List RuntimeJob} {i : Nat} {job : RuntimeJob}
    {key : TerminalPaneId × UInt64} (hd : (jobs.map (·.key)).Nodup) (hjob : jobs[i]? = some job) :
    key ∈ (jobs.eraseIdx i).map (·.key) ↔ key ≠ job.key ∧ key ∈ jobs.map (·.key) := by
  obtain ⟨hlt, rfl⟩ := List.getElem?_eq_some_iff.mp hjob
  have hlt' : i < (jobs.map (·.key)).length := by simpa using hlt
  have hkey : jobs[i].key = (jobs.map (·.key))[i] := by simp
  rw [← List.eraseIdx_map, hkey, ← hd.erase_getElem, hd.mem_erase_iff]

/-- What becomes of a pane in an operation: it is as `PaneOk` says, and stays settled where it is
not started again. -/
structure PaneKept (s s' : RuntimeSystem P) (op : RuntimeOp P) (k : TerminalPaneId)
    (r' : PaneRuntime P) : Prop where
  ok : s'.PaneOk k r'
  settled : ¬op.Starts k → ∃ r, s.runtime.panes.get? k = some r ∧
    (r.state.settled → r'.state = r.state)

section Effects

variable {k : TerminalPaneId} {r r' : PaneRuntime P}

/-- A pane that keeps its generation, while at most other panes' jobs come or go. -/
theorem PaneOk.passed (h : s.PaneOk k r) (hr : s.runtime.panes.get? k = some r)
    (hg : r'.generation = r.generation) (hj : s'.Terminating k r ↔ s.Terminating k r)
    (hs : s'.Spawning k r → s.Spawning k r) (hq : r.Settles (s.Terminating k r) r') :
    s.PaneKept s' op k r' := by
  unfold Terminating Spawning at *
  rw [← hg] at hj hs
  refine ⟨⟨?_, fun hjob => ?_⟩, fun _ => ⟨r, hr, fun hset => ?_⟩⟩
  · unfold Terminating
    rw [hj, hg]
    exact hq.coherent
  · have hstarting := h.spawning (by unfold Spawning; rw [← hg]; exact hs hjob)
    rw [hq.state (by rw [hstarting]; rfl), hstarting]
  · exact hq.state (RuntimePaneState.active_of_settled hset)

theorem PaneOk.quiet (h : s.PaneOk k r) (hq : Quiet r r') : r.Settles (s.Terminating k r) r' :=
  h.coherent.same hq.state hq.process

variable {t : TerminalRuntime P}

/-- The panes after one was written. -/
theorem get?_written {pane : TerminalPaneId} {q' : PaneRuntime P}
    (h : ({ t with panes := t.panes.insert pane q' } : TerminalRuntime P).panes.get? k = some r') :
    (k = pane ∧ r' = q') ∨ (k ≠ pane ∧ t.panes.get? k = some r') := by
  simp only [SortedMap.get?_insert] at h
  split at h
  · cases h
    exact .inl ⟨‹_›, rfl⟩
  · exact .inr ⟨‹_›, h⟩

theorem Lifecycle.started (h : s.Lifecycle) {pane : TerminalPaneId} {q : PaneRuntime P}
    {jobs : List RuntimeJob} (ho : s.Orderly op) (hop : op.Starts pane)
    (hg : q.generation = s.runtime.nextGeneration pane) (hp : q.process = none)
    (hstate : (jobs = [] ∧ q.state = .stopped) ∨
      (jobs = [⟨s.starts.length, pane, q.generation⟩] ∧ q.state = .starting))
    (hs' : s' = { s.started pane q.generation
      { s.runtime with panes := s.runtime.panes.insert pane q } with
        startJobs := s.startJobs ++ jobs })
    (hr' : s'.runtime.panes.get? k = some r') : s.PaneKept s' op k r' := by
  subst hs'
  have hfree := ho.unclaimed hop
  rw [← hg, List.map_append, List.mem_append, not_or] at hfree
  rcases get?_written hr' with ⟨rfl, rfl⟩ | ⟨hk, hr⟩
  · have hinactive : r'.state.active = false := by
      rcases hstate with ⟨-, hs⟩ | ⟨-, hs⟩ <;> rw [hs] <;> rfl
    refine ⟨⟨⟨?_, by simp [hp]⟩, fun hjob => ?_⟩, fun hn => absurd hop hn⟩
    · rw [hinactive, hp]
      exact iff_of_false (by simp) (not_or.mpr ⟨by simp, hfree.2⟩)
    · rcases hstate with ⟨rfl, -⟩ | ⟨-, hs⟩
      · exact absurd (by simpa [Spawning] using hjob) hfree.1
      · exact hs
  · have hok := h.pane k r' hr
    refine hok.passed hr rfl Iff.rfl (fun hjob => ?_) hok.coherent.settles
    rcases hstate with ⟨rfl, -⟩ | ⟨rfl, -⟩
    · simpa [Spawning] using hjob
    · -- The new job is another pane's.
      simpa [Spawning, RuntimeJob.key, hk] using hjob

theorem Lifecycle.finishedStart (h : s.Lifecycle) {i : Nat} {job : RuntimeJob}
    (hjob : s.startJobs[i]? = some job)
    (hd : Delivers job.pane job.generation Finished s.runtime t)
    (hr' : t.panes.get? k = some r') :
    s.PaneKept { s with runtime := t, startJobs := s.startJobs.eraseIdx i } op k r' := by
  have hpassed : s.runtime.panes.get? k = some r' →
      s.PaneKept { s with runtime := t, startJobs := s.startJobs.eraseIdx i } op k r' := by
    intro hr
    have hok := h.pane k r' hr
    exact hok.passed hr rfl Iff.rfl (fun hj => ((mem_keys_eraseIdx h.startJobs hjob).mp hj).2)
      hok.coherent.settles
  rcases hd with ⟨rfl, -⟩ | ⟨q, q', hq, hgen, rfl, hf⟩
  · exact hpassed hr'
  rcases get?_written hr' with ⟨rfl, rfl⟩ | ⟨-, hr⟩
  swap
  · exact hpassed hr
  -- The pane that the job started: until now it was starting.
  have hok := h.pane _ q hq
  have hkey : (job.pane, q.generation) = job.key := by rw [hgen]; rfl
  have hstarting := hok.spawning
    (by rw [Spawning, hkey]; exact List.mem_map_of_mem (List.mem_of_getElem? hjob))
  have hbare : ¬(q.process.isSome ∨ s.Terminating job.pane q) := by
    rw [← hok.coherent.active, hstarting]
    simp [RuntimePaneState.active]
  rw [Terminating, ← hf.generation] at hbare
  refine ⟨⟨?_, fun hj => ?_⟩, fun _ => ⟨q, hq, fun hset => ?_⟩⟩
  · rcases hf.state with ⟨hp, hs⟩ | ⟨hp, m, hs⟩
    · exact ⟨by rw [hs]; exact iff_of_true rfl (.inl hp), fun _ => (not_or.mp hbare).2⟩
    · refine ⟨?_, by rw [hp]; exact fun hc => absurd hc (not_or.mp hbare).1⟩
      rw [hs, hp]
      exact iff_of_false (by simp [RuntimePaneState.active]) hbare
  · have hne := ((mem_keys_eraseIdx h.startJobs hjob).mp hj).1
    rw [hf.generation] at hne
    exact absurd hkey hne
  · rw [hstarting] at hset
    cases hset

theorem Lifecycle.finishedTerminate (h : s.Lifecycle) {i : Nat} {job : RuntimeJob}
    (hjob : s.terminateJobs[i]? = some job)
    (hd : Delivers job.pane job.generation Terminated s.runtime t)
    (hr' : t.panes.get? k = some r') :
    s.PaneKept { s with runtime := t, terminateJobs := s.terminateJobs.eraseIdx i } op k r' := by
  -- A pane that the job is not for keeps its termination.
  have hpassed : s.runtime.panes.get? k = some r' →
      (k ≠ job.pane ∨ r'.generation ≠ job.generation) →
      s.PaneKept { s with runtime := t, terminateJobs := s.terminateJobs.eraseIdx i } op k r' := by
    intro hr hne
    have hok := h.pane k r' hr
    refine hok.passed hr rfl ?_ id hok.coherent.settles
    have hkey : (k, r'.generation) ≠ job.key := by
      intro he
      obtain ⟨hk, hg⟩ := Prod.mk.inj he
      exact hne.elim (· hk) (· hg)
    exact (mem_keys_eraseIdx h.terminateJobs hjob).trans (and_iff_right hkey)
  rcases hd with ⟨rfl, hnone⟩ | ⟨q, q', hq, hgen, rfl, hf⟩
  · refine hpassed hr' ?_
    by_cases hk : k = job.pane
    · exact .inr (hnone r' (hk ▸ hr'))
    · exact .inl hk
  rcases get?_written hr' with ⟨rfl, rfl⟩ | ⟨hk, hr⟩
  swap
  · exact hpassed hr (.inl hk)
  have hok := h.pane _ q hq
  have hkey : (job.pane, q.generation) = job.key := by rw [hgen]; rfl
  have hJ : s.Terminating job.pane q := by
    rw [Terminating, hkey]
    exact List.mem_map_of_mem (List.mem_of_getElem? hjob)
  have hactive := hok.coherent.active.mpr (.inr hJ)
  have hbare : ¬r'.process.isSome := fun hp => hok.coherent.exclusive (hf.process hp) hJ
  have hgone : (job.pane, r'.generation) ∉ (s.terminateJobs.eraseIdx i).map (·.key) := by
    intro hj
    have hne := ((mem_keys_eraseIdx h.terminateJobs hjob).mp hj).1
    rw [hf.generation] at hne
    exact hne hkey
  refine ⟨⟨⟨?_, fun hp => absurd hp hbare⟩, fun hs => ?_⟩, fun _ => ⟨q, hq, fun hset => ?_⟩⟩
  · refine iff_of_false ?_ (not_or.mpr ⟨hbare, hgone⟩)
    rcases hf.state with hs | ⟨m, hs⟩ <;> rw [hs] <;> simp [RuntimePaneState.active]
  · rw [hok.spawning (by rw [Spawning, ← hf.generation]; exact hs)] at hactive
    cases hactive
  · rw [RuntimePaneState.active_of_settled hset] at hactive
    cases hactive

theorem Lifecycle.beganTerminate (h : s.Lifecycle) {pane : TerminalPaneId} {q : PaneRuntime P}
    {start : Nat} (hq : s.runtime.panes.get? pane = some q) (hp : q.process.isSome)
    (hs' : s' = { s with
      runtime := { s.runtime with panes := s.runtime.panes.insert pane { q with process := none } }
      terminateJobs := s.terminateJobs ++ [⟨start, pane, q.generation⟩] })
    (hr' : s'.runtime.panes.get? k = some r') : s.PaneKept s' op k r' := by
  subst hs'
  rcases get?_written hr' with ⟨rfl, rfl⟩ | ⟨hk, hr⟩
  · have hok := h.pane _ q hq
    have hactive := hok.coherent.active.mpr (.inl hp)
    refine ⟨⟨⟨iff_of_true hactive (.inr ?_), by simp⟩, hok.spawning⟩, fun _ => ⟨q, hq, fun _ => rfl⟩⟩
    simp [Terminating, RuntimeJob.key]
  · have hok := h.pane k r' hr
    refine hok.passed hr rfl ?_ id hok.coherent.settles
    simp [Terminating, RuntimeJob.key, hk]

theorem Lifecycle.drained (h : s.Lifecycle) {fuel : Nat} {clock : TerminalPaneId → Nat → Instant}
    {budget : DrainBudget} {batch : RuntimeBatch}
    (ho : s.Orderly (.drain fuel clock budget))
    (hd : s.runtime.drain fuel clock budget = some (batch, t))
    (hr' : t.panes.get? k = some r') : s.PaneKept { s with runtime := t } op k r' := by
  let R (k : TerminalPaneId) (q q' : PaneRuntime P × Unit) : Prop :=
    q'.1.generation = q.1.generation ∧
      (q.1.Coherent (s.Terminating k q.1) → q.1.Settles (s.Terminating k q.1) q'.1)
  obtain ⟨r, hr, hg, hsettles⟩ : ∃ r, s.runtime.panes.get? k = some r ∧ R k (r, ()) (r', ()) := by
    refine drain_related (R := R) (f := fun _ _ _ _ => ()) (a := fun _ => ())
      (fun _ q => ⟨rfl, fun hc => hc.settles⟩)
      (fun k a b c hab hbc => ⟨hbc.1.trans hab.1, fun hc => ?_⟩)
      (fun k limit q _ consumed changed q' hC hturn => ⟨?_, fun hc => ?_⟩) ho hd k r' hr'
    · have hbc := hbc.2
      unfold Terminating at hbc
      rw [hab.1] at hbc
      exact (hab.2 hc).trans (hbc (hab.2 hc).coherent)
    · exact (PaneRuntime.drainPane_spec hturn).1.generation
    · exact PaneRuntime.drainPane_settles hc hC hturn
  have hok := h.pane k r hr
  exact hok.passed hr hg Iff.rfl id (hsettles hok.coherent)

end Effects

theorem Lifecycle.effect_pane (h : s.Lifecycle) (ho : s.Orderly op) (he : Effect s op s')
    {k : TerminalPaneId} {r' : PaneRuntime P} (hr' : s'.runtime.panes.get? k = some r') :
    s.PaneKept s' op k r' := by
  -- A pane as it was, in the jobs as they were.
  have hpassed : ∀ {t : TerminalRuntime P}, s.runtime.panes.get? k = some r' →
      s.PaneKept { s with runtime := t } op k r' := by
    intro t hr
    have hok := h.pane k r' hr
    exact hok.passed hr rfl Iff.rfl id hok.coherent.settles
  have hwritten : ∀ {pane : TerminalPaneId} {q q' : PaneRuntime P},
      s.runtime.panes.get? pane = some q → Quiet q q' →
      ({ s.runtime with panes := s.runtime.panes.insert pane q' } : TerminalRuntime P).panes.get? k =
        some r' → s.PaneKept { s with
          runtime := { s.runtime with panes := s.runtime.panes.insert pane q' } } op k r' := by
    intro pane q q' hq hquiet hr'
    rcases get?_written hr' with ⟨rfl, rfl⟩ | ⟨-, hr⟩
    · have hok := h.pane k q hq
      exact hok.passed hq hquiet.generation Iff.rfl id (hok.quiet hquiet)
    · exact hpassed hr
  cases he with
  | started hop hg hp _ hs => exact h.started ho hop hg hp hs rfl hr'
  | finishedStart hjob hd => exact h.finishedStart hjob hd hr'
  | finishedTerminate hjob hd => exact h.finishedTerminate hjob hd hr'
  | output _ hd =>
    rcases hd with ⟨rfl, -⟩ | ⟨q, q', hq, -, rfl, hoffered⟩
    · exact hpassed hr'
    · exact hwritten hq hoffered.quiet hr'
  | drained hd => exact h.drained ho hd hr'
  | called _ hc =>
    rcases hc with rfl | ⟨q, q', hq, rfl, hcalled⟩
    · exact hpassed hr'
    · exact hwritten hq hcalled.toQuiet hr'
  | beganTerminate hq hp => exact h.beganTerminate hq hp rfl hr'
  | discarded =>
    rw [SortedMap.get?_remove] at hr'
    split at hr'
    · cases hr'
    · exact hpassed hr'

theorem Lifecycle.effect (h : s.Lifecycle) (ho : s.Orderly op) (he : Effect s op s') :
    s'.Lifecycle := by
  refine ⟨fun k r' hr' => (h.effect_pane ho he hr').ok, ?_, ?_⟩
  · cases he with
    | @started _ pane q jobs hop hg hp _ hs =>
      rcases hs with ⟨rfl, -⟩ | ⟨rfl, -⟩
      · simpa using h.startJobs
      · have hfree := ho.unclaimed hop
        rw [← hg, List.map_append, List.mem_append, not_or] at hfree
        dsimp only
        rw [List.map_append, List.nodup_append']
        exact ⟨h.startJobs, List.nodup_singleton _, by simpa [RuntimeJob.key] using hfree.1⟩
    | finishedStart _ _ =>
      dsimp only
      rw [← List.eraseIdx_map]
      exact h.startJobs.eraseIdx _
    | _ => exact h.startJobs
  · cases he with
    | finishedTerminate _ _ =>
      dsimp only
      rw [← List.eraseIdx_map]
      exact h.terminateJobs.eraseIdx _
    | beganTerminate hq hp =>
      -- The pane had its process, so no termination of it is unfinished.
      have hnone := (h.pane _ _ hq).coherent.exclusive hp
      dsimp only
      rw [List.map_append, List.nodup_append']
      exact ⟨h.terminateJobs, List.nodup_singleton _, by simpa [RuntimeJob.key, Terminating] using hnone⟩
    | _ => exact h.terminateJobs

theorem Lifecycle.runs (h : Runs step Orderly s s') (hs : s.Lifecycle) : s'.Lifecycle :=
  h.invariant hs fun _ _ _ hl ho hstep => hl.effect ho (step_effect hstep)

/-- No start of the pane. -/
def NotStarting (k : TerminalPaneId) (s : RuntimeSystem P) (op : RuntimeOp P) : Prop :=
  s.Orderly op ∧ ¬op.Starts k

/-- From one moment to a later one, the pane stays as it is once it is settled. -/
theorem Lifecycle.settled_runs {k : TerminalPaneId} (hs : s.Lifecycle)
    (h : Runs step (NotStarting k) s s') {r r' : PaneRuntime P}
    (hr : s.runtime.panes.get? k = some r) (hset : r.state.settled)
    (hr' : s'.runtime.panes.get? k = some r') : r'.state = r.state := by
  have hrel : ∀ r', s'.runtime.panes.get? k = some r' → ∃ r, s.runtime.panes.get? k = some r ∧
      (r.state.settled → r'.state = r.state) := by
    refine h.related (R := fun s s' : RuntimeSystem P => ∀ r', s'.runtime.panes.get? k = some r' →
        ∃ r, s.runtime.panes.get? k = some r ∧ (r.state.settled → r'.state = r.state)) hs
      (fun s r hr => ⟨r, hr, fun _ => rfl⟩) (fun a b c hab hbc r₃ hr₃ => ?_)
      (fun s op s' hl ho hstep => hl.effect ho.1 (step_effect hstep))
      (fun s op s' hl ho hstep r' hr' => (hl.effect_pane ho.1 (step_effect hstep) hr').settled ho.2)
    obtain ⟨r₂, hr₂, h₂⟩ := hbc r₃ hr₃
    obtain ⟨r₁, hr₁, h₁⟩ := hab r₂ hr₂
    refine ⟨r₁, hr₁, fun hset => ?_⟩
    have he := h₁ hset
    rw [h₂ (by rw [he]; exact hset), he]
  obtain ⟨r₀, hr₀, hkeep⟩ := hrel r' hr'
  cases hr.symm.trans hr₀
  exact hkeep hset

/-- In an orderly run, a running pane has a process or an unfinished termination, and an exited or
failed one stays as it is until it is started again. -/
theorem lifecycle_runs {limit : Nat} (h : Runs step Orderly (new limit) s) :
    (∀ k r, s.runtime.panes.get? k = some r → r.state.active →
      r.process.isSome ∨ s.Terminating k r) ∧
    ∀ k r, s.runtime.panes.get? k = some r → r.state.settled →
      ∀ s', Runs step (NotStarting k) s s' →
        ∀ r', s'.runtime.panes.get? k = some r' → r'.state = r.state := by
  have hs := (lifecycle_new limit).runs h
  exact ⟨fun k r hr => (hs.pane k r hr).coherent.active.mp,
    fun k r hr hset s' h' r' hr' => hs.settled_runs h' hr hset hr'⟩

instance (s : RuntimeSystem P) (op : RuntimeOp P) : Decidable (s.Orderly op) :=
  match op with
  | .prepare _ _ | .beginRestart _ _ => inferInstanceAs (Decidable (_ ∉ _))
  | .drain _ _ _ => inferInstanceAs (Decidable (s.runtime.DrainMeets _ _ _ _))
  | .finishRestart _ _ | .applyOutput _ _ _ | .write _ _ | .resize _ _ | .terminate _ _
  | .beginTerminate _ _ | .finishTerminate _ _ | .discard _ | .takeProcessAndDiscard _ =>
    isTrue trivial

instance (k : TerminalPaneId) (op : RuntimeOp P) : Decidable (op.Starts k) :=
  match op with
  | .prepare pane _ | .beginRestart pane _ => inferInstanceAs (Decidable (pane = k))
  | .finishRestart _ _ | .applyOutput _ _ _ | .drain _ _ _ | .write _ _ | .resize _ _
  | .terminate _ _ | .beginTerminate _ _ | .finishTerminate _ _ | .discard _
  | .takeProcessAndDiscard _ => isFalse id

instance (k : TerminalPaneId) (s : RuntimeSystem P) (op : RuntimeOp P) :
    Decidable (NotStarting k s op) :=
  inferInstanceAs (Decidable (_ ∧ _))

/-- The exited pane is drained again 100 ms later, with output left. -/
theorem lifecycle_runs_exited : ∃ s s' : RuntimeSystem .closing,
    (closingRun [⟨0, [97, 98, 99]⟩]).foldlM step (new 0) = some s ∧ s.step (byteDrain 100) = some s' ∧
      ∃ r r', s.runtime.panes.get? ⟨3⟩ = some r ∧ s'.runtime.panes.get? ⟨3⟩ = some r' ∧
        r.state = .exited (some 0) ∧ r'.state = r.state := by
  have hruns : ((closingRun [⟨0, [97, 98, 99]⟩]).foldlM step (new 0)).any fun s =>
      NotStarting ⟨3⟩ s (byteDrain 100) ∧
        (s.runtime.panes.get? ⟨3⟩).any (·.state = .exited (some 0)) ∧
        (s.step (byteDrain 100)).any fun s' => (s'.runtime.panes.get? ⟨3⟩).isSome := by
    decide
  obtain ⟨s, h, hnext⟩ := (Option.any_eq_true _ _).mp hruns
  obtain ⟨hns, hstate, hany⟩ := of_decide_eq_true hnext
  obtain ⟨r, hr, hset⟩ := (Option.any_eq_true _ _).mp hstate
  obtain ⟨s', hs, hsome⟩ := (Option.any_eq_true _ _).mp hany
  obtain ⟨r', hr'⟩ := Option.isSome_iff_exists.mp hsome
  have hset := of_decide_eq_true hset
  have hto : Runs step Orderly (new 0) s := Along.runs (by decide) h
  have hruns := lifecycle_runs hto
  exact ⟨s, s', h, hs, r, r', hr, hr', hset,
    hruns.2 ⟨3⟩ r hr (by rw [hset]; rfl) s' (.single hns hs) r' hr'⟩

/-- After 250 ms the output that is left makes the exited pane `Backpressured`: it counts as alive
again, without a process. -/
theorem overdue_revives_exited : ∃ s s' : RuntimeSystem .closing,
    (closingRun [⟨0, [97, 98, 99]⟩]).foldlM step (new 0) = some s ∧ s.step (byteDrain 250) = some s' ∧
      s.runtime.state ⟨3⟩ = some (.exited (some 0)) ∧
      ∃ r', s'.runtime.panes.get? ⟨3⟩ = some r' ∧ r'.state = .backpressured ∧
        r'.process = none ∧ ¬s'.Terminating ⟨3⟩ r' := by
  have hruns : ((closingRun [⟨0, [97, 98, 99]⟩]).foldlM step (new 0)).any fun s =>
      s.runtime.state ⟨3⟩ = some (.exited (some 0)) ∧
        (s.step (byteDrain 250)).any fun s' => (s'.runtime.panes.get? ⟨3⟩).any fun r' =>
          r'.state = .backpressured ∧ r'.process.isNone ∧ ¬s'.Terminating ⟨3⟩ r' := by
    decide
  obtain ⟨s, h, hnext⟩ := (Option.any_eq_true _ _).mp hruns
  obtain ⟨hstate, hany⟩ := of_decide_eq_true hnext
  obtain ⟨s', hs, hany⟩ := (Option.any_eq_true _ _).mp hany
  obtain ⟨r', hr', hr⟩ := (Option.any_eq_true _ _).mp hany
  obtain ⟨hback, hnone, hterm⟩ := of_decide_eq_true hr
  exact ⟨s, s', h, hs, hstate, r', hr', hback, Option.isNone_iff_eq_none.mp hnone, hterm⟩

end RuntimeSystem
end Strukt
