import Strukt.Lib.Runs
import Strukt.Terminal.RuntimeSpec

/-!
# Runs of the runtime and its background jobs

* **The system** (`RuntimeSystem`): the runtime and the jobs that were begun and not finished. Each
  start of a pane has a number, and jobs and output name the start that they come from; neither is
  data of the source.
* **Operations** (`RuntimeOp`): a call with its arguments and what the platform answers. Jobs finish
  in any order, each once; output of any start arrives at any time.
* **Stale completions** (`stale_inert`): where every start has a generation of its own
  (`FreshStart`), a completion or a chunk of an earlier start changes nothing.
-/

namespace Strukt

open Method

variable {P : Platform}

/-- A job of a pane, and the number of the start it belongs to. -/
structure RuntimeJob where
  start : Nat
  pane : TerminalPaneId
  generation : UInt64
  deriving DecidableEq

def RuntimeJob.key (job : RuntimeJob) : TerminalPaneId × UInt64 := (job.pane, job.generation)

structure RuntimeSystem (P : Platform) where
  runtime : TerminalRuntime P
  /-- Every start so far, by its number. -/
  starts : List (TerminalPaneId × UInt64)
  /-- The last start of each pane. -/
  current : SortedMap TerminalPaneId Nat
  startJobs : List RuntimeJob
  terminateJobs : List RuntimeJob

inductive RuntimeOp (P : Platform) where
  | prepare (pane : TerminalPaneId) (size : GridSize)
  | beginRestart (pane : TerminalPaneId) (request : SpawnRequest)
  | finishRestart (job : Nat) (result : Except String (TerminalProcess P))
  | applyOutput (start : Nat) (now : Instant) (chunk : OutputChunk)
  | drain (fuel : Nat) (clock : TerminalPaneId → Nat → Instant) (budget : DrainBudget)
  | write (pane : TerminalPaneId) (bytes : List UInt8)
  | resize (pane : TerminalPaneId) (size : TerminalSize)
  | terminate (pane : TerminalPaneId) (answer : P.Process → Except TransportError Unit × P.Process)
  | beginTerminate (pane : TerminalPaneId) (grace : Nat)
  | finishTerminate (job : Nat) (result : Except String Unit)
  | discard (pane : TerminalPaneId)
  | takeProcessAndDiscard (pane : TerminalPaneId)

/-- The operation starts a generation of the pane. -/
def RuntimeOp.Starts (pane : TerminalPaneId) : RuntimeOp P → Prop
  | prepare pane' _ => pane' = pane
  | beginRestart pane' _ => pane' = pane
  | _ => False

/-- The operation at most calls the pane's process, or drops the pane. -/
def RuntimeOp.Plain : RuntimeOp P → Prop
  | write _ _ | resize _ _ | terminate _ _ | beginTerminate _ _ => True
  | discard _ | takeProcessAndDiscard _ => True
  | _ => False

namespace RuntimeSystem

def new (scrollbackLimit : Nat) : RuntimeSystem P := ⟨.new scrollbackLimit, [], .empty, [], []⟩

/-- A start of the pane, in the runtime that it left. -/
def started (s : RuntimeSystem P) (pane : TerminalPaneId) (generation : UInt64)
    (runtime : TerminalRuntime P) : RuntimeSystem P :=
  { s with
    runtime := runtime
    starts := s.starts ++ [(pane, generation)]
    current := s.current.insert pane s.starts.length }

/-- A call on the runtime, and `next` of its result. -/
def call {α : Type} (s : RuntimeSystem P) (x : RuntimeM P α)
    (next : Except RuntimeError α → TerminalRuntime P → RuntimeSystem P) :
    Option (RuntimeSystem P) :=
  (x.exec s.runtime).map fun (r, t) => next r t

/-- `none` is a panic, a drain that does not end, or a job that there is not. -/
def step (s : RuntimeSystem P) : RuntimeOp P → Option (RuntimeSystem P)
  | .prepare pane size =>
    s.call (TerminalRuntime.prepare pane size) fun r t =>
      match r with
      | .ok generation => s.started pane generation t
      | .error _ => { s with runtime := t }
  | .beginRestart pane request =>
    s.call (TerminalRuntime.beginRestart pane request) fun r t =>
      match r with
      | .ok job =>
        { s.started pane job.generation t with
          startJobs := s.startJobs ++ [⟨s.starts.length, job.pane, job.generation⟩] }
      | .error _ => { s with runtime := t }
  | .finishRestart k result =>
    s.startJobs[k]?.bind fun job =>
      s.call (TerminalRuntime.finishRestart job.pane job.generation result) fun _ t =>
        { s with runtime := t, startJobs := s.startJobs.eraseIdx k }
  | .applyOutput start now chunk =>
    s.starts[start]?.bind fun (pane, generation) =>
      s.call (TerminalRuntime.applyOutput now pane generation chunk) fun _ t =>
        { s with runtime := t }
  | .drain fuel clock budget =>
    (s.runtime.drain fuel clock budget).map fun (_, t) => { s with runtime := t }
  | .write pane bytes => s.call (TerminalRuntime.write pane bytes) fun _ t => { s with runtime := t }
  | .resize pane size => s.call (TerminalRuntime.resize pane size) fun _ t => { s with runtime := t }
  | .terminate pane answer =>
    s.call (TerminalRuntime.terminate pane answer) fun _ t => { s with runtime := t }
  | .beginTerminate pane grace =>
    s.call (TerminalRuntime.beginTerminate pane grace) fun r t =>
      match r with
      | .ok job =>
        { s with
          runtime := t
          terminateJobs := s.terminateJobs ++
            [⟨(s.current.get? pane).getD 0, job.pane, job.generation⟩] }
      | .error _ => { s with runtime := t }
  | .finishTerminate k result =>
    s.terminateJobs[k]?.bind fun job =>
      s.call (TerminalRuntime.finishTerminate ⟨job.pane, job.generation, result⟩) fun _ t =>
        { s with runtime := t, terminateJobs := s.terminateJobs.eraseIdx k }
  | .discard pane => s.call (TerminalRuntime.discard pane) fun _ t => { s with runtime := t }
  | .takeProcessAndDiscard pane =>
    s.call (TerminalRuntime.takeProcessAndDiscard pane) fun _ t => { s with runtime := t }

end RuntimeSystem

/-! ## What each call does to the pane's state and process -/

namespace TerminalRuntime

variable {t t' : TerminalRuntime P} {pane : TerminalPaneId}

/-- The pane is in the same state, with a process if it had one. -/
structure Quiet (r r' : PaneRuntime P) : Prop where
  generation : r'.generation = r.generation
  state : r'.state = r.state
  process : r'.process.isSome = r.process.isSome

theorem Quiet.refl (r : PaneRuntime P) : Quiet r r := ⟨rfl, rfl, rfl⟩

/-- The same output is pending. -/
structure SameQueue (r r' : PaneRuntime P) : Prop where
  pending : r'.pending = r.pending
  pendingBytes : r'.pendingBytes = r.pendingBytes
  lastSequence : r'.lastSequence = r.lastSequence

structure Called (r r' : PaneRuntime P) : Prop extends Quiet r r', SameQueue r r'

/-- The pane was offered the chunk. -/
def Offered (now : Instant) (chunk : OutputChunk) (r r' : PaneRuntime P) : Prop :=
  r.enqueue now chunk = .ok r' ∨ (∃ e, r.enqueue now chunk = .error e) ∧ r' = r

/-- The pane runs, or could not be started. -/
structure Finished (r r' : PaneRuntime P) : Prop extends SameQueue r r' where
  generation : r'.generation = r.generation
  state : (r'.process.isSome ∧ r'.state = .running) ∨
    (r'.process = r.process ∧ ∃ message, r'.state = .failed message)

/-- The pane's process ended, or could not be ended. -/
structure Terminated (r r' : PaneRuntime P) : Prop extends SameQueue r r' where
  generation : r'.generation = r.generation
  state : r'.state = .exited none ∨ ∃ message, r'.state = .failed message
  process : r'.process.isSome → r.process.isSome

/-- A completion or a chunk for `generation` of the pane: nothing where that is not its current
one. -/
def Delivers (pane : TerminalPaneId) (generation : UInt64) (R : PaneRuntime P → PaneRuntime P → Prop)
    (t t' : TerminalRuntime P) : Prop :=
  (t' = t ∧ ∀ r, t.panes.get? pane = some r → r.generation ≠ generation) ∨
    ∃ r r', t.panes.get? pane = some r ∧ r.generation = generation ∧
      t' = { t with panes := t.panes.insert pane r' } ∧ R r r'

theorem prepare_spec (size : GridSize) :
    wp (prepare pane size)
      (fun generation t' => generation = t.nextGeneration pane ∧ ∃ r : PaneRuntime P,
        t' = { t with panes := t.panes.insert pane r } ∧ r.generation = generation ∧
          r.process = none ∧ r.state = .stopped ∧ SameQueue (.new generation r.model) r)
      (fun _ _ => False) False t := by
  simp only [prepare, wp_bind, wp_get, wp_putPane, wp_pure]
  exact ⟨trivial, _, rfl, rfl, rfl, rfl, rfl, rfl, rfl⟩

theorem finishRestart_delivers {generation : UInt64} {result : Except String (TerminalProcess P)} :
    wp (finishRestart pane generation result) (fun _ => Delivers pane generation Finished t)
      (fun _ => Delivers pane generation Finished t) False t := by
  simp only [finishRestart, wp_bind, wp_get]
  cases hr : t.panes.get? pane with
  | none => exact .inl ⟨rfl, fun r h => by rw [hr] at h; cases h⟩
  | some r =>
    simp only [wp_ite]
    refine ⟨fun hg => .inl ⟨rfl, fun r' h => ?_⟩, fun hg => ?_⟩
    · rw [hr] at h
      cases h
      exact hg
    rw [not_not] at hg
    cases result with
    | ok p => exact .inr ⟨r, _, hr, hg, rfl, ⟨rfl, rfl, rfl⟩, rfl, .inl ⟨rfl, rfl⟩⟩
    | error m => exact .inr ⟨r, _, hr, hg, rfl, ⟨rfl, rfl, rfl⟩, rfl, .inr ⟨rfl, m, rfl⟩⟩

theorem finishTerminate_delivers (completion : RuntimeTerminateCompletion) :
    wp (finishTerminate completion)
      (fun _ => Delivers completion.pane completion.generation Terminated t)
      (fun _ => Delivers completion.pane completion.generation Terminated t) False t := by
  simp only [finishTerminate, wp_bind, wp_get]
  cases hr : t.panes.get? completion.pane with
  | none => exact .inl ⟨rfl, fun r h => by rw [hr] at h; cases h⟩
  | some r =>
    simp only [wp_ite]
    refine ⟨fun hg => .inl ⟨rfl, fun r' h => ?_⟩, fun hg => ?_⟩
    · rw [hr] at h
      cases h
      exact hg
    rw [not_not] at hg
    split
    · exact .inr ⟨r, _, hr, hg, rfl, ⟨rfl, rfl, rfl⟩, rfl, .inl rfl, id⟩
    · exact .inr ⟨r, _, hr, hg, rfl, ⟨rfl, rfl, rfl⟩, rfl, .inr ⟨_, rfl⟩,
        by simp [PaneRuntime.fail]⟩

theorem enqueue_quiet {now : Instant} {chunk : OutputChunk} {r r' : PaneRuntime P}
    (h : r.enqueue now chunk = .ok r') : Quiet r r' := by
  unfold PaneRuntime.enqueue at h
  split at h
  · cases h
  split at h
  · cases h
  · cases h; exact ⟨rfl, rfl, rfl⟩

theorem Offered.quiet {now : Instant} {chunk : OutputChunk} {r r' : PaneRuntime P}
    (h : Offered now chunk r r') : Quiet r r' := by
  rcases h with h | ⟨-, rfl⟩
  · exact enqueue_quiet h
  · exact .refl _

theorem applyOutput_delivers {now : Instant} {generation : UInt64} {chunk : OutputChunk} :
    wp (applyOutput now pane generation chunk)
      (fun _ => Delivers pane generation (Offered now chunk) t)
      (fun _ => Delivers pane generation (Offered now chunk) t) False t := by
  simp only [applyOutput, wp_bind, wp_get, wp_okOr]
  refine ⟨fun r hr => ?_, fun hr => .inl ⟨rfl, fun r h => by rw [hr] at h; cases h⟩⟩
  simp only [wp_ite]
  refine ⟨fun hg => .inl ⟨rfl, fun r' h => ?_⟩, fun hg => ?_⟩
  · rw [hr] at h
    cases h
    exact hg
  rw [not_not] at hg
  simp only [wp_bind, wp_ofExcept, wp_putPane]
  refine ⟨fun r' he => .inr ⟨r, r', hr, hg, rfl, .inl he⟩, fun e he => ?_⟩
  exact .inr ⟨r, r, hr, hg, by rw [SortedMap.insert_eq_self hr], .inr ⟨⟨e, he⟩, rfl⟩⟩

theorem callProcess_called (call : P.Process → Except TransportError Unit × P.Process) :
    wp (callProcess pane call)
      (fun r' t' => ∃ r, t.panes.get? pane = some r ∧
        t' = { t with panes := t.panes.insert pane r' } ∧ Called r r')
      (fun _ => Changes pane Called t) False t := by
  simp only [callProcess, wp_bind, process_spec]
  refine ⟨fun r hr => ⟨fun p hp => ?_, fun _ => .inl rfl⟩, fun _ => .inl rfl⟩
  simp only [wp_putPane]
  split
  · exact ⟨r, hr, rfl, ⟨rfl, rfl, by simp [hp]⟩, rfl, rfl, rfl⟩
  · simp only [wp_bind, wp_putPane, wp_throw, SortedMap.insert_insert]
    exact .inr ⟨r, _, hr, rfl, ⟨rfl, rfl, by simp [hp]⟩, rfl, rfl, rfl⟩

theorem discard_callProcess_called (call : P.Process → Except TransportError Unit × P.Process) :
    wp (Functor.discard (callProcess pane call)) (fun _ => Changes pane Called t)
      (fun _ => Changes pane Called t) False t := by
  rw [wp_discard]
  refine wp_mono (callProcess_called call) (fun r' t' h => ?_) (fun _ _ h => h) id
  obtain ⟨r, hr, ht, hq⟩ := h
  exact .inr ⟨r, r', hr, ht, hq⟩

theorem resize_called (size : TerminalSize) :
    wp (resize pane size) (fun _ => Changes pane Called t) (fun _ => Changes pane Called t) True t := by
  have hg := gridSize_eq size
  simp only [resize, wp_bind, wp_ofExcept, hg, Except.ok.injEq, reduceCtorEq, false_implies,
    implies_true, and_true, forall_eq']
  refine wp_mono (callProcess_called _) (fun r' t' h => ?_) (fun _ _ h => h) False.elim
  obtain ⟨r, hr, ht, hq⟩ := h
  simp only [wp_orPanic, wp_putPane]
  refine ⟨fun m _ => ?_, fun _ => trivial⟩
  subst ht
  rw [SortedMap.insert_insert]
  exact .inr ⟨r, _, hr, rfl, ⟨hq.generation, hq.state, hq.process⟩, hq.pending, hq.pendingBytes,
    hq.lastSequence⟩

theorem beginTerminate_takes (grace : Nat) :
    wp (beginTerminate pane grace)
      (fun job t' => ∃ r, t.panes.get? pane = some r ∧ r.process.isSome ∧ job.pane = pane ∧
        job.generation = r.generation ∧
        t' = { t with panes := t.panes.insert pane { r with process := none } })
      (fun _ t' => t' = t) False t := by
  simp only [beginTerminate, wp_bind, process_spec, wp_putPane, wp_pure]
  exact ⟨fun r hr => ⟨fun p hp => ⟨r, hr, by simp [hp], by simp⟩, fun _ => trivial⟩, fun _ => trivial⟩

end TerminalRuntime

/-! ## What an operation can do -/

namespace RuntimeSystem

open TerminalRuntime

variable {s s' : RuntimeSystem P} {op : RuntimeOp P}

inductive Effect (s : RuntimeSystem P) : RuntimeOp P → RuntimeSystem P → Prop where
  | started {op : RuntimeOp P} {pane : TerminalPaneId} {r : PaneRuntime P} {jobs : List RuntimeJob}
      (starts : op.Starts pane) (generation : r.generation = s.runtime.nextGeneration pane)
      (process : r.process = none) (queue : SameQueue (.new r.generation r.model) r)
      (state : (jobs = [] ∧ r.state = .stopped) ∨
        (jobs = [⟨s.starts.length, pane, r.generation⟩] ∧ r.state = .starting)) :
      Effect s op { s.started pane r.generation
        { s.runtime with panes := s.runtime.panes.insert pane r } with
          startJobs := s.startJobs ++ jobs }
  | finishedStart {k : Nat} {result : Except String (TerminalProcess P)} {job : RuntimeJob}
      {t : TerminalRuntime P} (job_eq : s.startJobs[k]? = some job)
      (delivers : Delivers job.pane job.generation Finished s.runtime t) :
      Effect s (.finishRestart k result)
        { s with runtime := t, startJobs := s.startJobs.eraseIdx k }
  | finishedTerminate {k : Nat} {result : Except String Unit} {job : RuntimeJob}
      {t : TerminalRuntime P} (job_eq : s.terminateJobs[k]? = some job)
      (delivers : Delivers job.pane job.generation Terminated s.runtime t) :
      Effect s (.finishTerminate k result)
        { s with runtime := t, terminateJobs := s.terminateJobs.eraseIdx k }
  | output {start : Nat} {now : Instant} {chunk : OutputChunk} {pane : TerminalPaneId}
      {generation : UInt64} {t : TerminalRuntime P}
      (start_eq : s.starts[start]? = some (pane, generation))
      (delivers : Delivers pane generation (Offered now chunk) s.runtime t) :
      Effect s (.applyOutput start now chunk) { s with runtime := t }
  | drained {fuel : Nat} {clock : TerminalPaneId → Nat → Instant} {budget : DrainBudget}
      {batch : RuntimeBatch} {t : TerminalRuntime P}
      (drain_eq : s.runtime.drain fuel clock budget = some (batch, t)) :
      Effect s (.drain fuel clock budget) { s with runtime := t }
  | called {op : RuntimeOp P} {pane : TerminalPaneId} {t : TerminalRuntime P} (plain : op.Plain)
      (changes : Changes pane Called s.runtime t) : Effect s op { s with runtime := t }
  | beganTerminate {pane : TerminalPaneId} {grace : Nat} {r : PaneRuntime P}
      (pane_eq : s.runtime.panes.get? pane = some r) (process : r.process.isSome) :
      Effect s (.beginTerminate pane grace)
        { s with
          runtime := { s.runtime with
            panes := s.runtime.panes.insert pane { r with process := none } }
          terminateJobs := s.terminateJobs ++
            [⟨(s.current.get? pane).getD 0, pane, r.generation⟩] }
  | discarded {op : RuntimeOp P} {pane : TerminalPaneId} (plain : op.Plain) :
      Effect s op { s with runtime := { s.runtime with panes := s.runtime.panes.remove pane } }

/-- A call of which every outcome has `Q`. -/
theorem of_call {α : Type} {x : RuntimeM P α}
    {next : Except RuntimeError α → TerminalRuntime P → RuntimeSystem P}
    {Q : α → TerminalRuntime P → Prop} {E : RuntimeError → TerminalRuntime P → Prop} {F : Prop}
    (h : s.call x next = some s') (hx : wp x Q E F s.runtime) :
    (∃ a t, Q a t ∧ s' = next (.ok a) t) ∨ ∃ e t, E e t ∧ s' = next (.error e) t := by
  obtain ⟨⟨r, t⟩, he, rfl⟩ := Option.map_eq_some_iff.mp h
  cases r with
  | ok a => exact .inl ⟨a, t, hx.of_ok he, rfl⟩
  | error e => exact .inr ⟨e, t, hx.of_error he, rfl⟩

theorem step_effect (h : s.step op = some s') : Effect s op s' := by
  cases op with
  | prepare pane size =>
    rw [step] at h
    obtain ⟨g, t, ⟨hg, r, rfl, rfl, hp, hs, hq⟩, rfl⟩ | ⟨e, t, hf, -⟩ := of_call h (prepare_spec size)
    · have he := @Effect.started _ s (.prepare pane size) _ _ [] rfl hg hp hq (.inl ⟨rfl, hs⟩)
      rwa [List.append_nil] at he
    · exact hf.elim
  | beginRestart pane request =>
    rw [step] at h
    obtain ⟨job, t, ⟨hjp, hjg, rfl⟩, rfl⟩ | ⟨e, t, hf, -⟩ := of_call h (beginRestart_spec request)
    · have he := @Effect.started _ s (.beginRestart pane request) _
        { PaneRuntime.new (s.runtime.nextGeneration pane)
          (.new request.size.grid s.runtime.scrollbackLimit) with state := .starting } _
        rfl rfl rfl ⟨rfl, rfl, rfl⟩ (.inr ⟨rfl, rfl⟩)
      dsimp only
      rw [hjp, hjg]
      exact he
    · exact hf.elim
  | finishRestart k result =>
    rw [step] at h
    obtain ⟨job, hjob, h⟩ := Option.bind_eq_some_iff.mp h
    obtain ⟨_, t, hd, rfl⟩ | ⟨_, t, hd, rfl⟩ := of_call h finishRestart_delivers
    exacts [.finishedStart hjob hd, .finishedStart hjob hd]
  | applyOutput start now chunk =>
    rw [step] at h
    obtain ⟨⟨pane, generation⟩, hstart, h⟩ := Option.bind_eq_some_iff.mp h
    obtain ⟨_, t, hd, rfl⟩ | ⟨_, t, hd, rfl⟩ := of_call h applyOutput_delivers
    exacts [.output hstart hd, .output hstart hd]
  | drain fuel clock budget =>
    obtain ⟨⟨batch, t⟩, hd, rfl⟩ := Option.map_eq_some_iff.mp h
    exact .drained hd
  | write pane bytes =>
    rw [step] at h
    obtain ⟨_, t, hc, rfl⟩ | ⟨_, t, hc, rfl⟩ := of_call h (discard_callProcess_called _)
    exacts [.called trivial hc, .called trivial hc]
  | resize pane size =>
    rw [step] at h
    obtain ⟨_, t, hc, rfl⟩ | ⟨_, t, hc, rfl⟩ := of_call h (resize_called size)
    exacts [.called trivial hc, .called trivial hc]
  | terminate pane answer =>
    rw [step] at h
    obtain ⟨_, t, hc, rfl⟩ | ⟨_, t, hc, rfl⟩ := of_call h (discard_callProcess_called answer)
    exacts [.called trivial hc, .called trivial hc]
  | beginTerminate pane grace =>
    rw [step] at h
    obtain ⟨job, t, ⟨r, hr, hp, hjp, hjg, rfl⟩, rfl⟩ | ⟨_, t, rfl, rfl⟩ :=
      of_call h (beginTerminate_takes grace)
    · dsimp only
      rw [hjp, hjg]
      exact .beganTerminate hr hp
    · exact @Effect.called _ _ _ pane _ trivial (.inl rfl)
  | finishTerminate k result =>
    rw [step] at h
    obtain ⟨job, hjob, h⟩ := Option.bind_eq_some_iff.mp h
    obtain ⟨_, t, hd, rfl⟩ | ⟨_, t, hd, rfl⟩ := of_call h (finishTerminate_delivers _)
    exacts [.finishedTerminate hjob hd, .finishedTerminate hjob hd]
  | discard pane =>
    cases h
    exact .discarded trivial
  | takeProcessAndDiscard pane =>
    cases h
    exact .discarded trivial

/-! ## The numbers of the starts -/

/-- Each pane of `t'` is one of `t`, under the same generation. -/
def SameGenerations (t t' : TerminalRuntime P) : Prop :=
  ∀ k r', t'.panes.get? k = some r' → ∃ r, t.panes.get? k = some r ∧ r'.generation = r.generation

variable {pane : TerminalPaneId}

theorem sameGenerations_insert {t : TerminalRuntime P}
    {r r' : PaneRuntime P} (hr : t.panes.get? pane = some r) (hg : r'.generation = r.generation) :
    SameGenerations t { t with panes := t.panes.insert pane r' } := by
  intro k q hq
  rw [SortedMap.get?_insert] at hq
  split at hq
  · rename_i hk
    cases hq
    exact ⟨r, hk ▸ hr, hg⟩
  · exact ⟨q, hq, rfl⟩

theorem sameGenerations_delivers {t t' : TerminalRuntime P}
    {generation : UInt64} {R : PaneRuntime P → PaneRuntime P → Prop}
    (hR : ∀ r r', R r r' → r'.generation = r.generation) (h : Delivers pane generation R t t') :
    SameGenerations t t' := by
  rcases h with ⟨rfl, -⟩ | ⟨r, r', hr, -, rfl, hq⟩
  · exact fun k r hr => ⟨r, hr, rfl⟩
  · exact sameGenerations_insert hr (hR r r' hq)

/-- Jobs and panes name starts by their numbers, and no two starts share pane and generation. -/
structure Numbered (s : RuntimeSystem P) : Prop where
  startJobs : ∀ job ∈ s.startJobs, s.starts[job.start]? = some (job.pane, job.generation)
  terminateJobs : ∀ job ∈ s.terminateJobs, s.starts[job.start]? = some (job.pane, job.generation)
  panes : ∀ k r, s.runtime.panes.get? k = some r →
    ∃ n, s.current.get? k = some n ∧ s.starts[n]? = some (k, r.generation)
  nodup : s.starts.Nodup

theorem numbered_new (limit : Nat) : (new limit : RuntimeSystem P).Numbered :=
  ⟨by simp [new], by simp [new], fun k r h => absurd h (by simp [new, TerminalRuntime.new]),
    List.nodup_nil⟩

/-- The start gets a generation that no start of the pane had. -/
def FreshStart (s : RuntimeSystem P) : RuntimeOp P → Prop
  | .prepare pane _ => (pane, s.runtime.nextGeneration pane) ∉ s.starts
  | .beginRestart pane _ => (pane, s.runtime.nextGeneration pane) ∉ s.starts
  | _ => True

instance (s : RuntimeSystem P) (op : RuntimeOp P) : Decidable (s.FreshStart op) := by
  cases op <;> dsimp only [FreshStart] <;> infer_instance

theorem FreshStart.notMem (h : s.FreshStart op) (hop : op.Starts pane) :
    (pane, s.runtime.nextGeneration pane) ∉ s.starts := by
  cases op with
  | prepare pane' size => cases hop; exact h
  | beginRestart pane' request => cases hop; exact h
  | _ => exact hop.elim

theorem Numbered.same (h : s.Numbered) {t : TerminalRuntime P} {startJobs terminateJobs : List RuntimeJob}
    (ht : SameGenerations s.runtime t) (hs : startJobs ⊆ s.startJobs)
    (hj : terminateJobs ⊆ s.terminateJobs) :
    Numbered { s with runtime := t, startJobs := startJobs, terminateJobs := terminateJobs } := by
  refine ⟨fun job hjob => h.startJobs job (hs hjob), fun job hjob => h.terminateJobs job (hj hjob),
    fun k r' hr' => ?_, h.nodup⟩
  obtain ⟨r, hr, hg⟩ := ht k r' hr'
  obtain ⟨n, hn, hstart⟩ := h.panes k r hr
  exact ⟨n, hn, by rw [hg]; exact hstart⟩

theorem Numbered.effect (h : s.Numbered) (hf : s.FreshStart op) (he : Effect s op s') :
    s'.Numbered := by
  have happ : ∀ {n : Nat} {e x : TerminalPaneId × UInt64}, s.starts[n]? = some e →
      (s.starts ++ [x])[n]? = some e := by
    intro n e x hn
    rw [List.getElem?_append_left (List.getElem?_eq_some_iff.mp hn).1, hn]
  cases he with
  | @started _ pane r jobs hop hg hp _ hstate =>
    refine ⟨fun job hjob => ?_, fun job hjob => happ (h.terminateJobs job hjob), fun k q hq => ?_,
      ?_⟩
    · rcases List.mem_append.mp hjob with hjob | hjob
      · exact happ (h.startJobs job hjob)
      · rcases hstate with ⟨rfl, -⟩ | ⟨rfl, -⟩
        · cases hjob
        · rw [List.mem_singleton.mp hjob]
          exact List.getElem?_concat_length
    · simp only [started, SortedMap.get?_insert] at hq ⊢
      split at hq
      · rename_i hk
        cases hq
        subst hk
        exact ⟨_, if_pos rfl, List.getElem?_concat_length⟩
      · rename_i hk
        obtain ⟨n, hn, hstart⟩ := h.panes k q hq
        exact ⟨n, by rw [if_neg hk, hn], happ hstart⟩
    · refine List.Nodup.append h.nodup (List.nodup_singleton _) ?_
      rw [List.disjoint_singleton, hg]
      exact hf.notMem hop
  | finishedStart _ hd =>
    exact h.same (sameGenerations_delivers (fun _ _ hq => hq.generation) hd)
      (List.eraseIdx_subset) (List.Subset.refl _)
  | finishedTerminate _ hd =>
    exact h.same (sameGenerations_delivers (fun _ _ hq => hq.generation) hd) (List.Subset.refl _)
      (List.eraseIdx_subset)
  | output _ hd =>
    exact h.same (sameGenerations_delivers (fun _ _ hq => hq.quiet.generation) hd) (List.Subset.refl _)
      (List.Subset.refl _)
  | drained hd =>
    refine h.same (fun k r' hr' => ?_) (List.Subset.refl _) (List.Subset.refl _)
    obtain ⟨r, hr, hp, -⟩ := (drain_spec hd).pane k r' hr'
    exact ⟨r, hr, hp.generation⟩
  | called _ hc =>
    refine h.same ?_ (List.Subset.refl _) (List.Subset.refl _)
    rcases hc with rfl | ⟨r, r', hr, rfl, hq⟩
    · exact fun k r hr => ⟨r, hr, rfl⟩
    · exact sameGenerations_insert hr hq.generation
  | @beganTerminate pane grace r hr hp =>
    obtain ⟨n, hn, hstart⟩ := h.panes pane r hr
    have hgen : SameGenerations s.runtime { s.runtime with
        panes := s.runtime.panes.insert pane { r with process := none } } :=
      sameGenerations_insert hr rfl
    have hsame := h.same hgen (List.Subset.refl _) (List.Subset.refl s.terminateJobs)
    refine ⟨hsame.startJobs, fun job hjob => ?_, hsame.panes, hsame.nodup⟩
    rcases List.mem_append.mp hjob with hjob | hjob
    · exact h.terminateJobs job hjob
    · rw [List.mem_singleton.mp hjob, hn]
      exact hstart
  | discarded =>
    refine h.same (fun k r hr => ?_) (List.Subset.refl _) (List.Subset.refl _)
    rw [SortedMap.get?_remove] at hr
    split at hr
    · cases hr
    · exact ⟨r, hr, rfl⟩

theorem Numbered.runs (h : Runs step FreshStart s s') (hs : s.Numbered) : s'.Numbered :=
  h.invariant hs fun _ _ _ hn hf hstep => hn.effect hf (step_effect hstep)

/-- The operation delivers a completion or a chunk of a start that is not its pane's last. -/
def Stale (s : RuntimeSystem P) : RuntimeOp P → Prop
  | .finishRestart k _ => ∃ job ∈ s.startJobs[k]?, s.current.get? job.pane ≠ some job.start
  | .finishTerminate k _ => ∃ job ∈ s.terminateJobs[k]?, s.current.get? job.pane ≠ some job.start
  | .applyOutput start _ _ => ∃ e ∈ s.starts[start]?, s.current.get? e.1 ≠ some start
  | _ => False

instance (s : RuntimeSystem P) (op : RuntimeOp P) : Decidable (s.Stale op) := by
  cases op <;> dsimp only [Stale] <;> infer_instance

/-- A delivery for a start that is not the pane's last finds another generation. -/
theorem Numbered.stale_delivers (h : s.Numbered) {start : Nat}
    {generation : UInt64} {R : PaneRuntime P → PaneRuntime P → Prop} {t : TerminalRuntime P}
    (hstart : s.starts[start]? = some (pane, generation))
    (hstale : s.current.get? pane ≠ some start)
    (hd : Delivers pane generation R s.runtime t) : t = s.runtime := by
  rcases hd with ⟨ht, -⟩ | ⟨r, r', hr, hg, -, -⟩
  · exact ht
  · obtain ⟨n, hn, hcur⟩ := h.panes pane r hr
    rw [hg] at hcur
    -- Two starts of one pane and generation are one start.
    have hsame : n = start := by
      have hlt := (List.getElem?_eq_some_iff.mp hcur).1
      exact (List.getElem?_inj hlt h.nodup).mp (hcur.trans hstart.symm)
    exact absurd (hsame ▸ hn) hstale

theorem Numbered.stale_unchanged (h : s.Numbered) (hstale : s.Stale op) (hs : s.step op = some s') :
    s'.runtime = s.runtime := by
  cases op with
  | finishRestart k result =>
    obtain ⟨job, hjob, hne⟩ := hstale
    have hstart := h.startJobs job (List.mem_of_getElem? hjob)
    rw [step, Option.mem_def.mp hjob, Option.bind_some] at hs
    obtain ⟨_, t, hd, rfl⟩ | ⟨_, t, hd, rfl⟩ := of_call hs finishRestart_delivers
    exacts [h.stale_delivers hstart hne hd, h.stale_delivers hstart hne hd]
  | finishTerminate k result =>
    obtain ⟨job, hjob, hne⟩ := hstale
    have hstart := h.terminateJobs job (List.mem_of_getElem? hjob)
    rw [step, Option.mem_def.mp hjob, Option.bind_some] at hs
    obtain ⟨_, t, hd, rfl⟩ | ⟨_, t, hd, rfl⟩ := of_call hs (finishTerminate_delivers _)
    exacts [h.stale_delivers hstart hne hd, h.stale_delivers hstart hne hd]
  | applyOutput start now chunk =>
    obtain ⟨⟨pane, generation⟩, hstart, hne⟩ := hstale
    rw [step, Option.mem_def.mp hstart, Option.bind_some] at hs
    obtain ⟨_, t, hd, rfl⟩ | ⟨_, t, hd, rfl⟩ := of_call hs applyOutput_delivers
    exacts [h.stale_delivers hstart hne hd, h.stale_delivers hstart hne hd]
  | _ => exact hstale.elim

/-- In a run in which every start has a generation of its own, no completion and no output of an
earlier start changes the runtime. -/
theorem stale_inert {limit : Nat} (h : Runs step FreshStart (new limit) s) (hstale : s.Stale op)
    (hs : s.step op = some s') : s'.runtime = s.runtime :=
  ((numbered_new limit).runs h).stale_unchanged hstale hs

/-- A start of the smallest size, for examples. -/
def smallRequest : SpawnRequest := ⟨⟨[]⟩, [], ⟨[]⟩, [], ⟨1, 1, by decide, by decide⟩⟩

/-- The completion of the first start, with a process that has nothing to say. -/
def firstCompletion : RuntimeOp .playback := .finishRestart 0 (.ok ⟨(⟨3⟩, 1), []⟩)

/-- A turn of one byte, at an instant. -/
def byteDrain (now : Instant) : RuntimeOp .closing := .drain 2 (fun _ _ => now) ⟨1, 1⟩

/-- A process that leaves the chunks is started and drained once. -/
def closingRun (chunks : List OutputChunk) : List (RuntimeOp .closing) :=
  [.beginRestart ⟨3⟩ smallRequest, .finishRestart 0 (.ok ⟨(⟨3⟩, 1), chunks⟩), byteDrain 0]

/-- A restart while the first one is still spawning: its process comes too late. -/
theorem stale_inert_restart : ∃ s s' : RuntimeSystem .playback,
    [.beginRestart ⟨3⟩ smallRequest, .beginRestart ⟨3⟩ smallRequest].foldlM step (new 0) = some s ∧
      s.step firstCompletion = some s' ∧ s'.runtime = s.runtime := by
  have hruns : ([.beginRestart ⟨3⟩ smallRequest, .beginRestart ⟨3⟩ smallRequest].foldlM step
      (new 0 : RuntimeSystem .playback)).any
        fun s => s.Stale firstCompletion ∧ (s.step firstCompletion).isSome := by
    decide
  obtain ⟨s, h, hnext⟩ := (Option.any_eq_true _ _).mp hruns
  obtain ⟨hstale, hsome⟩ := of_decide_eq_true hnext
  obtain ⟨s', hs⟩ := Option.isSome_iff_exists.mp hsome
  have hto : Runs step FreshStart (new 0) s := Along.runs (by decide) h
  exact ⟨s, s', h, hs, stale_inert hto hstale hs⟩

/-- A pane is discarded while its start is still spawning, and started again: the counter begins
again at one, and the first completion installs its process in the second start. -/
theorem discard_revives_completion : ∃ s s' : RuntimeSystem .playback,
    [.beginRestart ⟨3⟩ smallRequest, .discard ⟨3⟩, .beginRestart ⟨3⟩ smallRequest].foldlM step
      (new 0) = some s ∧ s.Stale firstCompletion ∧ s.step firstCompletion = some s' ∧
        s.runtime.state ⟨3⟩ = some .starting ∧ s'.runtime.state ⟨3⟩ = some .running := by
  have hruns : ([.beginRestart ⟨3⟩ smallRequest, .discard ⟨3⟩,
      .beginRestart ⟨3⟩ smallRequest].foldlM step (new 0 : RuntimeSystem .playback)).any
        fun s => s.Stale firstCompletion ∧ s.runtime.state ⟨3⟩ = some .starting ∧
          (s.step firstCompletion).any fun s' => s'.runtime.state ⟨3⟩ = some .running := by
    decide
  obtain ⟨s, h, hnext⟩ := (Option.any_eq_true _ _).mp hruns
  obtain ⟨hstale, hstate, hany⟩ := of_decide_eq_true hnext
  obtain ⟨s', hs, hstate'⟩ := (Option.any_eq_true _ _).mp hany
  exact ⟨s, s', h, hstale, hs, hstate, of_decide_eq_true hstate'⟩

end RuntimeSystem
end Strukt
