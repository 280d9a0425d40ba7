import Strukt.Lib.Method
import Strukt.Terminal.Transport

/-!
# The terminal runtime

The runtime keeps a process, its pending output and a terminal model for each pane, under a
generation that every restart raises. `drain` polls the panes in turn, within a budget. Blocking
work (termination, spawning) leaves the runtime as a job, whose completion names the generation it
was begun for; a completion of another generation is dropped.

`drain` reads output until its budget is used, so it takes fuel: `none` is a panic, or a process
that never stops answering with empty chunks. Each reading of the clock has its own number.
-/

namespace Strukt

open Method

def maxPendingBytes : Nat := 4 * 1024 * 1024
def maxPendingChunks : Nat := 1024

structure DrainBudget where
  perPaneBytes : Nat
  aggregateBytes : Nat

def DrainBudget.default : DrainBudget := ⟨256 * 1024, 1024 * 1024⟩

inductive RuntimePaneState where
  | stopped
  | starting
  | running
  | exited (code : Option Int32)
  | failed (message : String)
  | backpressured
  deriving DecidableEq

inductive RuntimeError where
  | paneNotFound
  | processNotRunning
  | outOfOrder
  | queueFull
  | startFailed (message : String)
  | terminationFailed (message : String)
  | transport (error : TransportError)
  deriving DecidableEq

def RuntimeError.toString : RuntimeError → String
  | paneNotFound => "terminal pane runtime was not found"
  | processNotRunning => "terminal pane process is not running"
  | outOfOrder => "terminal output sequence is stale or out of order"
  | queueFull => "terminal pane output queue is full"
  | startFailed message => "terminal process failed to start: " ++ message
  | terminationFailed message => "terminal process failed to terminate: " ++ message
  | transport error => error.toString

structure RuntimeBatch where
  bytes : SortedMap TerminalPaneId Nat
  changed : SortedMap TerminalPaneId Unit

structure PendingOutput where
  bytes : List UInt8
  offset : Nat

variable {P : Platform}

structure PaneRuntime (P : Platform) where
  generation : UInt64
  process : Option (TerminalProcess P)
  model : TerminalModel P.toVteParser
  state : RuntimePaneState
  pending : List PendingOutput
  pendingBytes : Nat
  lastSequence : Option UInt64
  pendingSince : Option Instant
  outputSince : Option Instant
  lastOutputAt : Option Instant
  transportPressureSince : Option Instant
  lastError : Option String

/-! ## One pane -/

namespace PaneRuntime

def new (generation : UInt64) (model : TerminalModel P.toVteParser) : PaneRuntime P where
  generation := generation
  process := none
  model := model
  state := .stopped
  pending := []
  pendingBytes := 0
  lastSequence := none
  pendingSince := none
  outputSince := none
  lastOutputAt := none
  transportPressureSince := none
  lastError := none

def fail (r : PaneRuntime P) (message : String) : PaneRuntime P :=
  { r with lastError := some message, state := .failed message, process := none }

def enqueue (now : Instant) (r : PaneRuntime P) (chunk : OutputChunk) :
    Except RuntimeError (PaneRuntime P) :=
  if r.lastSequence.any (chunk.sequence ≤ ·) then .error .outOfOrder
  else if r.pending.length ≥ maxPendingChunks ∨
      r.pendingBytes + chunk.bytes.length > maxPendingBytes then .error .queueFull
  else
    .ok { r with
      lastSequence := some chunk.sequence
      pendingBytes := r.pendingBytes + chunk.bytes.length
      pending := r.pending ++ [⟨chunk.bytes, 0⟩]
      pendingSince := some (r.pendingSince.getD now)
      outputSince := if r.lastOutputAt.all (now - · > 100) then some now else r.outputSince
      lastOutputAt := some now }

def pollOneOutput (now : Instant) (r : PaneRuntime P) : PaneRuntime P :=
  match r.process with
  | none => r
  | some p =>
    let r := { r with process := some { p with process := (P.tryRead p.process).2 } }
    match (P.tryRead p.process).1 with
    | .ok (some chunk) =>
      match r.enqueue now chunk with
      | .ok r => r
      | .error error => r.fail error.toString
    | .ok none => r
    | .error error => r.fail error.toString

/-- The first pending chunk, up to `limit` bytes of it, goes to the model. -/
def advanceFront (limit : Nat) (front : PendingOutput) (rest : List PendingOutput)
    (r : PaneRuntime P) : Option (Nat × PaneRuntime P) := do
  let count := min (front.bytes.length - front.offset) limit
  let model ← r.model.advance ((front.bytes.drop front.offset).take count)
  let offset := front.offset + count
  return (count, { r with
    model := model
    pendingBytes := r.pendingBytes - count
    pending := if offset = front.bytes.length then rest else { front with offset := offset } :: rest })

/-- The loop of `drain_bytes`. -/
def drainLoop (clock : Nat → Instant) (limit : Nat) :
    Nat → Nat → PaneRuntime P → Option (Nat × PaneRuntime P)
  | 0, _, _ => none
  | fuel + 1, consumed, r =>
    if consumed < limit then
      let r := if r.pending.isEmpty then r.pollOneOutput (clock fuel) else r
      match r.pending with
      | [] => some (consumed, r)
      | front :: rest =>
        (r.advanceFront (limit - consumed) front rest).bind fun (count, r) =>
          drainLoop clock limit fuel (consumed + count) r
    else some (consumed, r)

def drainBytes (fuel : Nat) (clock : Nat → Instant) (limit : Nat) (r : PaneRuntime P) :
    Option (Nat × PaneRuntime P) :=
  (drainLoop clock limit fuel 0 r).map fun (consumed, r) =>
    (consumed, if r.pending.isEmpty then
      { r with
        pendingSince := none
        state := if r.state = .backpressured then .running else r.state }
    else r)

def pollExit (r : PaneRuntime P) : Bool × PaneRuntime P :=
  match r.process with
  | none => (false, r)
  | some p =>
    let r := { r with process := some { p with process := (P.tryWait p.process).2 } }
    match (P.tryWait p.process).1 with
    | .ok (some status) => (true, { r with state := .exited status.code, process := none })
    | .ok none => (false, r)
    | .error error => (true, r.fail error.toString)

def updatePressureState (clock : Nat → Instant) (r : PaneRuntime P) : PaneRuntime P :=
  let quiet := r.lastOutputAt.any (clock 0 - · > 100)
  let transportPressureSince :=
    if r.process.any fun p => P.outputBackpressured p.process then
      some (r.transportPressureSince.getD (clock 1))
    else none
  let pressed := r.pendingSince.any (clock 2 - · ≥ 250) ∨
    transportPressureSince.any (clock 3 - · ≥ 250)
  { r with
    outputSince := if quiet then none else r.outputSince
    lastOutputAt := if quiet then none else r.lastOutputAt
    transportPressureSince := transportPressureSince
    state :=
      if pressed then .backpressured
      else if r.state = .backpressured then .running
      else r.state }

/-- The turn of one pane in `drain`: the bytes consumed, and whether it counts as changed. -/
def drainPane (fuel : Nat) (clock : Nat → Instant) (limit : Nat) (r : PaneRuntime P) :
    Option (Nat × Bool × PaneRuntime P) := do
  let stateBefore := r.state
  let r := r.pollOneOutput (clock 4)
  let (consumed, r) ← r.drainBytes fuel (fun n => clock (n + 5)) limit
  let (exited, r) := r.pollExit
  let r := r.updatePressureState clock
  return (consumed, consumed > 0 || exited || r.state ≠ stateBefore, r)

end PaneRuntime

/-! ## All panes -/

structure TerminalRuntime (P : Platform) where
  panes : SortedMap TerminalPaneId (PaneRuntime P)
  scrollbackLimit : Nat
  roundRobinCursor : Nat

structure RuntimeStartJob (P : Platform) where
  pane : TerminalPaneId
  generation : UInt64
  request : SpawnRequest
  priorProcess : Option (TerminalProcess P)

structure RuntimePaneProjection where
  generation : UInt64
  state : RuntimePaneState
  snapshot : TerminalSnapshot

structure RuntimeTerminateJob (P : Platform) where
  pane : TerminalPaneId
  generation : UInt64
  process : TerminalProcess P
  grace : Nat

structure RuntimeTerminateCompletion where
  pane : TerminalPaneId
  generation : UInt64
  result : Except String Unit

def RuntimeTerminateJob.run (job : RuntimeTerminateJob P) : RuntimeTerminateCompletion where
  pane := job.pane
  generation := job.generation
  result := (P.terminate job.process.process job.grace).mapError (·.toString)

/-- The prior process is terminated and the requested one spawned, with the answer `spawned` of
the transport. -/
def RuntimeStartJob.run (job : RuntimeStartJob P)
    (spawned : SpawnRequest → Except TransportError P.Process) :
    Except String (TerminalProcess P) := do
  if let some p := job.priorProcess then
    (P.terminate p.process 500).mapError (·.toString)
  let process ← (spawned job.request).mapError (·.toString)
  return ⟨(job.pane, job.generation), process⟩

abbrev RuntimeM (P : Platform) := Method (TerminalRuntime P) RuntimeError

/-- `grid_size`. -/
def gridSize (size : TerminalSize) : Except RuntimeError GridSize :=
  (GridSize.new size.rows.toNat size.columns.toNat).mapError fun _ => .transport .invalidSize

namespace TerminalRuntime

def new (scrollbackLimit : Nat) : TerminalRuntime P := ⟨.empty, scrollbackLimit, 0⟩

def putPane (pane : TerminalPaneId) (r : PaneRuntime P) : RuntimeM P Unit :=
  modify fun t => { t with panes := t.panes.insert pane r }

/-- The generation that the next start of the pane gets. -/
def nextGeneration (t : TerminalRuntime P) (pane : TerminalPaneId) : UInt64 :=
  ((t.panes.get? pane).map (·.generation.satSucc)).getD 1

/-- A fresh generation without a process. -/
def prepare (pane : TerminalPaneId) (size : GridSize) : RuntimeM P UInt64 := do
  let t ← get
  let generation := t.nextGeneration pane
  putPane pane (PaneRuntime.new generation (.new size t.scrollbackLimit))
  return generation

def beginRestart (pane : TerminalPaneId) (request : SpawnRequest) :
    RuntimeM P (RuntimeStartJob P) := do
  let size ← ofExcept (gridSize request.size)
  let t ← get
  let generation := t.nextGeneration pane
  let priorProcess := (t.panes.get? pane).bind (·.process)
  putPane pane
    { PaneRuntime.new generation (.new size t.scrollbackLimit) with state := .starting }
  return ⟨pane, generation, request, priorProcess⟩

def finishRestart (pane : TerminalPaneId) (generation : UInt64)
    (result : Except String (TerminalProcess P)) : RuntimeM P Unit := do
  match (← get).panes.get? pane with
  | none => return ()
  | some r =>
    if r.generation ≠ generation then return ()
    else
      match result with
      | .ok process =>
        putPane pane { r with process := some process, state := .running, lastError := none }
      | .error message =>
        putPane pane { r with state := .failed message, lastError := some message }
        throw (.startFailed message)

/-- A chunk of another generation is ignored. -/
def applyOutput (now : Instant) (pane : TerminalPaneId) (generation : UInt64)
    (chunk : OutputChunk) : RuntimeM P Unit := do
  let r ← okOr .paneNotFound ((← get).panes.get? pane)
  if r.generation ≠ generation then return ()
  else do
    let r ← ofExcept (r.enqueue now chunk)
    putPane pane r

/-- The turns of `drain`. -/
def drainPanes (fuel : Nat) (clock : TerminalPaneId → Nat → Instant) (perPaneBytes : Nat) :
    List TerminalPaneId → Nat → RuntimeBatch → SortedMap TerminalPaneId (PaneRuntime P) →
      Option (RuntimeBatch × SortedMap TerminalPaneId (PaneRuntime P))
  | [], _, batch, panes => some (batch, panes)
  | pane :: rest, remaining, batch, panes =>
    if remaining = 0 then some (batch, panes)
    else
      match panes.get? pane with
      | none => drainPanes fuel clock perPaneBytes rest remaining batch panes
      | some r =>
        (r.drainPane fuel (clock pane) (min perPaneBytes remaining)).bind
          fun (consumed, changed, r) =>
            drainPanes fuel clock perPaneBytes rest (remaining - consumed)
              { bytes := if consumed > 0 then batch.bytes.insert pane consumed else batch.bytes
                changed := if changed then batch.changed.insert pane () else batch.changed }
              (panes.insert pane r)

def drain (fuel : Nat) (clock : TerminalPaneId → Nat → Instant) (budget : DrainBudget)
    (t : TerminalRuntime P) : Option (RuntimeBatch × TerminalRuntime P) :=
  let paneIds := t.panes.keys
  if paneIds.isEmpty ∨ budget.aggregateBytes = 0 ∨ budget.perPaneBytes = 0 then
    some (⟨.empty, .empty⟩, t)
  else
    let start := t.roundRobinCursor % paneIds.length
    (drainPanes fuel clock budget.perPaneBytes (paneIds.rotate start) budget.aggregateBytes
      ⟨.empty, .empty⟩ t.panes).map fun (batch, panes) =>
        (batch, { t with
          panes := panes
          roundRobinCursor := (start + 1) % paneIds.length })

def runningProcesses (t : TerminalRuntime P) : Nat :=
  (t.panes.values.filter (·.process.isSome)).length

def projection (t : TerminalRuntime P) (pane : TerminalPaneId) : Option RuntimePaneProjection :=
  (t.panes.get? pane).map fun r => ⟨r.generation, r.state, r.model.snapshot 0⟩

def state (t : TerminalRuntime P) (pane : TerminalPaneId) : Option RuntimePaneState :=
  (t.panes.get? pane).map (·.state)

/-- `process_mut`, with the pane that holds the process. -/
def process (pane : TerminalPaneId) : RuntimeM P (PaneRuntime P × TerminalProcess P) := do
  let r ← okOr .paneNotFound ((← get).panes.get? pane)
  let p ← okOr .processNotRunning r.process
  return (r, p)

/-- A call on the pane's process, and `record_transport_result`. The pane as the call left it. -/
def callProcess (pane : TerminalPaneId)
    (call : P.Process → Except TransportError Unit × P.Process) :
    RuntimeM P (PaneRuntime P) := do
  let (r, p) ← process pane
  let r := { r with process := some { p with process := (call p.process).2 } }
  putPane pane r
  match (call p.process).1 with
  | .ok () => return r
  | .error error =>
    putPane pane { r with lastError := some error.toString }
    throw (.transport error)

def write (pane : TerminalPaneId) (bytes : List UInt8) : RuntimeM P Unit :=
  discard (callProcess pane (P.write · bytes))

def resize (pane : TerminalPaneId) (size : TerminalSize) : RuntimeM P Unit := do
  let gridSize ← ofExcept (gridSize size)
  let r ← callProcess pane (P.resize · size)
  let model ← orPanic (r.model.resize gridSize)
  putPane pane { r with model := model }

/-- The blocking termination; `answer` is what the process makes of the call. -/
def terminate (pane : TerminalPaneId)
    (answer : P.Process → Except TransportError Unit × P.Process) : RuntimeM P Unit :=
  discard (callProcess pane answer)

def beginTerminate (pane : TerminalPaneId) (grace : Nat) :
    RuntimeM P (RuntimeTerminateJob P) := do
  let (r, p) ← process pane
  putPane pane { r with process := none }
  return ⟨pane, r.generation, p, grace⟩

def finishTerminate (completion : RuntimeTerminateCompletion) : RuntimeM P Unit := do
  match (← get).panes.get? completion.pane with
  | none => return ()
  | some r =>
    if r.generation ≠ completion.generation then return ()
    else
      match completion.result with
      | .ok () => putPane completion.pane { r with state := .exited none, lastError := none }
      | .error message =>
        putPane completion.pane (r.fail message)
        throw (.terminationFailed message)

def discard (pane : TerminalPaneId) : RuntimeM P Unit :=
  modify fun t => { t with panes := t.panes.remove pane }

def takeProcessAndDiscard (pane : TerminalPaneId) :
    RuntimeM P (Option (TerminalProcess P)) := do
  let t ← get
  set { t with panes := t.panes.remove pane }
  return (t.panes.get? pane).bind (·.process)

end TerminalRuntime
end Strukt
