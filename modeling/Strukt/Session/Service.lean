import Strukt.Session.Store
import Strukt.Terminal.Runtime

/-!
# The session service

The service joins the catalog, which names panes and their generations, to the terminal runtime,
which runs them. Its tables are keyed by pane: the terminal pane of each started pane, output and
terminal revisions, unread counts, attention, and the historical screens of panes that have not
been started. Its methods are those of `SessionService`, one by one. The background jobs that
they hand out are run by `ServiceStartJob.run` and `ServiceTerminateJob.run`.

The counter that `TerminalPaneId::new` reads is a field here (`nextTerminal`).
-/

namespace Strukt

open Method

inductive ServiceError where
  | staleServiceInstance
  | staleGeneration
  | generationDiverged
  | invalidStartRequest
  | writerAlreadyAttached
  | noAttachedClient
  | invalidWireRequest
  | fixtureUnavailable
  | runningPanesPreventShutdown
  | importTargetNotEmpty
  | catalog (error : CatalogError)
  | runtime (error : RuntimeError)
  | transportRequest (error : TransportError)
  | snapshot (error : SnapshotError)
  | store (error : SessionStoreError)
  deriving DecidableEq

variable {P : Platform}

structure SessionService (P : Platform) where
  serviceInstance : ServiceInstanceId
  catalog : SessionCatalog
  runtime : TerminalRuntime P
  terminalPanes : SortedMap PaneId TerminalPaneId
  sessionPanes : SortedMap TerminalPaneId PaneId
  outputRevisions : SortedMap PaneId UInt64
  terminalRevisions : SortedMap PaneId UInt64
  unreadCounts : SortedMap PaneId UInt64
  attention : SortedMap PaneId AttentionState
  historical : SortedMap PaneId PaneScreenSnapshot
  attachedClients : Nat
  detachedSince : Instant
  idleTimeout : Nat
  dirty : Bool
  nextTerminal : Nat

structure ServiceStartJob (P : Platform) where
  serviceInstance : ServiceInstanceId
  session : SessionId
  pane : PaneId
  generation : UInt64
  runtimeJob : RuntimeStartJob P

structure ServiceStartCompletion (P : Platform) where
  serviceInstance : ServiceInstanceId
  session : SessionId
  pane : PaneId
  generation : UInt64
  runtimePane : TerminalPaneId
  result : Except String (TerminalProcess P)

structure ServiceTerminateJob (P : Platform) where
  serviceInstance : ServiceInstanceId
  session : SessionId
  pane : PaneId
  generation : UInt64
  runtimeJob : RuntimeTerminateJob P

structure ServiceTerminateCompletion where
  serviceInstance : ServiceInstanceId
  session : SessionId
  pane : PaneId
  generation : UInt64
  runtimePane : TerminalPaneId
  runtimeCompletion : RuntimeTerminateCompletion

def ServiceStartJob.run (job : ServiceStartJob P)
    (spawned : SpawnRequest → Except TransportError P.Process) : ServiceStartCompletion P where
  serviceInstance := job.serviceInstance
  session := job.session
  pane := job.pane
  generation := job.generation
  runtimePane := job.runtimeJob.pane
  result := job.runtimeJob.run spawned

def ServiceTerminateJob.run (job : ServiceTerminateJob P) : ServiceTerminateCompletion where
  serviceInstance := job.serviceInstance
  session := job.session
  pane := job.pane
  generation := job.generation
  runtimePane := job.runtimeJob.pane
  runtimeCompletion := job.runtimeJob.run

def runtimeLifecycle : RuntimePaneState → PaneLifecycle
  | .stopped => .stopped
  | .starting => .starting
  | .running => .running
  | .exited code => .exited code
  | .failed message => .failed message
  | .backpressured => .backpressured

/-- The lifecycles that a tick raises attention for. -/
def PaneLifecycle.needsAttention : PaneLifecycle → Bool
  | .exited _ | .failed _ | .backpressured => true
  | _ => false

/-- A method on the service. -/
abbrev ServiceM (P : Platform) (α : Type) := Method (SessionService P) ServiceError α

namespace SessionService

def build (serviceInstance : ServiceInstanceId) (catalog : SessionCatalog)
    (histories : List PaneHistorySnapshot) (scrollbackLimit idleTimeout : Nat) (now : Instant)
    (nextTerminal : Nat) : Except ServiceError (SessionService P) := do
  let catalog ← catalog.stoppedClone.mapError .catalog
  return {
    serviceInstance := serviceInstance
    catalog := catalog
    runtime := .new scrollbackLimit
    terminalPanes := .empty
    sessionPanes := .empty
    outputRevisions := .empty
    terminalRevisions := .empty
    unreadCounts := .empty
    attention := .empty
    historical := .ofList (histories.map fun h => (h.pane, h.screen))
    attachedClients := 0
    detachedSince := now
    idleTimeout := idleTimeout
    dirty := false
    nextTerminal := nextTerminal }

def new (serviceInstance : ServiceInstanceId) (catalog : SessionCatalog)
    (scrollbackLimit idleTimeout : Nat) (now : Instant) (nextTerminal : Nat) :
    Except ServiceError (SessionService P) :=
  build serviceInstance catalog [] scrollbackLimit idleTimeout now nextTerminal

def restore (serviceInstance : ServiceInstanceId) (persisted : PersistedCatalog)
    (scrollbackLimit idleTimeout : Nat) (now : Instant) (nextTerminal : Nat) :
    Except ServiceError (SessionService P) :=
  build serviceInstance persisted.catalog persisted.histories scrollbackLimit idleTimeout now
    nextTerminal

/-! ## Parts of the methods -/

def onCatalog {α : Type} (x : CatalogM α) : ServiceM P α :=
  focus (·.catalog) (fun s c => { s with catalog := c }) .catalog x

def onRuntime {α : Type} (x : RuntimeM P α) : ServiceM P α :=
  focus (·.runtime) (fun s r => { s with runtime := r }) .runtime x

def markDirty : ServiceM P Unit := modify fun s => { s with dirty := true }

def expectInstance (serviceInstance : ServiceInstanceId) : ServiceM P Unit := do
  ensure (serviceInstance = (← get).serviceInstance) .staleServiceInstance

/-- The check of the catalog's revision that methods make themselves. -/
def expectCatalogRevision (expected : UInt64) : ServiceM P Unit := do
  let actual := (← get).catalog.revision
  ensure (actual = expected) (.catalog (.staleRevision expected actual))

def definition (pane : PaneId) : ServiceM P (SessionId × SessionPane) := do
  let (session, _, p) ← okOr (.catalog .paneNotFound) ((← get).catalog.pane pane)
  return (session, p)

def runtimePane (pane : PaneId) : ServiceM P TerminalPaneId := do
  okOr .staleGeneration ((← get).terminalPanes.get? pane)

def matchesGeneration (s : SessionService P) (session : SessionId) (pane : PaneId)
    (generation : UInt64) : Bool :=
  (s.catalog.pane pane).any fun (owner, _, p) => owner = session && p.generation = generation

def expectGeneration (session : SessionId) (pane : PaneId) (generation : UInt64) :
    ServiceM P Unit := do
  ensure ((← get).matchesGeneration session pane generation) .staleGeneration

def ensureRuntimePane (pane : PaneId) : ServiceM P TerminalPaneId := do
  let s ← get
  match s.terminalPanes.get? pane with
  | some terminal => return terminal
  | none =>
    let terminal : TerminalPaneId := ⟨s.nextTerminal⟩
    set { s with
      terminalPanes := s.terminalPanes.insert pane terminal
      sessionPanes := s.sessionPanes.insert terminal pane
      nextTerminal := s.nextTerminal + 1 }
    return terminal

/-- Whether a client sees the pane. It reads the focused pane of the active window, by index. -/
def isActiveVisiblePane (s : SessionService P) (session : SessionId) (pane : PaneId) :
    Option Bool :=
  if s.attachedClients > 0 ∧ s.catalog.activeSession = some session then
    match (s.catalog.sessions.get? session).bind (·.active) with
    | none => some false
    | some w => w.focused.map (·.id = pane)
  else some false

/-- The end of both completions: the pane takes the lifecycle of its runtime. -/
def recordLifecycle (session : SessionId) (pane : PaneId) (generation : UInt64)
    (terminal : TerminalPaneId) : ServiceM P Unit := do
  let state ← okOr .staleGeneration ((← get).runtime.state terminal)
  discard (onCatalog (SessionCatalog.setGenerationLifecycle session pane generation
    (runtimeLifecycle state)))
  markDirty

/-! ## Methods -/

/-- Each pane with its unread count and attention. -/
def paneStatuses (s : SessionService P) : List (PaneId × UInt64 × AttentionState) :=
  (s.catalog.sessions.values.flatMap fun session =>
    session.windows.flatMap (·.panes.values)).map fun p =>
      let historical := s.historical.get? p.id
      (p.id, ((s.unreadCounts.get? p.id).or (historical.map (·.unreadCount))).getD 0,
        ((s.attention.get? p.id).or (historical.map (·.attention))).getD .none)

def attach (serviceInstance : ServiceInstanceId) : ServiceM P Unit := do
  expectInstance serviceInstance
  ensure ((← get).attachedClients = 0) .writerAlreadyAttached
  modify fun s => { s with attachedClients := 1 }

def detach (now : Instant) (serviceInstance : ServiceInstanceId) : ServiceM P Unit := do
  expectInstance serviceInstance
  ensure ((← get).attachedClients ≠ 0) .noAttachedClient
  modify fun s => { s with attachedClients := 0, detachedSince := now }

def createSession (serviceInstance : ServiceInstanceId) (expectedRevision : UInt64)
    (name : String) (workingDirectory : PathBuf) (rng : RandomSource) : ServiceM P SessionId := do
  expectInstance serviceInstance
  let session ← onCatalog
    (SessionCatalog.createSession expectedRevision name workingDirectory rng)
  markDirty
  return session

def importStoppedCatalog (serviceInstance : ServiceInstanceId) (expectedRevision : UInt64)
    (catalog : SessionCatalog) : ServiceM P Unit := do
  expectInstance serviceInstance
  expectCatalogRevision expectedRevision
  ensure (← get).catalog.sessions.isEmpty .importTargetNotEmpty
  let catalog ← ofExcept (catalog.stoppedClone.mapError .catalog)
  modify fun s => { s with catalog := catalog, dirty := true }

/-- A pane that is gone from the catalog leaves the runtime and every table. -/
def prunePane (s : SessionService P) (pane : PaneId) : SessionService P :=
  { s with
    terminalPanes := s.terminalPanes.remove pane
    sessionPanes := match s.terminalPanes.get? pane with
      | some terminal => s.sessionPanes.remove terminal
      | none => s.sessionPanes
    runtime := match s.terminalPanes.get? pane with
      | some terminal => { s.runtime with panes := s.runtime.panes.remove terminal }
      | none => s.runtime
    outputRevisions := s.outputRevisions.remove pane
    terminalRevisions := s.terminalRevisions.remove pane
    unreadCounts := s.unreadCounts.remove pane
    attention := s.attention.remove pane
    historical := s.historical.remove pane }

/-- The panes that `apply_catalog_mutation` prunes: those with a terminal pane that the catalog no
longer has. -/
def removedPanes (s : SessionService P) : List PaneId :=
  s.terminalPanes.keys.filter fun pane => !s.catalog.containsPane pane

def applyCatalogMutation {α : Type} (serviceInstance : ServiceInstanceId) (mutation : CatalogM α) :
    ServiceM P α := do
  expectInstance serviceInstance
  let result ← onCatalog mutation
  modify fun s => s.removedPanes.foldl prunePane s
  markDirty
  return result

def beginStart (serviceInstance : ServiceInstanceId) (expectedRevision : UInt64)
    (session : SessionId) (pane : PaneId) (request : SpawnRequest) :
    ServiceM P (ServiceStartJob P) := do
  expectInstance serviceInstance
  let (actualSession, p) ← definition pane
  ensure (actualSession = session ∧
    p.workingDirectory.components = request.workingDirectory.components) .invalidStartRequest
  expectCatalogRevision expectedRevision
  let terminal ← ensureRuntimePane pane
  modify fun s => { s with historical := s.historical.remove pane }
  let runtimeJob ← onRuntime (TerminalRuntime.beginRestart terminal request)
  let generation ← onCatalog (SessionCatalog.beginPaneGeneration expectedRevision session pane
    request.size.rows request.size.columns)
  if runtimeJob.generation ≠ generation then
    onRuntime (TerminalRuntime.discard terminal)
    throw .generationDiverged
  markDirty
  return ⟨serviceInstance, session, pane, generation, runtimeJob⟩

def finishStart (completion : ServiceStartCompletion P) : ServiceM P Unit := do
  expectInstance completion.serviceInstance
  expectGeneration completion.session completion.pane completion.generation
  let result ← attempt (onRuntime (TerminalRuntime.finishRestart completion.runtimePane
    completion.generation completion.result))
  recordLifecycle completion.session completion.pane completion.generation completion.runtimePane
  ofExcept result

def write (serviceInstance : ServiceInstanceId) (pane : PaneId) (generation : UInt64)
    (bytes : List UInt8) : ServiceM P Unit := do
  expectInstance serviceInstance
  let (session, _) ← definition pane
  expectGeneration session pane generation
  let terminal ← runtimePane pane
  onRuntime (TerminalRuntime.write terminal bytes)

def resize (serviceInstance : ServiceInstanceId) (expectedRevision : UInt64) (pane : PaneId)
    (generation : UInt64) (size : TerminalSize) : ServiceM P Unit := do
  expectInstance serviceInstance
  expectCatalogRevision expectedRevision
  let (session, _) ← definition pane
  expectGeneration session pane generation
  let terminal ← runtimePane pane
  onRuntime (TerminalRuntime.resize terminal size)
  onCatalog (SessionCatalog.setPaneSize expectedRevision session pane size.rows size.columns)
  markDirty

def beginTerminate (serviceInstance : ServiceInstanceId) (expectedRevision : UInt64)
    (session : SessionId) (pane : PaneId) (generation : UInt64) (grace : Nat) :
    ServiceM P (ServiceTerminateJob P) := do
  expectInstance serviceInstance
  expectCatalogRevision expectedRevision
  expectGeneration session pane generation
  let terminal ← runtimePane pane
  let runtimeJob ← onRuntime (TerminalRuntime.beginTerminate terminal grace)
  return ⟨serviceInstance, session, pane, generation, runtimeJob⟩

def finishTerminate (completion : ServiceTerminateCompletion) : ServiceM P Unit := do
  expectInstance completion.serviceInstance
  expectGeneration completion.session completion.pane completion.generation
  let result ← attempt (onRuntime (TerminalRuntime.finishTerminate completion.runtimeCompletion))
  recordLifecycle completion.session completion.pane completion.generation completion.runtimePane
  ofExcept result

/-- New output of a pane: its revisions rise, and a pane that is not seen becomes unread. -/
def recordOutput (pane : PaneId) (terminalRevision : UInt64) (visible : Bool)
    (s : SessionService P) : SessionService P :=
  { s with
    terminalRevisions := s.terminalRevisions.insert pane terminalRevision
    outputRevisions :=
      s.outputRevisions.insert pane ((s.outputRevisions.get? pane).getD 0).satSucc
    unreadCounts :=
      if visible then s.unreadCounts
      else s.unreadCounts.insert pane ((s.unreadCounts.get? pane).getD 0).satSucc
    attention :=
      if visible then s.attention
      else s.attention.insert pane (((s.attention.get? pane).getD .none).onOutput false) }

/-- One changed terminal of a tick, and the pane to report. -/
def tickPane (terminal : TerminalPaneId) : ServiceM P (Option PaneId) := do
  let s ← get
  match s.sessionPanes.get? terminal with
  | none => return none
  | some pane =>
    match s.runtime.projection terminal, s.catalog.pane pane with
    | some projection, some (session, _, p) =>
      if p.generation ≠ projection.generation then return none
      else do
        let terminalRevision := projection.snapshot.revision
        if terminalRevision > (s.terminalRevisions.get? pane).getD 0 then
          let visible ← orPanic (s.isActiveVisiblePane session pane)
          modify (recordOutput pane terminalRevision visible)
        let lifecycle := runtimeLifecycle projection.state
        if lifecycle.needsAttention ∧ p.lifecycle ≠ lifecycle then
          modify fun s => { s with attention := s.attention.insert pane .attention }
        discard (attempt (onCatalog (SessionCatalog.setGenerationLifecycle session pane
          projection.generation lifecycle)) : ServiceM P _)
        return some pane
    | _, _ => return none

def tickPanes : List TerminalPaneId → SortedMap PaneId Unit → ServiceM P (SortedMap PaneId Unit)
  | [], changed => return changed
  | terminal :: rest, changed => do
    let pane ← tickPane terminal
    tickPanes rest (pane.elim changed fun pane => changed.insert pane ())

def tick (fuel : Nat) (clock : TerminalPaneId → Nat → Instant) :
    ServiceM P (SortedMap PaneId Unit) := do
  let (batch, runtime) ← orPanic ((← get).runtime.drain fuel clock .default)
  modify fun s => { s with runtime := runtime }
  let changed ← tickPanes batch.changed.keys .empty
  if changed.isEmpty then return changed
  else do
    markDirty
    return changed

/-- The screen of a pane that has a terminal. -/
def terminalScreen (s : SessionService P) (pane : PaneId) (terminal : TerminalPaneId)
    (generation : UInt64) (lifecycle : PaneLifecycle) :
    Option (Except SnapshotError PaneScreenSnapshot) :=
  (s.runtime.projection terminal).map fun projection =>
    PaneScreenSnapshot.fromTerminal projection.snapshot ((s.outputRevisions.get? pane).getD 0) generation lifecycle
      ((s.unreadCounts.get? pane).getD 0) ((s.attention.get? pane).getD .none)

def snapshot (pane : PaneId) : ServiceM P PaneScreenSnapshot := do
  let (session, p) ← definition pane
  let s ← get
  let viewed ← orPanic (s.isActiveVisiblePane session pane)
  match s.terminalPanes.get? pane with
  | none =>
    let screen ← okOr .staleGeneration (s.historical.get? pane)
    if viewed then
      if screen.unreadCount > 0 ∨ screen.attention ≠ .none then
        modify fun s => { s with
          historical := s.historical.insert pane screen.markViewed
          dirty := true }
      modify fun s => { s with
        unreadCounts := s.unreadCounts.remove pane
        attention := s.attention.remove pane }
      return screen.markViewed
    else return screen
  | some terminal =>
    let screen ← okOr .staleGeneration (s.terminalScreen pane terminal p.generation p.lifecycle)
    let screen ← ofExcept (screen.mapError .snapshot)
    if viewed then
      modify fun s => { s with
        unreadCounts := s.unreadCounts.remove pane
        attention := s.attention.remove pane
        dirty := s.dirty || s.unreadCounts.containsKey pane || s.attention.containsKey pane }
      return screen.markViewed
    else return screen

def shouldExit (now : Instant) (s : SessionService P) : Bool :=
  s.attachedClients = 0 && s.runtime.runningProcesses = 0 && now - s.detachedSince ≥ s.idleTimeout

/-- The screens of started panes, over the historical ones. -/
def liveHistories (s : SessionService P) : List (PaneId × TerminalPaneId) →
    SortedMap PaneId PaneScreenSnapshot → Except SnapshotError (SortedMap PaneId PaneScreenSnapshot)
  | [], histories => .ok histories
  | (pane, terminal) :: rest, histories =>
    match s.terminalScreen pane terminal 0 .stopped with
    | none => s.liveHistories rest histories
    | some screen => do s.liveHistories rest (histories.insert pane (← screen))

def takePersistence : ServiceM P (Option PersistedCatalog) := do
  let s ← get
  if s.dirty = false then return none
  else do
    let histories ← ofExcept
      ((s.liveHistories s.terminalPanes.entries s.historical).mapError .snapshot)
    let record ← ofExcept ((PersistedCatalog.new s.catalog
      (histories.entries.map fun e => ⟨e.1, e.2⟩)).mapError .store)
    modify fun s => { s with dirty := false }
    return some record

end SessionService
end Strukt
