import Strukt.Session.Protocol
import Strukt.Session.Service

/-!
# The session daemon

The daemon joins the service to its clients. `controllingClient` is the slot of the client that may
change anything; the service counts the attached clients on its own. A round of the loop
(`runRound`) takes one event, in whatever order the threads of the connections have sent them, or
none where it has waited for too long, and then ticks the service.

* **Requests**: `handleRequest` decides who may do what, `handleControlledRequest` does what the
  controlling client asks for.
* **Outside**: the time, the random source, the shell, the spawned processes and the success of
  the store are inputs of a round (`Outside`).

A response carries an error as it is, before `provider_error` puts it into words for the client.
-/

namespace Strukt

open Method

variable {P : Platform}

def terminationGrace : Nat := 500

/-- What a round of the loop gets from outside. -/
structure Outside (P : Platform) where
  now : Instant
  rng : RandomSource
  fixture : Option PathBuf
  shell : Except TransportError PathBuf
  spawned : PaneId → SpawnRequest → Except TransportError P.Process
  fuel : Nat
  clock : TerminalPaneId → Nat → Instant
  saved : PersistedCatalog → Bool
  persistDue : Bool
  savedLate : PersistedCatalog → Bool

def UInt16.satSucc (n : UInt16) : UInt16 := if n = -1 then n else n + 1

/-- The default shell in a directory; the platform finds the shell. -/
def defaultShellRequest (shell : Except TransportError PathBuf) (workingDirectory : PathBuf)
    (size : TerminalSize) : Except TransportError SpawnRequest := do
  return {
    executable := ← shell
    arguments := []
    workingDirectory := workingDirectory
    environment := [("TERM".toUTF8.data.toList, "xterm-256color".toUTF8.data.toList),
      ("COLORTERM".toUTF8.data.toList, "truecolor".toUTF8.data.toList)]
    size := size }

/-! ## What the controlling client asks for -/

namespace SessionService

def catalogSnapshot (s : SessionService P) : ProviderCatalogSnapshot :=
  (ProviderCatalogSnapshot.new s.serviceInstance .nativeLocal .nativeLocal s.catalog).withPaneStatuses
    s.paneStatuses

/-- `session_panes`. -/
def listedPanes (expectedRevision : UInt64) (session : SessionId) :
    ServiceM P (List (PaneId × UInt64 × PaneLifecycle)) := do
  expectCatalogRevision expectedRevision
  let target ← okOr (.catalog .sessionNotFound) ((← get).catalog.sessions.get? session)
  return (target.windows.flatMap (·.panes.values)).map fun p => (p.id, p.generation, p.lifecycle)

def paneWorkingDirectory (pane : PaneId) : ServiceM P PathBuf := do
  let (_, p) ← definition pane
  return p.workingDirectory

def finishPaneStart (o : Outside P) (expectedRevision : UInt64) (session : SessionId)
    (pane : PaneId) (spawn : SpawnRequest) : ServiceM P ResponseBody := do
  let job ← beginStart (← get).serviceInstance expectedRevision session pane spawn
  finishStart (job.run (o.spawned pane))
  return .paneStarted pane job.generation

def startDefaultPane (o : Outside P) (expectedRevision : UInt64) (session : SessionId)
    (pane : PaneId) (rows columns : UInt16) : ServiceM P ResponseBody := do
  let directory ← paneWorkingDirectory pane
  let size ← ofExcept ((TerminalSize.new rows columns).mapError .transportRequest)
  let spawn ← ofExcept ((defaultShellRequest o.shell directory size).mapError .transportRequest)
  finishPaneStart o expectedRevision session pane spawn

def fixtureArguments : FixtureMode → List OsString
  | .hold => ["hold".toUTF8.data.toList]

def startFixturePane (o : Outside P) (expectedRevision : UInt64) (session : SessionId)
    (pane : PaneId) (mode : FixtureMode) (size : TerminalSize) : ServiceM P ResponseBody := do
  let executable ← okOr .fixtureUnavailable o.fixture
  let directory ← paneWorkingDirectory pane
  finishPaneStart o expectedRevision session pane
    ⟨executable, fixtureArguments mode, directory, [], size⟩

/-- A termination from its start to the completion of its job. -/
def terminatePane (expectedRevision : UInt64) (session : SessionId) (pane : PaneId)
    (generation : UInt64) : ServiceM P Unit := do
  let job ← beginTerminate (← get).serviceInstance expectedRevision session pane generation
    terminationGrace
  finishTerminate job.run

/-- The loop of `terminate_session`: how many live panes were terminated, and how many not. -/
def terminatePanes (session : SessionId) :
    List (PaneId × UInt64 × PaneLifecycle) → UInt16 × UInt16 → ServiceM P (UInt16 × UInt16)
  | [], counts => return counts
  | (pane, generation, lifecycle) :: rest, (terminated, failed) => do
    if lifecycle.isLive then
      let result ← attempt (do
        terminatePane (← get).catalog.revision session pane generation : ServiceM P Unit)
      terminatePanes session rest
        (if result.toBool then (UInt16.satSucc terminated, failed)
          else (terminated, UInt16.satSucc failed))
    else terminatePanes session rest (terminated, failed)

def terminateSession (expectedRevision : UInt64) (session : SessionId) :
    ServiceM P ResponseBody := do
  let panes ← listedPanes expectedRevision session
  let (terminated, failed) ← terminatePanes session panes (0, 0)
  return .sessionTerminated session terminated failed

/-- One pane of `restart_session`: a live pane is terminated first. -/
def restartPane (o : Outside P) (session : SessionId) (rows columns : UInt16) (pane : PaneId)
    (generation : UInt64) (lifecycle : PaneLifecycle) : ServiceM P Unit := do
  if lifecycle.isLive then terminatePane (← get).catalog.revision session pane generation
  discard (startDefaultPane o (← get).catalog.revision session pane rows columns)

def restartPanes (o : Outside P) (session : SessionId) (rows columns : UInt16) :
    List (PaneId × UInt64 × PaneLifecycle) → UInt16 × UInt16 → ServiceM P (UInt16 × UInt16)
  | [], counts => return counts
  | (pane, generation, lifecycle) :: rest, (restarted, failed) => do
    let result ← attempt (restartPane o session rows columns pane generation lifecycle)
    restartPanes o session rows columns rest
      (if result.toBool then (UInt16.satSucc restarted, failed)
        else (restarted, UInt16.satSucc failed))

def restartSession (o : Outside P) (expectedRevision : UInt64) (session : SessionId)
    (rows columns : UInt16) : ServiceM P ResponseBody := do
  let panes ← listedPanes expectedRevision session
  let (restarted, failed) ← restartPanes o session rows columns panes (0, 0)
  return .sessionRestarted session restarted failed

/-- A mutation of the catalog that is answered with the catalog. -/
def changeCatalog (mutation : CatalogM Unit) : ServiceM P ResponseBody := do
  applyCatalogMutation (← get).serviceInstance mutation
  return .catalogChanged (← get).catalogSnapshot

/-- A mutation of the catalog that is answered with an identifier. -/
def createInCatalog {α : Type} (respond : α → ResponseBody) (mutation : CatalogM α) :
    ServiceM P ResponseBody := do
  let result ← applyCatalogMutation (← get).serviceInstance mutation
  return respond result

/-- The match of `handle_controlled_request`. -/
def controlledResponse (o : Outside P) (expectedRevision : UInt64) :
    RequestBody → ServiceM P ResponseBody
  | .createSession name workingDirectory => do
    let session ← createSession (← get).serviceInstance expectedRevision name workingDirectory o.rng
    return .sessionCreated session
  | .importStoppedCatalog catalog => do
    importStoppedCatalog (← get).serviceInstance expectedRevision catalog
    return .catalogChanged (← get).catalogSnapshot
  | .renameSession session name =>
    changeCatalog (SessionCatalog.renameSession expectedRevision session name)
  | .activateSession session =>
    changeCatalog (SessionCatalog.activateSession expectedRevision session)
  | .duplicateSession session =>
    createInCatalog .sessionDuplicated
      (SessionCatalog.duplicateSession expectedRevision session o.rng)
  | .restartSession session rows columns => restartSession o expectedRevision session rows columns
  | .terminateSession session => terminateSession expectedRevision session
  | .removeSession session => changeCatalog (SessionCatalog.removeSession expectedRevision session)
  | .createWindow session name workingDirectory =>
    createInCatalog .windowCreated
      (SessionCatalog.createWindow expectedRevision session name workingDirectory o.rng)
  | .renameWindow session window name =>
    changeCatalog (SessionCatalog.renameWindow expectedRevision session window name)
  | .activateWindow session window =>
    changeCatalog (SessionCatalog.activateWindow expectedRevision session window)
  | .duplicateWindow session window =>
    createInCatalog .windowDuplicated
      (SessionCatalog.duplicateWindow expectedRevision session window o.rng)
  | .closeWindow session window =>
    changeCatalog (SessionCatalog.closeWindow expectedRevision session window)
  | .splitPane session axis =>
    createInCatalog .paneSplit (SessionCatalog.splitFocused expectedRevision session axis o.rng)
  | .focusPane session pane =>
    changeCatalog (SessionCatalog.focusPane expectedRevision session pane)
  | .setSplitRatio session ratio =>
    changeCatalog (SessionCatalog.setFocusedSplitRatio expectedRevision session ratio)
  | .closePane session pane =>
    changeCatalog (SessionCatalog.closePane expectedRevision session pane)
  | .startPane session pane rows columns =>
    startDefaultPane o expectedRevision session pane rows columns
  | .startFixturePane session pane mode rows columns => do
    let size ← ofExcept ((TerminalSize.new rows columns).mapError .transportRequest)
    startFixturePane o expectedRevision session pane mode size
  | .writePane pane generation bytes => do
    write (← get).serviceInstance pane generation bytes
    return .paneWritten
  | .resizePane pane generation rows columns => do
    let size ← ofExcept ((TerminalSize.new rows columns).mapError .transportRequest)
    resize (← get).serviceInstance expectedRevision pane generation size
    return .paneResized
  | .snapshot pane => do
    let screen ← snapshot pane
    return .paneSnapshot screen
  | .terminatePane session pane generation => do
    terminatePane expectedRevision session pane generation
    return .paneTerminated pane generation
  | .shutdown => do
    ensure ((← get).runtime.runningProcesses = 0) .runningPanesPreventShutdown
    return .shuttingDown
  | .catalog | .attach | .reconnect _ | .detach => throw .invalidWireRequest

/-- The response, and whether the daemon shuts down. -/
def handleControlledRequest (o : Outside P) (expectedRevision : UInt64) (request : RequestBody) :
    ServiceM P (ResponseBody × Bool) := do
  let response ← controlledResponse o expectedRevision request
  return (response, request = .shutdown)

end SessionService

/-! ## Requests -/

structure Daemon (P : Platform) where
  service : SessionService P
  controllingClient : Option UInt64

abbrev DaemonM (P : Platform) (ε α : Type) := Method (Daemon P) ε α

namespace Daemon

open SessionService

def onService {α : Type} (x : ServiceM P α) : DaemonM P ServiceError α :=
  focus (·.service) (fun d s => { d with service := s }) id x

def requireController (client : UInt64) : DaemonM P ServiceError Unit := do
  ensure ((← get).controllingClient = some client) .noAttachedClient

/-- `Attach` and `Reconnect`. -/
def attachClient (client : UInt64) : DaemonM P ServiceError ResponseBody := do
  let d ← get
  ensure (d.controllingClient.all (· = client)) .writerAlreadyAttached
  if d.controllingClient = none then
    onService (attach d.service.serviceInstance)
    modify fun d => { d with controllingClient := some client }
  return .attached (catalogSnapshot (← get).service)

def detachClient (o : Outside P) (client : UInt64) : DaemonM P ServiceError ResponseBody := do
  requireController client
  onService (detach o.now (← get).service.serviceInstance)
  modify fun d => { d with controllingClient := none }
  return .detached

def handleRequest (o : Outside P) (client : UInt64) (request : RequestEnvelope) :
    DaemonM P ServiceError (ResponseBody × Bool) := do
  ofExcept (request.validate.mapError fun _ => .invalidWireRequest)
  match request.body with
  | .catalog => return (.catalog (catalogSnapshot (← get).service), false)
  | .attach | .reconnect _ => return (← attachClient client, false)
  | .detach => return (← detachClient o client, false)
  | controlled => do
    requireController client
    onService (handleControlledRequest o request.expectedCatalogRevision controlled)

/-! ## The loop -/

/-- What ends the loop with an error. -/
inductive LoopError where
  | service (error : ServiceError)
  | store
  deriving DecidableEq

inductive ClientEvent where
  | request (client : UInt64) (request : RequestEnvelope)
  | disconnected (client : UInt64)

/-- What a round of the loop sends, under the identifier of the request, and whether it is the
last one. -/
structure Round where
  response : Option (UInt64 × Except ServiceError ResponseBody)
  last : Bool

def persistIfDirty (saved : PersistedCatalog → Bool) : DaemonM P LoopError Unit := do
  let record ← focus (·.service) (fun d s => { d with service := s }) .service takePersistence
  match record with
  | none => return ()
  | some record => ensure (saved record) .store

/-- A request, up to the moment at which its response is sent. -/
def serveRequest (o : Outside P) (client : UInt64) (request : RequestEnvelope) :
    DaemonM P LoopError (Except ServiceError (ResponseBody × Bool)) := do
  let result ← attempt (handleRequest o client request)
  persistIfDirty o.saved
  return result

/-- The end of a connection. The result of `detach` is dropped. -/
def serveDisconnect (o : Outside P) (client : UInt64) : DaemonM P LoopError Unit := do
  let d ← get
  if d.controllingClient = some client then
    discard (attempt (onService (detach o.now d.service.serviceInstance)) :
      DaemonM P LoopError (Except ServiceError Unit))
    modify fun d => { d with controllingClient := none }

/-- The rest of a round: whether the daemon has been idle for too long. -/
def settle (o : Outside P) : DaemonM P LoopError Bool := do
  discard (attempt (onService (tick o.fuel o.clock)) :
    DaemonM P LoopError (Except ServiceError (SortedMap PaneId Unit)))
  if o.persistDue then persistIfDirty o.savedLate
  return (← get).service.shouldExit o.now

/-- A round of the loop. A request that fails is answered, and the rest of the round left out. -/
def runRound (o : Outside P) : Option ClientEvent → DaemonM P LoopError Round
  | some (.request client request) => do
    match ← serveRequest o client request with
    | .error error => return ⟨some (request.requestId, .error error), false⟩
    | .ok (body, shutdown) =>
      return ⟨some (request.requestId, .ok body), (← settle o) || shutdown⟩
  | some (.disconnected client) => do
    serveDisconnect o client
    return ⟨none, ← settle o⟩
  | none => return ⟨none, ← settle o⟩

/-- The daemon after a round, where the loop goes on. -/
def step (d : Daemon P) (e : Outside P × Option ClientEvent) : Option (Daemon P) :=
  match (runRound e.1 e.2).exec d with
  | some (.ok round, d') => if round.last then none else some d'
  | _ => none

/-- The daemon as `main` starts it: with a new service, or one restored from the store. -/
structure Initial (d : Daemon P) : Prop where
  service : (∃ i limit idle now next,
      SessionService.new i .new limit idle now next = .ok d.service) ∨
    ∃ i r limit idle now next, SessionService.restore i r limit idle now next = .ok d.service
  free : d.controllingClient = none

end Daemon
end Strukt
