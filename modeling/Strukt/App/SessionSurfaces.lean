import Strukt.Persistence.SessionMigration
import Strukt.Session.Client

/-!
# The session surfaces

`SessionSurfaces` shows the sessions of one client, on this machine or on a remote one, and
remembers what is selected and what the request in flight is for (`PendingRequest`). The client is
replaced when a remote machine is connected (`useRemoteClient`); a job that is running keeps the
connection of the client that began it.

A session's active window and a window's focused pane are indexed: an operation that does not find
them panics.
-/

namespace Strukt.App

open Method

variable {T : ClientTransport}

inductive PendingRequest where
  | ordinary
  | snapshot (pane : PaneId)
  | detach
  | migration
  deriving DecidableEq

inductive PersistentProvider where
  | native
  | tmux
  deriving DecidableEq

inductive SessionUiError where
  | unavailable
  | noSelection
  | requestInFlight
  | consumed
  | noPendingRequest
  | client (error : ClientError)
  | migration (error : SessionMigrationError)
  deriving DecidableEq

structure SessionSurfaces (T : ClientTransport) where
  client : Option (SessionClient T)
  selectedSession : Option SessionId
  selectedWindow : Option WindowId
  selectedPane : Option PaneId
  pending : Option PendingRequest
  migrationPlan : Option SessionMigrationPlan
  completedMigration : Option SessionMigrationPlan
  remoteConnectionId : Option String
  remoteHost : Option String
  workspaceRoot : Option PathBuf
  tmuxAvailable : Bool
  remoteProvider : Option PersistentProvider

/-- A method on the surfaces. -/
abbrev SessionsM (T : ClientTransport) (α : Type) := Method (SessionSurfaces T) SessionUiError α

namespace SessionSurfaces

def withClient (client : SessionClient T) : SessionSurfaces T :=
  ⟨some client, none, none, none, none, none, none, none, none, none, false, none⟩

/-- The surfaces where the paths of the platform are not found. -/
def unconfigured : SessionSurfaces T :=
  ⟨none, none, none, none, none, none, none, none, none, none, false, none⟩

def health (s : SessionSurfaces T) : ClientHealth := (s.client.map (·.health)).getD .failed

def catalog (s : SessionSurfaces T) : Option ProviderCatalogSnapshot := s.client.bind (·.catalog)

def snapshot (s : SessionSurfaces T) (pane : PaneId) : Option PaneScreenSnapshot :=
  s.client.bind (·.snapshots.get? pane)

def activeSnapshot (s : SessionSurfaces T) : Option PaneScreenSnapshot :=
  s.selectedPane.bind s.snapshot

def requestInFlight (s : SessionSurfaces T) : Bool := s.pending.isSome || s.client.any (·.inFlight)

def canSwitchRemoteProvider (s : SessionSurfaces T) : Bool :=
  s.remoteHost.isSome && !s.requestInFlight

/-- A method on the client, where there is one. -/
def onClient {α : Type} (x : ClientM T α) : SessionsM T α := do
  let client ← okOr .unavailable (← get).client
  focus (fun _ => client) (fun s c => { s with client := some c }) .client x

/-! ## Remote clients -/

def useRemoteClient (client : SessionClient T) (connectionId host : String)
    (workspaceRoot : PathBuf) (tmuxAvailable : Bool) (provider : PersistentProvider) :
    SessionSurfaces T :=
  { withClient client with
    remoteConnectionId := some connectionId
    remoteHost := some host
    workspaceRoot := some workspaceRoot
    tmuxAvailable := tmuxAvailable
    remoteProvider := some provider }

def matchesRemoteIdentity (connectionId host : String) (provider : PersistentProvider)
    (s : SessionSurfaces T) : Bool :=
  s.remoteConnectionId = some connectionId && s.remoteHost = some host &&
    s.remoteProvider = some provider

def rebindRemoteBackend (backend : T.Backend) (connectionId host : String)
    (workspaceRoot : PathBuf) (tmuxAvailable : Bool) (provider : PersistentProvider) :
    SessionsM T Bool := do
  let s ← get
  if s.matchesRemoteIdentity connectionId host provider ∧
      (s.health = .stale ∨ s.health = .failed) then
    onClient (SessionClient.rebindBackend backend)
    modify fun s => { s with workspaceRoot := some workspaceRoot, tmuxAvailable := tmuxAvailable }
    return true
  else return false

def markRemoteDisconnected (s : SessionSurfaces T) : SessionSurfaces T :=
  if s.remoteHost.isSome then { s with client := s.client.map (·.lost) } else s

/-! ## The selection -/

def select (s : SessionSurfaces T) (selection : SessionId × WindowId × PaneId) :
    SessionSurfaces T :=
  { s with
    selectedSession := some selection.1
    selectedWindow := some selection.2.1
    selectedPane := some selection.2.2 }

/-- The focused pane of a window of the session. -/
def windowSelection (session : SessionId) (w : SessionWindow) :
    SessionsM T (SessionId × WindowId × PaneId) := do
  let pane ← orPanic w.focused
  return (session, w.id, pane.id)

def selectSession (session : SessionId) : SessionsM T Bool := do
  match ((← get).catalog.bind (·.catalog.sessions.get? session)).bind Session.active with
  | none => return false
  | some window => do
    let selection ← windowSelection session window
    modify (·.select selection)
    return true

def selectWindow (window : WindowId) : SessionsM T Bool := do
  let s ← get
  match s.selectedSession with
  | none => return false
  | some session =>
    match (s.catalog.bind (·.catalog.sessions.get? session)).bind
        (·.findWindow (·.id = window)) with
    | none => return false
    | some target => do
      let pane ← orPanic target.focused
      modify fun s => { s with selectedWindow := some window, selectedPane := some pane.id }
      return true

def selectPane (pane : PaneId) : SessionsM T Bool := do
  match (← get).catalog.bind (·.catalog.pane pane) with
  | none => return false
  | some (session, window, _) => do
    modify (·.select (session, window, pane))
    return true

/-- The session that is shown where nothing valid is selected. -/
def shownSession (c : SessionCatalog) : Option Session :=
  (c.activeSession.bind c.sessions.get?).or c.sessions.values.head?

def shownWindow (s : Session) : Option SessionWindow := s.active.or s.windows.head?

def syncSelection : SessionsM T Unit := do
  let s ← get
  if s.selectedPane.any (fun pane => s.catalog.any (·.catalog.containsPane pane)) then return ()
  else
    match s.catalog.bind (shownSession ·.catalog) with
    | none => modify fun s =>
        { s with selectedSession := none, selectedWindow := none, selectedPane := none }
    | some session =>
      match shownWindow session with
      | none => modify fun s =>
          { s with selectedSession := none, selectedWindow := none, selectedPane := none }
      | some window => do
        let selection ← windowSelection session.id window
        modify (·.select selection)

/-! ## Connects and requests -/

def beginConnect : SessionsM T (ClientConnectJob T) :=
  onClient (SessionClient.beginConnect .explicitAttach)

def beginReconnect : SessionsM T (ClientConnectJob T) :=
  onClient (SessionClient.beginConnect .reconnect)

def finishConnect (completion : ClientConnectCompletion T) : SessionsM T Unit := do
  onClient (SessionClient.finishConnect completion)
  syncSelection

def beginTaggedRequest (body : RequestBody) (pending : PendingRequest) :
    SessionsM T (ClientRequestJob T) := do
  ensure (← get).pending.isNone .requestInFlight
  let job ← onClient (SessionClient.beginRequest body)
  modify fun s => { s with pending := some pending }
  return job

def beginRequest (body : RequestBody) : SessionsM T (ClientRequestJob T) :=
  beginTaggedRequest body .ordinary

def beginSnapshot : SessionsM T (ClientRequestJob T) := do
  let pane ← okOr .noSelection (← get).selectedPane
  beginTaggedRequest (.snapshot pane) (.snapshot pane)

def beginNextReconnectResync : SessionsM T (Option (ClientRequestJob T)) := do
  match ← onClient SessionClient.takeReconnectResyncPane with
  | none => return none
  | some pane => do
    let job ← beginTaggedRequest (.snapshot pane) (.snapshot pane)
    return some job

def beginDetach : SessionsM T (ClientRequestJob T) := beginTaggedRequest .detach .detach

/-- The plan's identifiers come from the random source. -/
def beginMigration (state : WorkspaceState) (rng : RandomSource) :
    SessionsM T (Option (ClientRequestJob T)) := do
  let existing := (← get).catalog.map (·.catalog)
  let outcome ← orPanic (planSessionMigration state existing rng)
  match ← ofExcept (outcome.mapError .migration) with
  | .none | .m3Authoritative => return none
  | .planned plan => do
    let job ← beginTaggedRequest (.importStoppedCatalog plan.catalog) .migration
    modify fun s => { s with migrationPlan := some plan }
    return some job

def takeCompletedMigration : SessionsM T (Option SessionMigrationPlan) := do
  let s ← get
  set { s with completedMigration := none }
  return s.completedMigration

def isCatalogChanged : ResponseBody → Bool
  | .catalogChanged _ => true
  | _ => false

/-- The snapshot that a response brings for the pane it was requested for. -/
def requestedSnapshot : PendingRequest → ResponseBody → Option (PaneId × PaneScreenSnapshot)
  | .snapshot pane, .paneSnapshot screen => some (pane, screen)
  | _, _ => none

def applyRequested (pending : PendingRequest) (response : ResponseBody) : SessionsM T Unit :=
  match requestedSnapshot pending response with
  | some (pane, screen) => discard (onClient (SessionClient.applySnapshot pane screen))
  | none => pure ()

def completeMigration (pending : PendingRequest) (response : ResponseBody) : SessionsM T Unit :=
  if pending = .migration ∧ isCatalogChanged response then
    modify fun s => { s with completedMigration := s.migrationPlan, migrationPlan := none }
  else pure ()

def finishRequest (completion : ClientRequestCompletion T) : SessionsM T ResponseBody := do
  let pending ← okOr .noPendingRequest (← get).pending
  modify fun s => { s with pending := none }
  let response ← onClient (SessionClient.finishRequest completion)
  applyRequested pending response
  completeMigration pending response
  syncSelection
  return response

end SessionSurfaces
end Strukt.App
