import Strukt.Lib.Method
import Strukt.Session.Protocol

/-!
# The client of a session service

`SessionClient` has one connection lane: a job that connects or sends a request is begun, runs on
another thread with the connection moved into it, and its completion is handed back. What is behind
the connection is a parameter (`ClientTransport`).
-/

namespace Strukt

open Method

/-- The transports that a client connects to (`ClientBackend`), and their connections
(`ProviderConnection`). -/
structure ClientTransport where
  Backend : Type
  Connection : Type
  serviceInstance : Connection → ServiceInstanceId

inductive ClientConnectIntent where
  | explicitCreate
  | explicitAttach
  | explicitRestart
  | reconnect
  deriving DecidableEq

inductive ClientHealth where
  | stopped
  | connecting
  | ready
  | stale
  | failed
  deriving DecidableEq

inductive ClientError where
  | unavailable
  | requestInFlight
  | transportLost
  | staleService
  | protocol
  | invalidPath
  | protocolDetail (detail : String)
  | provider (error : ProviderError)
  | io (detail : String)
  | endpoint (detail : String)
  | rendezvous (detail : String)
  | authentication (detail : String)
  | frame (detail : String)
  deriving DecidableEq

variable {T : ClientTransport}

structure SessionClient (T : ClientTransport) where
  backend : T.Backend
  connection : Option T.Connection
  requestIds : RequestIdGenerator
  inFlight : Bool
  health : ClientHealth
  serviceInstance : Option ServiceInstanceId
  catalog : Option ProviderCatalogSnapshot
  snapshots : SortedMap PaneId PaneScreenSnapshot
  reconnectResync : List PaneId

structure ClientConnectJob (T : ClientTransport) where
  backend : T.Backend
  intent : ClientConnectIntent
  requestId : UInt64
  expectedCatalogRevision : UInt64
  reconnectCursors : List PaneOutputCursor

structure ClientConnectCompletion (T : ClientTransport) where
  requestId : UInt64
  intent : ClientConnectIntent
  result : Except ClientError (T.Connection × ResponseEnvelope)

structure ClientRequestJob (T : ClientTransport) where
  connection : T.Connection
  request : RequestEnvelope

structure ClientRequestCompletion (T : ClientTransport) where
  requestId : UInt64
  connection : T.Connection
  result : Except ClientError ResponseEnvelope

/-- The snapshot that the response to an attach carries. -/
def attachedSnapshot (response : ResponseEnvelope) (requestId : UInt64)
    (serviceInstance : ServiceInstanceId) : Except ClientError ProviderCatalogSnapshot :=
  if response.requestId ≠ requestId then .error .protocol
  else
    match response.result with
    | .ok (.attached snapshot) =>
      if snapshot.serviceInstance = serviceInstance then .ok snapshot else .error .staleService
    | .ok _ => .error .protocol
    | .error error => .error (.provider error)

abbrev ClientM (T : ClientTransport) := Method (SessionClient T) ClientError

namespace SessionClient

def fromBackend (backend : T.Backend) : SessionClient T :=
  ⟨backend, none, ⟨0⟩, false, .stopped, none, none, .empty, []⟩

/-- The health of a client that has lost its service: stale where it knows a catalog. -/
def lostHealth (c : SessionClient T) : ClientHealth :=
  if c.catalog.isSome then .stale else .failed

def lost (c : SessionClient T) : SessionClient T :=
  { c with connection := none, inFlight := false, health := c.lostHealth }

def catalogRevision (c : SessionClient T) : UInt64 :=
  (c.catalog.map (·.catalog.revision)).getD 0

def markTransportLost : ClientM T Unit := modify lost

def rebindBackend (backend : T.Backend) : ClientM T Unit := do
  ensure (¬(← get).inFlight) .requestInFlight
  modify fun c => { c with
    backend := backend
    connection := none
    health := if c.catalog.isSome then .stale else .stopped }

def reserve : ClientM T Unit := do
  ensure (¬(← get).inFlight) .requestInFlight
  modify fun c => { c with inFlight := true }

def nextRequestId : ClientM T UInt64 := do
  match (← get).requestIds.nextId with
  | .ok (id, generator) =>
    modify fun c => { c with requestIds := generator }
    return id
  | .error _ =>
    modify fun c => { c with inFlight := false }
    throw (.protocolDetail "session request identifier space is exhausted")

/-- The order of the cursors, which the source takes from a hash map, is that of the panes. -/
def beginConnect (intent : ClientConnectIntent) : ClientM T (ClientConnectJob T) := do
  reserve
  modify fun c => { c with health := .connecting }
  let requestId ← nextRequestId
  let c ← get
  return ⟨c.backend, intent, requestId, c.catalogRevision,
    c.snapshots.entries.filterMap fun (pane, snapshot) =>
      (PaneOutputCursor.new pane snapshot.generation snapshot.outputRevision).toOption⟩

/-- The state that an attach leaves. -/
def attached (c : SessionClient T) (intent : ClientConnectIntent) (connection : T.Connection)
    (snapshot : ProviderCatalogSnapshot) : SessionClient T :=
  let serviceInstance := T.serviceInstance connection
  let sameInstance := c.serviceInstance = some serviceInstance
  let snapshots :=
    if sameInstance then c.snapshots.filterKeys snapshot.catalog.containsPane else .empty
  { c with
    snapshots := snapshots
    reconnectResync :=
      if intent = .reconnect ∧ sameInstance then
        snapshots.keys.filter snapshot.catalog.containsPane
      else []
    serviceInstance := some serviceInstance
    catalog := some snapshot
    connection := some connection
    health := .ready }

def finishConnect (completion : ClientConnectCompletion T) : ClientM T Unit := do
  modify fun c => { c with inFlight := false }
  match completion.result with
  | .error error => do
    modify fun c => { c with health := c.lostHealth }
    throw error
  | .ok (connection, response) =>
    match attachedSnapshot response completion.requestId (T.serviceInstance connection) with
    | .error error => do
      modify fun c => { c with health := c.lostHealth }
      throw error
    | .ok snapshot => modify (·.attached completion.intent connection snapshot)

def beginRequest (body : RequestBody) : ClientM T (ClientRequestJob T) := do
  reserve
  if (← get).health ≠ .ready then
    modify fun c => { c with inFlight := false }
    throw .unavailable
  let requestId ← nextRequestId
  match (← get).connection with
  | none => do
    modify fun c => { c with inFlight := false }
    throw .unavailable
  | some connection => do
    modify fun c => { c with connection := none }
    let c ← get
    return ⟨connection, .new requestId c.catalogRevision body⟩

def finishRequest (completion : ClientRequestCompletion T) : ClientM T ResponseBody := do
  modify fun c => { c with inFlight := false }
  match completion.result with
  | .error error => do
    markTransportLost
    throw error
  | .ok response =>
    if response.requestId ≠ completion.requestId then do
      markTransportLost
      throw .protocol
    else
      match response.result with
      | .error error => do
        modify fun c => { c with connection := some completion.connection }
        throw (.provider error)
      | .ok body =>
        match body with
        | .catalog snapshot | .attached snapshot | .catalogChanged snapshot =>
          if snapshot.serviceInstance ≠ T.serviceInstance completion.connection then do
            markTransportLost
            throw .staleService
          else do
            modify fun c => { c with
              snapshots := c.snapshots.filterKeys snapshot.catalog.containsPane
              serviceInstance := some snapshot.serviceInstance
              catalog := some snapshot
              connection := some completion.connection }
            return body
        | .detached => do
          modify fun c => { c with connection := none, serviceInstance := none, health := .stopped }
          return body
        | _ => do
          modify fun c => { c with connection := some completion.connection }
          return body

/-- Whether the snapshot was newer than what the client had. -/
def applySnapshot (pane : PaneId) (snapshot : PaneScreenSnapshot) : ClientM T Bool := do
  let newer := (← get).snapshots.get? pane |>.all fun current =>
    snapshot.generation > current.generation ∨
      (snapshot.generation = current.generation ∧ snapshot.outputRevision > current.outputRevision)
  if newer then modify fun c => { c with snapshots := c.snapshots.insert pane snapshot }
  return newer

def takeReconnectResyncPane : ClientM T (Option PaneId) := do
  let c ← get
  set { c with reconnectResync := c.reconnectResync.tail }
  return c.reconnectResync.head?

end SessionClient
end Strukt
