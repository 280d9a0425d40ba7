import Strukt.Session.Snapshot

/-!
# Requests and responses

The bodies that a client and the service exchange, their envelopes, and what `validate` accepts of a
request (`RequestBody.Valid`).
-/

namespace Strukt

def protocolVersion : UInt16 := 2
def maxNameChars : Nat := 80
def maxPathBytes : Nat := 4096
def maxInputBytes : Nat := 256 * 1024
def maxReconnectPanes : Nat := 512

inductive WireError where
  | versionIncompatible
  | invalidRequestId
  | requestIdExhausted
  | invalidBody
  deriving DecidableEq

structure PaneOutputCursor where
  pane : PaneId
  generation : UInt64
  outputRevision : UInt64
  deriving DecidableEq

def PaneOutputCursor.new (pane : PaneId) (generation outputRevision : UInt64) :
    Except WireError PaneOutputCursor :=
  if generation = 0 then .error .invalidBody else .ok ⟨pane, generation, outputRevision⟩

inductive FixtureMode where
  | hold
  deriving DecidableEq

inductive RequestBody where
  | catalog
  | attach
  | reconnect (cursors : List PaneOutputCursor)
  | detach
  | createSession (name : String) (workingDirectory : PathBuf)
  | importStoppedCatalog (catalog : SessionCatalog)
  | renameSession (session : SessionId) (name : String)
  | activateSession (session : SessionId)
  | duplicateSession (session : SessionId)
  | restartSession (session : SessionId) (rows columns : UInt16)
  | terminateSession (session : SessionId)
  | removeSession (session : SessionId)
  | createWindow (session : SessionId) (name : String) (workingDirectory : PathBuf)
  | renameWindow (session : SessionId) (window : WindowId) (name : String)
  | activateWindow (session : SessionId) (window : WindowId)
  | duplicateWindow (session : SessionId) (window : WindowId)
  | closeWindow (session : SessionId) (window : WindowId)
  | splitPane (session : SessionId) (axis : SplitAxis)
  | focusPane (session : SessionId) (pane : PaneId)
  | setSplitRatio (session : SessionId) (ratioBasisPoints : UInt16)
  | closePane (session : SessionId) (pane : PaneId)
  | startPane (session : SessionId) (pane : PaneId) (rows columns : UInt16)
  | startFixturePane (session : SessionId) (pane : PaneId) (mode : FixtureMode)
      (rows columns : UInt16)
  | writePane (pane : PaneId) (generation : UInt64) (bytes : List UInt8)
  | resizePane (pane : PaneId) (generation : UInt64) (rows columns : UInt16)
  | snapshot (pane : PaneId)
  | terminatePane (session : SessionId) (pane : PaneId) (generation : UInt64)
  | shutdown
  deriving DecidableEq

structure RequestEnvelope where
  version : UInt16
  requestId : UInt64
  expectedCatalogRevision : UInt64
  body : RequestBody
  deriving DecidableEq

def RequestEnvelope.new (requestId expectedCatalogRevision : UInt64) (body : RequestBody) :
    RequestEnvelope :=
  ⟨protocolVersion, requestId, expectedCatalogRevision, body⟩

def validReconnectCursors (cursors : List PaneOutputCursor) : Bool :=
  cursors.length ≤ maxReconnectPanes && cursors.all (·.generation > 0)

/-- The name of a session or window is neither blank nor too long. -/
def validName (name : String) : Bool :=
  !(trim name).isEmpty && (trim name).length ≤ maxNameChars

def validPath (path : PathBuf) : Bool :=
  !path.bytes.isEmpty && path.bytes.length ≤ maxPathBytes

/-- No pane of the catalog was ever started. -/
def SessionCatalog.neverStarted (c : SessionCatalog) : Bool :=
  (c.sessions.values.flatMap (·.windows)).all fun w =>
    w.panes.values.all fun p => p.generation = 0 && p.lifecycle = .stopped

/-- The body passes the match of `validate`. -/
def RequestBody.accepted : RequestBody → Bool
  | createSession name directory | createWindow _ name directory =>
    validName name && validPath directory
  | renameSession _ name | renameWindow _ _ name => validName name
  | setSplitRatio _ ratio => 1000 ≤ ratio && ratio ≤ 9000
  | importStoppedCatalog c => c.validate.toBool && c.neverStarted
  | startPane _ _ rows columns | startFixturePane _ _ _ rows columns
  | restartSession _ rows columns => rows ≠ 0 && columns ≠ 0
  | resizePane _ generation rows columns => rows ≠ 0 && columns ≠ 0 && generation ≠ 0
  | writePane _ generation bytes => generation ≠ 0 && bytes.length ≤ maxInputBytes
  | terminatePane _ _ generation => generation ≠ 0
  | reconnect cursors => validReconnectCursors cursors
  | _ => true

def RequestEnvelope.validate (r : RequestEnvelope) : Except WireError Unit :=
  if r.version ≠ protocolVersion then .error .versionIncompatible
  else if r.requestId = 0 then .error .invalidRequestId
  else if r.body.accepted then .ok ()
  else .error .invalidBody

/-! ## Providers -/

inductive ProviderKind where
  | nativeLocal
  | nativeRemote
  | tmux
  deriving DecidableEq

structure ProviderCapabilities where
  catalog : Bool
  attach : Bool
  detach : Bool
  createSession : Bool
  renameSession : Bool
  duplicateSession : Bool
  terminateSession : Bool
  mutateWindows : Bool
  mutatePanes : Bool
  structuredHistory : Bool
  input : Bool
  resize : Bool
  deriving DecidableEq

def ProviderCapabilities.nativeLocal : ProviderCapabilities :=
  ⟨true, true, true, true, true, true, true, true, true, true, true, true⟩

structure ProviderCatalogSnapshot where
  serviceInstance : ServiceInstanceId
  providerKind : ProviderKind
  capabilities : ProviderCapabilities
  catalog : SessionCatalog
  paneStatuses : SortedMap PaneId (UInt64 × AttentionState)
  deriving DecidableEq

def ProviderCatalogSnapshot.new (serviceInstance : ServiceInstanceId) (providerKind : ProviderKind)
    (capabilities : ProviderCapabilities) (catalog : SessionCatalog) : ProviderCatalogSnapshot :=
  ⟨serviceInstance, providerKind, capabilities, catalog, .empty⟩

def ProviderCatalogSnapshot.withPaneStatuses (s : ProviderCatalogSnapshot)
    (statuses : List (PaneId × UInt64 × AttentionState)) : ProviderCatalogSnapshot :=
  { s with paneStatuses := .ofList statuses }

inductive ProviderError where
  | unavailable
  | authenticationFailed
  | versionIncompatible
  | staleRevision
  | capacityReached
  | invalidAction
  | notFound
  | transportLost
  | processFailed (detail : String)
  | internal (detail : String)
  deriving DecidableEq

/-! ## Responses -/

inductive ResponseBody where
  | catalog (snapshot : ProviderCatalogSnapshot)
  | attached (snapshot : ProviderCatalogSnapshot)
  | detached
  | sessionCreated (session : SessionId)
  | sessionDuplicated (session : SessionId)
  | sessionRestarted (session : SessionId) (restarted failed : UInt16)
  | sessionTerminated (session : SessionId) (terminated failed : UInt16)
  | windowCreated (window : WindowId)
  | windowDuplicated (window : WindowId)
  | paneSplit (pane : PaneId)
  | catalogChanged (snapshot : ProviderCatalogSnapshot)
  | paneStarted (pane : PaneId) (generation : UInt64)
  | paneWritten
  | paneResized
  | paneSnapshot (snapshot : PaneScreenSnapshot)
  | paneTerminated (pane : PaneId) (generation : UInt64)
  | shuttingDown
  deriving DecidableEq

structure ResponseEnvelope where
  version : UInt16
  requestId : UInt64
  result : Except ProviderError ResponseBody

def ResponseEnvelope.ok (requestId : UInt64) (body : ResponseBody) : ResponseEnvelope :=
  ⟨protocolVersion, requestId, .ok body⟩

def ResponseEnvelope.error (requestId : UInt64) (error : ProviderError) : ResponseEnvelope :=
  ⟨protocolVersion, requestId, .error error⟩

/-- `RequestIdGenerator`: the last identifier given out. -/
structure RequestIdGenerator where
  current : UInt64
  deriving DecidableEq

def RequestIdGenerator.nextId (g : RequestIdGenerator) :
    Except WireError (UInt64 × RequestIdGenerator) :=
  if g.current = -1 then .error .requestIdExhausted else .ok (g.current + 1, ⟨g.current + 1⟩)

end Strukt
