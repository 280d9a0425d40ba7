import Strukt.Lib.Method
import Strukt.Lib.SortedMap
import Strukt.Prim

/-!
# The language client

A `LanguageClient` speaks to one language server at a time: it queues the messages for the server,
remembers which documents it opened at which revision, holds changed texts back to coalesce them,
and knows its outstanding requests.

* **Generations**: `start` begins a server process. `restartGeneration`, `processExited`,
  `failProtocol` and `finishShutdown` end it and empty the queue, the held changes and the
  requests; none of them forgets a document.
* **Errors**: a method that fails after its first write leaves that write. The methods that queue a
  message write their maps first.
* **Hash maps**: the maps are sorted here. Where the source takes the keys in the order of a
  `HashMap`, a `HashOrder` gives the order.
-/

namespace Strukt.Language

open Method

def outboundLimit : Nat := 256
def requestLimit : Nat := 256
def changeDelay : Duration := ⟨250000000, by decide⟩
def initializeTimeout : Duration := ⟨10000000000, by decide⟩
def requestTimeout : Duration := ⟨5000000000, by decide⟩
def shutdownTimeout : Duration := ⟨2000000000, by decide⟩
def idleShutdownDelay : Duration := ⟨30000000000, by decide⟩
def restartWindow : Duration := ⟨600000000000, by decide⟩
def restartDelays : List Duration :=
  [⟨250000000, by decide⟩, ⟨1000000000, by decide⟩, ⟨4000000000, by decide⟩]

inductive LanguageServerState where
  | discovering
  | starting
  | ready
  | degraded
  | restarting
  | failed
  | stopping
  | stopped
  deriving DecidableEq

structure RequestId where
  value : UInt64
  deriving DecidableEq

instance : LinearOrder RequestId :=
  LinearOrder.lift' (fun id => id.value.toNat) fun a b h => by
    cases a; cases b; cases UInt64.toNat_inj.mp h; rfl

inductive ProtocolError where
  | invalidJson
  | invalidMessage
  | requestIdExhausted
  | duplicateRequest (id : UInt64)
  | unexpectedResponse (id : UInt64)
  | tooManyOutstandingRequests
  deriving DecidableEq

inductive ClientError where
  | notReady
  | invalidState
  | staleResponse
  | unknownDocument
  | invalidRevision
  | unsupportedFeature
  | outboundQueueFull
  | tooManyRequests
  | protocol (e : ProtocolError)
  deriving DecidableEq

inductive PositionEncoding where
  | utf8
  | utf16
  deriving DecidableEq

structure LspPosition where
  line : UInt32
  character : UInt32
  deriving DecidableEq

inductive FeatureRequestKind where
  | completion
  | hover
  | definition
  deriving DecidableEq

def FeatureRequestKind.method : FeatureRequestKind → String
  | .completion => "textDocument/completion"
  | .hover => "textDocument/hover"
  | .definition => "textDocument/definition"

def FeatureRequestKind.flag : FeatureRequestKind → UInt8
  | .completion => 1
  | .hover => 2
  | .definition => 4

inductive SynchronizationKind where
  | none
  | full
  deriving DecidableEq

structure ServerCapabilities where
  synchronization : SynchronizationKind
  saveNotifications : Bool
  features : UInt8
  positionEncoding : PositionEncoding
  deriving DecidableEq

namespace ServerCapabilities

def new (synchronization : SynchronizationKind) (features : List FeatureRequestKind)
    (positionEncoding : PositionEncoding) : ServerCapabilities :=
  ⟨synchronization, false, features.foldl (fun flags feature => flags ||| feature.flag) 0,
    positionEncoding⟩

def supports (c : ServerCapabilities) (kind : FeatureRequestKind) : Bool :=
  c.features &&& kind.flag ≠ 0

def withSaveNotifications (c : ServerCapabilities) (enabled : Bool) : ServerCapabilities :=
  { c with saveNotifications := enabled }

end ServerCapabilities

/-! ## Messages -/

inductive Json where
  | null
  | number (n : Nat)
  | string (s : String)
  | array (l : List Json)
  | object (fields : List (String × Json))

inductive OutboundMessage where
  | initializeRequest (id : RequestId) (workspaceId : String)
  | initialized
  | didOpen (document languageId : String) (version : UInt64) (text : String)
  | didSave (document : String)
  | didClose (document : String)
  | didChange (document : String) (version : UInt64) (text : String)
  | feature (id : RequestId) (kind : FeatureRequestKind) (document : String)
      (position : LspPosition)
  | cancelRequest (id : RequestId)
  | shutdown (id : RequestId)
  | exit
  deriving DecidableEq

namespace OutboundMessage

def id : OutboundMessage → Option RequestId
  | .initializeRequest id _ | .feature id .. | .shutdown id => some id
  | _ => none

def method : OutboundMessage → String
  | .initializeRequest .. => "initialize"
  | .initialized => "initialized"
  | .didOpen .. => "textDocument/didOpen"
  | .didSave _ => "textDocument/didSave"
  | .didClose _ => "textDocument/didClose"
  | .didChange .. => "textDocument/didChange"
  | .feature _ kind _ _ => kind.method
  | .cancelRequest _ => "$/cancelRequest"
  | .shutdown _ => "shutdown"
  | .exit => "exit"

def params : OutboundMessage → Json
  | .initializeRequest _ workspaceId =>
    .object
      [("processId", .null),
        ("clientInfo", .object [("name", .string "strukt")]),
        ("workspaceFolders",
          .array [.object [("uri", .string workspaceId), ("name", .string workspaceId)]]),
        ("capabilities", .object
          [("general",
              .object [("positionEncodings", .array [.string "utf-8", .string "utf-16"])]),
            ("textDocument", .object
              [("synchronization", .object []), ("completion", .object []),
                ("hover", .object []), ("definition", .object [])])])]
  | .initialized => .object []
  | .didOpen document languageId version text =>
    .object [("textDocument", .object
      [("uri", .string document), ("languageId", .string languageId),
        ("version", .number version.toNat), ("text", .string text)])]
  | .didSave document | .didClose document =>
    .object [("textDocument", .object [("uri", .string document)])]
  | .didChange document version text =>
    .object
      [("textDocument",
          .object [("uri", .string document), ("version", .number version.toNat)]),
        ("contentChanges", .array [.object [("text", .string text)]])]
  | .feature _ _ document position =>
    .object
      [("textDocument", .object [("uri", .string document)]),
        ("position", .object
          [("line", .number position.line.toNat),
            ("character", .number position.character.toNat)])]
  | .cancelRequest id => .object [("id", .number id.value.toNat)]
  | .shutdown _ | .exit => .null

def jsonRpc (m : OutboundMessage) : Json :=
  let message := [("jsonrpc", .string "2.0"), ("method", .string m.method), ("params", m.params)]
  match m.id with
  | some id => .object (message ++ [("id", .number id.value.toNat)])
  | none => .object message

end OutboundMessage

/-! ## The client -/

structure FeatureRequest where
  id : RequestId
  kind : FeatureRequestKind
  document : String
  revision : UInt64
  position : LspPosition
  generation : UInt64
  deadline : Duration
  deriving DecidableEq

inductive ResponseDisposition where
  | applied
  | stale
  deriving DecidableEq

inductive ClientTimeout where
  | initialization
  | request (id : RequestId)
  | shutdown
  | idleShutdown
  deriving DecidableEq

structure PendingChange where
  revision : UInt64
  text : String
  due : Duration
  deriving DecidableEq

/-- An order in which a hash map gives the keys of its entries. -/
structure HashOrder where
  order : List RequestId → List RequestId
  perm : ∀ ids, (order ids).Perm ids

/-- The order of the keys themselves. -/
def HashOrder.sorted : HashOrder := ⟨fun ids => ids, fun _ => .rfl⟩

structure LanguageClient where
  workspaceId : String
  descriptorId : String
  state : LanguageServerState
  generation : UInt64
  /-- The last identifier of the `RequestIdAllocator`. -/
  ids : UInt64
  capabilities : Option ServerCapabilities
  initializeId : Option RequestId
  initializeDeadline : Option Duration
  shutdownId : Option RequestId
  shutdownDeadline : Option Duration
  idleDeadline : Option Duration
  outbound : List OutboundMessage
  /-- The revision of each document. -/
  documents : SortedMap String UInt64
  pendingChanges : SortedMap String PendingChange
  requests : SortedMap RequestId FeatureRequest
  crashTimes : List Duration
  deriving DecidableEq

abbrev ClientM (α : Type) := Method LanguageClient ClientError α

namespace LanguageClient

def new (workspaceId descriptorId : String) : LanguageClient where
  workspaceId := workspaceId
  descriptorId := descriptorId
  state := .stopped
  generation := 0
  ids := 0
  capabilities := none
  initializeId := none
  initializeDeadline := none
  shutdownId := none
  shutdownDeadline := none
  idleDeadline := none
  outbound := []
  documents := .empty
  pendingChanges := .empty
  requests := .empty
  crashTimes := []

/-- `RequestIdAllocator::next_id`. -/
def nextId : ClientM RequestId := do
  let c ← get
  ensure (c.ids ≠ -1) (.protocol .requestIdExhausted)
  modify fun c => { c with ids := c.ids + 1 }
  pure ⟨c.ids + 1⟩

def ensureReady : ClientM Unit := do
  ensure ((← get).state = .ready) .notReady

def pushOutbound (message : OutboundMessage) : ClientM Unit := do
  ensure ((← get).outbound.length < outboundLimit) .outboundQueueFull
  modify fun c => { c with outbound := c.outbound ++ [message] }

def takeOutbound : ClientM (Option OutboundMessage) := do
  let c ← get
  modify fun c => { c with outbound := c.outbound.tail }
  pure c.outbound.head?

def pushCancel (id : RequestId) : ClientM Unit := pushOutbound (.cancelRequest id)

/-- Forget a request and cancel it. -/
def invalidate (id : RequestId) : ClientM Unit := do
  modify fun c => { c with requests := c.requests.remove id }
  pushCancel id

/-- The requests of a document. -/
def requestsOf (c : LanguageClient) (document : String) : List RequestId :=
  (c.requests.entries.filter fun e => e.2.document = document).map (·.1)

/-- The requests of a kind for a document. -/
def requestsOfKind (c : LanguageClient) (kind : FeatureRequestKind) (document : String) :
    List RequestId :=
  (c.requests.entries.filter fun e => e.2.kind = kind ∧ e.2.document = document).map (·.1)

def invalidateDocumentRequests (document : String) (order : HashOrder) : ClientM Unit := do
  forM (order.order ((← get).requestsOf document)) invalidate

def invalidateFeatureRequest (kind : FeatureRequestKind) (document : String) (order : HashOrder) :
    ClientM Unit := do
  match (order.order ((← get).requestsOfKind kind document)).head? with
  | some id => invalidate id
  | none => pure ()

def failActiveGeneration : ClientM Unit :=
  modify fun c =>
    { c with
      generation := c.generation.satSucc
      state := .failed
      capabilities := none
      initializeId := none
      initializeDeadline := none
      shutdownId := none
      shutdownDeadline := none
      idleDeadline := none
      outbound := []
      pendingChanges := .empty
      requests := .empty }

def start (now : Duration) : ClientM OutboundMessage := do
  let c ← get
  ensure (c.state = .stopped ∨ c.state = .restarting) .invalidState
  modify fun c =>
    { c with generation := c.generation.satSucc, state := .starting, capabilities := none }
  let id ← nextId
  let deadline ← orPanic (now.checkedAdd initializeTimeout)
  modify fun c => { c with initializeId := some id, initializeDeadline := some deadline }
  pure (.initializeRequest id c.workspaceId)

def acceptInitialize (id : RequestId) (capabilities : ServerCapabilities) : ClientM Unit := do
  let c ← get
  ensure (c.state = .starting ∧ c.initializeId = some id) .staleResponse
  modify fun c =>
    { c with
      initializeId := none
      initializeDeadline := none
      capabilities := some capabilities
      state := .ready }
  pushOutbound .initialized

def rejectInitialize (id : RequestId) : ClientM Unit := do
  let c ← get
  ensure (c.state = .starting ∧ c.initializeId = some id) .staleResponse
  failActiveGeneration

def failProtocol : ClientM Unit := failActiveGeneration

/-! ### Documents -/

def didOpen (document : String) (revision : UInt64) (text : String) : ClientM Unit := do
  ensureReady
  modify fun c =>
    { c with documents := c.documents.insert document revision, idleDeadline := none }
  let c ← get
  pushOutbound (.didOpen document c.descriptorId revision text)

def didSave (document : String) : ClientM Unit := do
  ensureReady
  let c ← get
  ensure (c.documents.containsKey document) .unknownDocument
  if c.capabilities.any (·.saveNotifications) then
    pushOutbound (.didSave document)

def didClose (document : String) (now : Duration) (order : HashOrder) : ClientM Unit := do
  ensureReady
  discard (okOr .unknownDocument ((← get).documents.get? document))
  modify fun c =>
    { c with
      documents := c.documents.remove document
      pendingChanges := c.pendingChanges.remove document }
  invalidateDocumentRequests document order
  pushOutbound (.didClose document)
  if (← get).documents.isEmpty then
    let deadline ← orPanic (now.checkedAdd idleShutdownDelay)
    modify fun c => { c with idleDeadline := some deadline }

def didChange (document : String) (revision : UInt64) (text : String) (now : Duration)
    (order : HashOrder) : ClientM Unit := do
  ensureReady
  let known ← okOr .unknownDocument ((← get).documents.get? document)
  ensure (known < revision) .invalidRevision
  let due ← orPanic (now.checkedAdd changeDelay)
  modify fun c =>
    { c with
      documents := c.documents.insert document revision
      pendingChanges := c.pendingChanges.insert document ⟨revision, text, due⟩ }
  invalidateDocumentRequests document order

/-- The documents with a change due at `now`, sorted. -/
def due (c : LanguageClient) (now : Duration) : List String :=
  (c.pendingChanges.entries.filter fun e => e.2.due ≤ now).map (·.1)

/-- One round of the loop of `flush_changes`: the number of queued messages. -/
def flushChange (document : String) : ClientM Nat := do
  match (← get).pendingChanges.get? document with
  | none => pure 0
  | some change =>
    modify fun c => { c with pendingChanges := c.pendingChanges.remove document }
    let r : Except ClientError Unit ←
      attempt (pushOutbound (.didChange document change.revision change.text))
    pure (if r.isOk then 1 else 0)

def flushChanges (now : Duration) : ClientM Nat := do
  ((← get).due now).foldlM (fun queued document => do pure (queued + (← flushChange document))) 0

def requestFeature (kind : FeatureRequestKind) (document : String) (revision : UInt64)
    (position : LspPosition) (now : Duration) (order : HashOrder) : ClientM FeatureRequest := do
  ensureReady
  let c ← get
  ensure (c.capabilities.any (·.supports kind)) .unsupportedFeature
  ensure (c.documents.get? document = some revision) .invalidRevision
  ensure (c.requests.length < requestLimit) .tooManyRequests
  invalidateFeatureRequest kind document order
  let id ← nextId
  let deadline ← orPanic (now.checkedAdd requestTimeout)
  let request : FeatureRequest := ⟨id, kind, document, revision, position, c.generation, deadline⟩
  pushOutbound (.feature id kind document position)
  modify fun c => { c with requests := c.requests.insert id request }
  pure request

def acceptFeatureResponse (request : FeatureRequest) : ClientM ResponseDisposition := do
  let c ← get
  modify fun c => { c with requests := c.requests.remove request.id }
  if c.requests.get? request.id = some request ∧ request.generation = c.generation ∧
      c.documents.get? request.document = some request.revision ∧ c.state = .ready then
    pure .applied
  else pure .stale

/-! ### The life of a server process -/

def restartGeneration : ClientM Unit :=
  modify fun c =>
    { c with
      generation := c.generation.satSucc
      state := .restarting
      capabilities := none
      initializeId := none
      initializeDeadline := none
      shutdownId := none
      shutdownDeadline := none
      idleDeadline := none
      outbound := []
      pendingChanges := .empty
      requests := .empty }

def processExited (now : Duration) : ClientM (Option Duration) := do
  restartGeneration
  modify fun c =>
    let recent := c.crashTimes.dropWhile fun time => restartWindow < now.saturatingSub time
    { c with crashTimes := recent ++ [now] }
  let delay := restartDelays[(← get).crashTimes.length - 1]?
  if delay.isNone then
    modify fun c => { c with state := .failed }
  pure delay

def beginShutdown (now : Duration) : ClientM OutboundMessage := do
  let c ← get
  ensure (c.state = .ready ∨ c.state = .degraded) .invalidState
  modify fun c =>
    { c with state := .stopping, pendingChanges := .empty, requests := .empty }
  let id ← nextId
  let deadline ← orPanic (now.checkedAdd shutdownTimeout)
  modify fun c => { c with shutdownId := some id, shutdownDeadline := some deadline }
  pure (.shutdown id)

def acceptShutdown (id : RequestId) : ClientM Unit := do
  let c ← get
  ensure (c.state = .stopping ∧ c.shutdownId = some id) .staleResponse
  modify fun c => { c with shutdownId := none, shutdownDeadline := none }
  pushOutbound .exit

def finishShutdown : ClientM Unit :=
  modify fun c =>
    { c with
      state := .stopped
      capabilities := none
      outbound := []
      pendingChanges := .empty
      requests := .empty
      initializeDeadline := none
      shutdownDeadline := none
      idleDeadline := none }

/-! ### Deadlines -/

def reached (deadline : Option Duration) (now : Duration) : Bool := deadline.any (· ≤ now)

def expireInitialize (now : Duration) : ClientM (List ClientTimeout) := do
  if reached (← get).initializeDeadline now then
    modify fun c =>
      { c with initializeDeadline := none, initializeId := none, state := .failed }
    pure [.initialization]
  else pure []

def expireRequest (id : RequestId) : ClientM Unit := do
  modify fun c => { c with requests := c.requests.remove id }
  let r : Except ClientError Unit ← attempt (pushCancel id)
  if r.isOk = false ∧ (← get).state = .ready then
    modify fun c => { c with state := .degraded }

def expireRequests (now : Duration) : ClientM (List ClientTimeout) := do
  let c ← get
  let expired := (c.requests.entries.filter fun e => e.2.deadline ≤ now).map (·.1)
  forM expired expireRequest
  pure (expired.map .request)

def expireShutdown (now : Duration) : ClientM (List ClientTimeout) := do
  if reached (← get).shutdownDeadline now then
    modify fun c =>
      { c with shutdownDeadline := none, shutdownId := none, state := .stopped }
    pure [.shutdown]
  else pure []

def expireIdle (now : Duration) : ClientM (List ClientTimeout) := do
  let c ← get
  if c.state = .ready ∧ reached c.idleDeadline now then
    modify fun c => { c with idleDeadline := none }
    let r : Except ClientError OutboundMessage ← attempt (beginShutdown now)
    match r with
    | .ok message =>
      let pushed : Except ClientError Unit ← attempt (pushOutbound message)
      if pushed.isOk then
        pure [.idleShutdown]
      else
        modify fun c => { c with state := .failed }
        pure []
    | .error _ =>
      modify fun c => { c with state := .failed }
      pure []
  else pure []

def pollTimeouts (now : Duration) : ClientM (List ClientTimeout) := do
  let initialization ← expireInitialize now
  let requests ← expireRequests now
  let shutdown ← expireShutdown now
  let idle ← expireIdle now
  pure (initialization ++ requests ++ shutdown ++ idle)

end LanguageClient

end Strukt.Language
