import Strukt.App.CoordinatorSpec
import Strukt.Language.ClientSpec

/-!
# The language servers of the app

`LanguageRuntime` runs one server process per language, each with its `LanguageClient`, and
`LanguageSystem` is the coordinator together with it, as the app's messages move the two.

* **Effects** (`applyEffects`) go to the process of their language and generation, in order; the
  queue of its client is written out after each one. An error drops the effects after it, and the
  app fails the servers that the effects were for.
* **Polls**: an event of a poll is handled in the step that polls it, since the app handles the
  events of a poll before anything else. That a process was polled ready and found dead in one poll
  is two steps here.
* **Environment**: the file URI of a path below the workspace root, and what is read off the answer
  to a request. Writing to a process that is up succeeds; where it does not, the process `breaks`.
-/

namespace Strukt.Language

open Method

def ProtocolError.text : ProtocolError → String
  | .invalidJson => "message body is not valid JSON"
  | .invalidMessage => "message is not an unambiguous JSON-RPC 2.0 message"
  | .requestIdExhausted => "numeric request identifiers are exhausted"
  | .duplicateRequest id => "request identifier " ++ toString id ++ " was already registered"
  | .unexpectedResponse id => "response identifier " ++ toString id ++ " is duplicate or unknown"
  | .tooManyOutstandingRequests => "outstanding request limit reached"

def ClientError.text : ClientError → String
  | .notReady => "language client is not ready"
  | .invalidState => "language client state does not allow this operation"
  | .staleResponse => "response belongs to stale state"
  | .unknownDocument => "document is not synchronized"
  | .invalidRevision => "document revision is stale or invalid"
  | .unsupportedFeature => "language feature is not supported by the server"
  | .outboundQueueFull => "outbound message queue is full"
  | .tooManyRequests => "outstanding request limit reached"
  | .protocol e => e.text

end Strukt.Language

namespace Strukt.App

open Strukt.Language Method

/-! ## Processes -/

structure RunningLanguage where
  generation : UInt64
  client : LanguageClient
  initializeId : RequestId
  featureRequests : SortedMap RequestId FeatureRequest
  shutdownId : Option RequestId
  deriving DecidableEq

/-- The processes by their language. -/
abbrev LanguageRuntime := SortedMap String RunningLanguage

namespace RunningLanguage

def onClient {α : Type} (x : ClientM α) : Method RunningLanguage ClientError α :=
  focus (·.client) (fun running client => { running with client }) id x

/-- `flush_client`: every message is taken from the queue and written. -/
def flushClient : Method RunningLanguage ClientError Unit :=
  onClient (modify fun c => { c with outbound := [] })

/-- `finish_start`, without the process. -/
def start (workspaceId languageId : String) (generation : UInt64) (now : Duration) :
    Option RunningLanguage :=
  match (LanguageClient.start now).exec (.new workspaceId languageId) with
  | some (.ok message, client) =>
    message.id.map fun initializeId => ⟨generation, client, initializeId, .empty, none⟩
  | _ => none

def beginShutdown (now : Duration) : Method RunningLanguage ClientError Unit := do
  let message ← onClient (LanguageClient.beginShutdown now)
  modify fun running => { running with shutdownId := message.id }

def requestFeature (kind : FeatureRequestKind) (uri : String) (revision : UInt64)
    (position : LspPosition) (now : Duration) (order : HashOrder) :
    Method RunningLanguage ClientError FeatureRequest := do
  let request ← onClient (LanguageClient.requestFeature kind uri revision position now order)
  modify fun running =>
    { running with featureRequests := running.featureRequests.insert request.id request }
  flushClient
  pure request

/-- The part of a poll before the process is read: what timed out. -/
def pollTimeouts (now : Duration) : Method RunningLanguage ClientError (List ClientTimeout) := do
  let timeouts ← onClient (LanguageClient.pollTimeouts now)
  modify fun running =>
    { running with
      featureRequests := running.featureRequests.filterKeys fun id => .request id ∉ timeouts
      shutdownId := if .idleShutdown ∈ timeouts then running.client.shutdownId
        else running.shutdownId }
  if .shutdown ∉ timeouts ∧ .initialization ∉ timeouts then
    discard (onClient (LanguageClient.flushChanges now))
    flushClient
  pure timeouts

/-- The answer to the initialization. -/
def acceptInitialize (capabilities : ServerCapabilities) :
    Method RunningLanguage ClientError Unit := do
  onClient (LanguageClient.acceptInitialize (← get).initializeId capabilities)
  flushClient

/-- Any other answer: the request that it is for, if that is a feature's and not stale. -/
def acceptResponse (id : RequestId) :
    Method RunningLanguage ClientError (Option FeatureRequest) := do
  if (← get).shutdownId = some id then
    onClient (LanguageClient.acceptShutdown id)
    modify fun running => { running with shutdownId := none }
    flushClient
    pure none
  else
    match (← get).featureRequests.get? id with
    | none => pure none
    | some request =>
      modify fun running =>
        { running with featureRequests := running.featureRequests.remove id }
      let disposition ← onClient (LanguageClient.acceptFeatureResponse request)
      pure (if disposition = .applied then some request else none)

end RunningLanguage

/-! ## Effects -/

namespace LanguageEffect

/-- The language and the generation that a message is for. -/
def target : LanguageEffect → Option (String × UInt64)
  | .discover .. => none
  | .open languageId generation .. | .change languageId generation ..
  | .save languageId generation .. | .close languageId generation .. =>
    some (languageId, generation)

def call (uri : PathBuf → String) (now : Duration) (order : HashOrder) :
    LanguageEffect → ClientM Unit
  | .discover .. => pure ()
  | .open _ _ _ path revision text => LanguageClient.didOpen (uri path) revision text
  | .change _ _ _ path revision text => LanguageClient.didChange (uri path) revision text now order
  | .save _ _ _ path => LanguageClient.didSave (uri path)
  | .close _ _ _ path => LanguageClient.didClose (uri path) now order

end LanguageEffect

namespace LanguageRuntime

/-- Run on the process of a language and generation, if it is the one that is up. -/
def onProcess (languageId : String) (generation : UInt64)
    (x : Method RunningLanguage ClientError Unit) : Method LanguageRuntime ClientError Unit := do
  match ((← get).get? languageId).filter (·.generation = generation) with
  | none => pure ()
  | some running =>
    focus (fun _ => running) (fun runtime running => runtime.insert languageId running) id x

def applyEffect (uri : PathBuf → String) (now : Duration) (order : HashOrder)
    (effect : LanguageEffect) : Method LanguageRuntime ClientError Unit :=
  match effect.target with
  | none => pure ()
  | some (languageId, generation) =>
    onProcess languageId generation do
      RunningLanguage.onClient (effect.call uri now order)
      RunningLanguage.flushClient

def applyEffects (uri : PathBuf → String) (now : Duration) (order : HashOrder)
    (effects : List LanguageEffect) : Method LanguageRuntime ClientError Unit :=
  forM effects (applyEffect uri now order)

/-- `begin_shutdown`, and the text of its error. -/
def beginShutdown (languageId : String) (generation : UInt64) (now : Duration) :
    Method LanguageRuntime String Unit := do
  match (← get).get? languageId with
  | none => throw "language server is not running"
  | some running =>
    ensure (running.generation = generation) "language server generation is stale"
    focus (fun _ => running) (fun runtime running => runtime.insert languageId running)
      ClientError.text (RunningLanguage.beginShutdown now)

end LanguageRuntime

/-! ## The coordinator and the processes -/

/-- The two, the processes that are being spawned, and what the clients answered to effects that
they did not accept. -/
structure LanguageSystem where
  coordinator : LanguageCoordinator
  processes : LanguageRuntime
  spawning : List (String × UInt64)
  rejected : List ClientError

/-- What moves the system: a message of the user or of a task, or what a poll finds. -/
inductive LanguageStep where
  | operate (op : CoordinatorOp) (now : Duration) (order : HashOrder)
  | started (languageId : String) (generation : UInt64) (now : Duration)
  | startFailed (languageId : String) (generation : UInt64) (message : String)
  | featureRequested (id : DocumentId) (kind : FeatureRequestKind) (position : LspPosition)
      (now : Duration) (order : HashOrder)
  | polled (languageId : String) (now : Duration)
  | initialized (languageId : String) (capabilities : ServerCapabilities)
      (keys : KeyOrder DocumentId) (now : Duration) (order : HashOrder)
  | answered (languageId : String) (id : RequestId) (result : FeatureResult)
  | exited (languageId : String) (message : String)
  | broken (languageId : String) (message : String)

namespace LanguageCoordinator

/-- `request_context`: the language, the generation, the path and the revision. -/
def requestContext (c : LanguageCoordinator) (id : DocumentId) :
    Option (String × UInt64 × PathBuf × UInt64) :=
  (c.documents.get? id).bind fun document =>
    (c.serverFor document (· = .ready)).map fun server =>
      (document.languageId, server.generation, document.path, document.revision)

def failAll (c : LanguageCoordinator) (targets : List (String × UInt64)) : LanguageCoordinator :=
  targets.foldl (fun c target => c.fail target.1 target.2) c

end LanguageCoordinator

namespace CoordinatorOp

/-- The operation is not an event of the runtime. -/
def ofUser : CoordinatorOp → Bool
  | .markReady .. | .markStopped .. | .failWithMessage .. | .beginFeature ..
  | .acceptFeatureResponse .. | .expireFeature _ => false
  | _ => true

/-- The server that the operation has the app spawn. -/
def spawned (c : LanguageCoordinator) : CoordinatorOp → Option (String × UInt64)
  | .discovered workspaceId languageId generation .available =>
    (c.discovering workspaceId languageId generation).map fun _ => (languageId, generation)
  | .approve languageId => (c.approve languageId).2.map fun approved => (languageId, approved.1)
  | _ => none

end CoordinatorOp

namespace LanguageSystem

open LanguageRuntime

def start (workspaceId : String) (restored : RestoredLanguageSession) : LanguageSystem :=
  ⟨.restore workspaceId restored, .empty, [], []⟩

/-- The coordinator moves on to `c` and its effects are applied; `failed` is the coordinator where
a client does not accept one. -/
def apply (s : LanguageSystem) (uri : PathBuf → String) (now : Duration) (order : HashOrder)
    (c failed : LanguageCoordinator) (effects : List LanguageEffect) : Option LanguageSystem :=
  observe (applyEffects uri now order effects) s.processes
    (fun _ processes => { s with coordinator := c, processes })
    fun e processes =>
      { s with coordinator := failed, processes, rejected := s.rejected ++ [e] }

/-- `disable_language` ignores the error of the shutdown, `restart_language` fails. -/
def shutDown (s : LanguageSystem) (op : CoordinatorOp) (c : LanguageCoordinator)
    (languageId : String) (generation : UInt64) (now : Duration) : Option LanguageSystem :=
  observe (LanguageRuntime.beginShutdown languageId generation now) s.processes
    (fun _ processes => { s with coordinator := c, processes })
    fun message processes =>
      { s with
        coordinator :=
          match op with
          | .restartLanguage _ => c.failWithMessage languageId generation message
          | _ => c
        processes }

/-- A stopped process is gone. -/
def stopped (s : LanguageSystem) (languageId : String) (generation : UInt64) : LanguageSystem :=
  { s with
    coordinator := (s.coordinator.markStopped languageId generation).1
    processes := s.processes.remove languageId }

def failed (s : LanguageSystem) (languageId : String) (generation : UInt64) (message : String) :
    LanguageSystem :=
  { s with
    coordinator := s.coordinator.failWithMessage languageId generation message
    processes := s.processes.remove languageId }

def operate (s : LanguageSystem) (env : LanguageEnv) (uri : PathBuf → String)
    (op : CoordinatorOp) (now : Duration) (order : HashOrder) : Option LanguageSystem :=
  let (c, effects) := op.run env s.coordinator
  let s' := { s with spawning := s.spawning ++ (op.spawned s.coordinator).toList }
  match op.shutdown env s.coordinator with
  | some (languageId, generation) => s'.shutDown op c languageId generation now
  | none => s'.apply uri now order c (c.failAll (effects.filterMap (·.target))) effects

/-- The feature's request that a timeout is of. -/
def expiredRequest (running : RunningLanguage) : ClientTimeout → Option FeatureRequest
  | .request id => running.featureRequests.get? id
  | _ => none

/-- What timed out is handled: the end of a shutdown, or of an initialization, ends the process. -/
def timedOut (s : LanguageSystem) (languageId : String) (running : RunningLanguage)
    (timeouts : List ClientTimeout) : LanguageSystem :=
  let expired := timeouts.filterMap (expiredRequest running)
  let s := { s with coordinator := expired.foldl (·.expireFeature ·) s.coordinator }
  if .shutdown ∈ timeouts then s.stopped languageId running.generation
  else if .initialization ∈ timeouts then
    s.failed languageId running.generation "language server initialization timed out"
  else s

/-- The app handles a message, or what a poll found; `none` where there is none such. -/
def step (env : LanguageEnv) (uri : PathBuf → String) (s : LanguageSystem) :
    LanguageStep → Option LanguageSystem
  | .operate op now order => if op.ofUser then s.operate env uri op now order else none
  | .started languageId generation now =>
    if (languageId, generation) ∈ s.spawning then
      (RunningLanguage.start s.coordinator.workspaceId languageId generation now).map fun running =>
        { s with
          processes := s.processes.insert languageId running
          spawning := s.spawning.filter (· ≠ (languageId, generation)) }
    else none
  | .startFailed languageId generation message =>
    if (languageId, generation) ∈ s.spawning then
      some
        { s with
          coordinator := s.coordinator.failWithMessage languageId generation message
          spawning := s.spawning.filter (· ≠ (languageId, generation)) }
    else none
  | .featureRequested id kind position now order =>
    (s.coordinator.requestContext id).bind fun (languageId, generation, path, revision) =>
      ((s.processes.get? languageId).filter (·.generation = generation)).bind fun running =>
        observe (RunningLanguage.requestFeature kind (uri path) revision position now order) running
          (fun request running =>
            { s with
              coordinator := s.coordinator.beginFeature id generation request
              processes := s.processes.insert languageId running })
          fun _ running => { s with processes := s.processes.insert languageId running }
  | .polled languageId now =>
    (s.processes.get? languageId).bind fun running =>
      observe (RunningLanguage.pollTimeouts now) running
        (fun timeouts polled =>
          { s with processes := s.processes.insert languageId polled }.timedOut languageId running
            timeouts)
        fun e _ => s.failed languageId running.generation e.text
  | .initialized languageId capabilities keys now order =>
    (s.processes.get? languageId).bind fun running =>
      (observe (RunningLanguage.acceptInitialize capabilities) running
        (fun _ running =>
          let (c, effects) :=
            s.coordinator.markReady keys languageId running.generation capabilities.positionEncoding
          { s with processes := s.processes.insert languageId running }.apply uri now order c
            (c.fail languageId running.generation) effects)
        fun e _ => some (s.failed languageId running.generation e.text)).join
  | .answered languageId id result =>
    (s.processes.get? languageId).bind fun running =>
      observe (RunningLanguage.acceptResponse id) running
        (fun request answered =>
          { s with
            coordinator :=
              match request with
              | none => s.coordinator
              | some request =>
                s.coordinator.acceptFeatureResponse running.generation request result
            processes := s.processes.insert languageId answered })
        fun e _ => s.failed languageId running.generation e.text
  | .exited languageId message =>
    (s.processes.get? languageId).map fun running =>
      if running.shutdownId = none ∧ running.client.state = .stopping then
        s.stopped languageId running.generation
      else s.failed languageId running.generation message
  | .broken languageId message =>
    (s.processes.get? languageId).map fun running =>
      s.failed languageId running.generation message

end LanguageSystem

end Strukt.App
