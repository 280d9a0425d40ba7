import Strukt.App.LanguageRuntime
import Strukt.Language.Framing
import Strukt.Lib.Frame
import Strukt.Lib.Json

/-!
# Polling the language servers

`AttachedLanguage P` is a running language with its process `P`, and `AttachedRuntime P` the app's
`LanguageRuntime`. A process is anything that answers `write`, `try_read`, `try_wait` and
`terminate`.

* **One poll of a language** (`pollLanguage`): what timed out, and the writing of the queue, come
  first (`prepare`); what ends the language there ends the poll of it. Then up to 64 reads
  (`readRounds`), and whether the process exited (`checkExit`).
* **Endings**: where the source pushes on `stopped` or `failed`, a poll of a language gives an
  `Ending`. `pollAt` takes the processes of all of them out, the stopped ones first, and has one
  event for each.
* **Sources**: an event stands with the language and the generation of the process that it is from,
  which `RequestTimedOut` does not say; `poll_at` returns the events alone.
* **Environment**: the JSON library, the file URI of a path below a root, and the orders of the hash
  maps.
-/

namespace Strukt.Language

open Method

/-! ## Messages of a server -/

mutual

/-- The message as a JSON value. -/
def Json.value : Language.Json → Strukt.Json
  | .null => .null
  | .number n => .natural n
  | .string s => .string s
  | .array items => .array (itemValues items)
  | .object fields => .object (fieldValues fields)

def itemValues : List Language.Json → List Strukt.Json
  | [] => []
  | item :: items => item.value :: itemValues items

def fieldValues : List (String × Language.Json) → List (String × Strukt.Json)
  | [] => []
  | (name, v) :: fields => (name, v.value) :: fieldValues fields

end

structure ResponseMessage where
  id : RequestId
  result : Option Strukt.Json
  error : Option Strukt.Json

structure NotificationMessage where
  method : String
  params : Option Strukt.Json

structure RequestMessage where
  id : RequestId
  method : String
  params : Option Strukt.Json

inductive IncomingMessage where
  | response (message : ResponseMessage)
  | notification (message : NotificationMessage)
  | request (message : RequestMessage)

def parseRequestId (v : Strukt.Json) : Except ProtocolError RequestId :=
  match v.asUnsigned 64 with
  | some n => .ok ⟨UInt64.ofNat n⟩
  | none => .error .invalidMessage

def parseMessage (fromSlice : List UInt8 → Option Strukt.Json) (body : List UInt8) :
    Except ProtocolError IncomingMessage := do
  let v ← (fromSlice body).elim (.error .invalidJson) .ok
  let .object members := v | .error .invalidMessage
  let member := fun name => Strukt.Json.lookup name members
  if (member "jsonrpc").bind (·.asString) ≠ some "2.0" then .error .invalidMessage
  else
    let id ← (member "id").mapM parseRequestId
    let method := (member "method").bind (·.asString)
    match id, method, (member "result").isSome, (member "error").isSome with
    | some id, none, true, false => .ok (.response ⟨id, member "result", none⟩)
    | some id, none, false, true => .ok (.response ⟨id, none, member "error"⟩)
    | some id, some method, false, false => .ok (.request ⟨id, method, member "params"⟩)
    | none, some method, false, false => .ok (.notification ⟨method, member "params"⟩)
    | _, _, _, _ => .error .invalidMessage

/-- The member of an object, and `null` otherwise. -/
def member (v : Strukt.Json) (name : String) : Strukt.Json :=
  match v with
  | .object members => (Strukt.Json.lookup name members).getD .null
  | _ => .null

def isNull : Strukt.Json → Bool
  | .null => true
  | _ => false

def capabilitiesFromInitialize (result : Strukt.Json) : ServerCapabilities :=
  let capabilities := member result "capabilities"
  let encoding :=
    if (member capabilities "positionEncoding").asString = some "utf-8" then .utf8 else .utf16
  let completion :=
    if isNull (member capabilities "completionProvider") then [] else [.completion]
  let hover :=
    if (member capabilities "hoverProvider").asBool.getD false then [.hover] else []
  let definition :=
    if (member capabilities "definitionProvider").asBool.getD false then [.definition] else []
  let sync := member capabilities "textDocumentSync"
  let synchronization : SynchronizationKind := if isNull sync then .none else .full
  let saveNotifications :=
    match sync with
    | .object options =>
      match Strukt.Json.lookup "save" options with
      | some (.bool save) => save
      | some (.object _) => true
      | _ => false
    | _ => false
  (ServerCapabilities.new synchronization (completion ++ hover ++ definition)
    encoding).withSaveNotifications saveNotifications

inductive ServerRequestDisposition where
  | configuration (values : List Strukt.Json)
  | methodNotFound

def LanguageClient.handleServerRequest (method : String) : ServerRequestDisposition :=
  if method = "workspace/configuration" then .configuration [] else .methodNotFound

def ServerRequestDisposition.answer (id : RequestId) : ServerRequestDisposition → Strukt.Json
  | .configuration values =>
    .object [("jsonrpc", .string "2.0"), ("id", .natural id.value.toNat), ("result", .array values)]
  | .methodNotFound =>
    .object
      [("jsonrpc", .string "2.0"), ("id", .natural id.value.toNat),
        ("error", .object [("code", .negative 32601), ("message", .string "Method not found")])]

/-! ## Processes -/

structure ProcessExit where
  code : Option Int
  forced : Bool
  deriving DecidableEq

/-- `{:?}` of an exit code. -/
def ProcessExit.codeText (exit : ProcessExit) : String :=
  match exit.code with
  | none => "None"
  | some code => "Some(" ++ toString code ++ ")"

/-- What a poll asks of a process; an error is its text. -/
class LanguageProcess (P : Type) where
  write : List UInt8 → Method P String Unit
  tryRead : Method P String (Option (List UInt8))
  tryWait : Method P String (Option ProcessExit)
  terminate : Duration → Method P String Unit

end Strukt.Language

namespace Strukt.App

open Strukt.Language Method

inductive LanguageRuntimeEvent where
  | ready (languageId : String) (generation : UInt64) (positionEncoding : PositionEncoding)
  | failed (languageId : String) (generation : UInt64) (message : String)
  | notification (languageId : String) (generation : UInt64) (method : String)
      (params : Option Json)
  | featureResponse (languageId : String) (generation : UInt64) (request : FeatureRequest)
      (kind : FeatureRequestKind) (result : Json)
  | requestTimedOut (request : FeatureRequest)
  | stopped (languageId : String) (generation : UInt64)

/-- The event is `Stopped` or `Failed`. -/
def LanguageRuntimeEvent.terminal : LanguageRuntimeEvent → Bool
  | .failed .. | .stopped .. => true
  | _ => false

/-- What the runtime uses of the code that is not here. -/
structure RuntimeEnv where
  toVec : Json → Except String (List UInt8)
  fromSlice : List UInt8 → Option Json
  fileUri : PathBuf → PathBuf → Except String String

structure AttachedLanguage (P : Type) extends RunningLanguage where
  root : PathBuf
  process : P
  decoder : FrameDecoder

abbrev AttachedRuntime (P : Type) := SortedMap String (AttachedLanguage P)

/-- What ends a language: an entry of `stopped`, or of `failed`. -/
inductive Ending where
  | stopped
  | failed (message : String)
  deriving DecidableEq

def Ending.event (languageId : String) (generation : UInt64) : Ending → LanguageRuntimeEvent
  | .stopped => .stopped languageId generation
  | .failed message => .failed languageId generation message

/-- What one of the 64 reads comes to. -/
inductive Round where
  | idle
  /-- The read failed, or the decoder did. -/
  | broken (message : String)
  /-- The frames were handled, up to one that is rejected. -/
  | handled (events : List LanguageRuntimeEvent) (rejected : Option String)

namespace Round

def events : Round → List LanguageRuntimeEvent
  | .handled events _ => events
  | _ => []

def failure : Round → Option Ending
  | .idle => none
  | .broken message => some (.failed message)
  | .handled _ rejected => rejected.map .failed

end Round

section Writing

variable {P : Type} [LanguageProcess P] (env : RuntimeEnv)

def writeJsonValue (message : Json) : Method P String Unit := do
  let body ← ofExcept (env.toVec message)
  let frame ← orPanic (encodeFrame body .default)
  let bytes ← ofExcept (frame.mapError FrameError.toString)
  LanguageProcess.write bytes

def writeOutbound (message : OutboundMessage) : Method P String Unit :=
  writeJsonValue env message.jsonRpc.value

end Writing

namespace AttachedLanguage

variable {P : Type}

def onClient {α : Type} (x : ClientM α) : Method (AttachedLanguage P) String α :=
  focus (·.client) (fun running client => { running with client }) ClientError.text x

def onProcess {α : Type} (x : Method P String α) : Method (AttachedLanguage P) String α :=
  focus (·.process) (fun running process => { running with process }) id x

def decode (bytes : List UInt8) : Method (AttachedLanguage P) String (List Frame) := do
  let (frames, decoder) := (← get).decoder.push bytes
  modify fun running => { running with decoder }
  ofExcept (frames.mapError FrameError.toString)

variable [LanguageProcess P] (env : RuntimeEnv) (languageId : String)

/-- `flush_client` for the first `n` messages. -/
def flushMessages : Nat → Method (AttachedLanguage P) String Unit
  | 0 => pure ()
  | n + 1 => do
    match ← onClient LanguageClient.takeOutbound with
    | none => pure ()
    | some message =>
      onProcess (writeOutbound env message)
      flushMessages n

def flushClient : Method (AttachedLanguage P) String Unit := do
  flushMessages env (← get).client.outbound.length

/-! ### Frames -/

def handleResponse (response : ResponseMessage) :
    Method (AttachedLanguage P) String (Option LanguageRuntimeEvent) := do
  let running ← get
  if response.id = running.initializeId then
    let result ← okOr "initialize response contained an error" response.result
    let capabilities := capabilitiesFromInitialize result
    onClient (LanguageClient.acceptInitialize response.id capabilities)
    flushClient env
    pure (some (.ready languageId running.generation capabilities.positionEncoding))
  else if running.shutdownId = some response.id then
    onClient (LanguageClient.acceptShutdown response.id)
    modify fun running => { running with shutdownId := none }
    flushClient env
    pure none
  else
    match running.featureRequests.get? response.id with
    | none => pure none
    | some request =>
      modify fun running =>
        { running with featureRequests := running.featureRequests.remove response.id }
      let disposition ← onClient (LanguageClient.acceptFeatureResponse request)
      if disposition = .stale then pure none
      else
        pure (some (.featureResponse languageId running.generation request request.kind
          (response.result.getD .null)))

def handleFrame (body : List UInt8) :
    Method (AttachedLanguage P) String (Option LanguageRuntimeEvent) := do
  match ← ofExcept ((parseMessage env.fromSlice body).mapError ProtocolError.text) with
  | .response response => handleResponse env languageId response
  | .notification message =>
    pure (some (.notification languageId (← get).generation message.method message.params))
  | .request request =>
    let answer := (LanguageClient.handleServerRequest request.method).answer request.id
    onProcess (writeJsonValue env answer)
    pure none

/-- The frames of one read, up to one that is rejected: their events, and its error. -/
def handleFrames :
    List Frame → Method (AttachedLanguage P) String (List LanguageRuntimeEvent × Option String)
  | [] => pure ([], none)
  | frame :: frames => do
    match ← attempt (handleFrame env languageId frame.body) with
    | .error message => pure ([], some message)
    | .ok event =>
      let (events, rejected) ← handleFrames frames
      pure (event.toList ++ events, rejected)

/-! ### The poll of a language -/

def readRound : Method (AttachedLanguage P) String Round := do
  match ← attempt (onProcess LanguageProcess.tryRead) with
  | .error message => pure (.broken message)
  | .ok none => pure .idle
  | .ok (some bytes) =>
    match ← attempt (decode bytes) with
    | .error message => pure (.broken message)
    | .ok frames =>
      let (events, rejected) ← handleFrames env languageId frames
      pure (.handled events rejected)

/-- The loop over the reads: a frame that is rejected does not end it. -/
def readRounds : Nat → Method (AttachedLanguage P) String (List Round)
  | 0 => pure []
  | n + 1 => do
    let round ← readRound env languageId
    match round with
    | .handled .. => pure (round :: (← readRounds n))
    | .idle | .broken _ => pure [round]

/-- The loop over what timed out, with the `terminal_timeout` so far. -/
def handleTimeouts :
    List ClientTimeout → Option String →
      Method (AttachedLanguage P) String (List LanguageRuntimeEvent × Option String)
  | [], terminal => pure ([], terminal)
  | .initialization :: timeouts, _ =>
    handleTimeouts timeouts (some "language server initialization timed out")
  | .request id :: timeouts, terminal => do
    match (← get).featureRequests.get? id with
    | none => handleTimeouts timeouts terminal
    | some request =>
      modify fun running => { running with featureRequests := running.featureRequests.remove id }
      let (events, terminal) ← handleTimeouts timeouts terminal
      pure (.requestTimedOut request :: events, terminal)
  | .shutdown :: timeouts, _ => handleTimeouts timeouts (some "")
  | .idleShutdown :: timeouts, terminal => do
    modify fun running => { running with shutdownId := running.client.shutdownId }
    handleTimeouts timeouts terminal

/-- The poll up to the first read, and the ending where it ends before that. -/
def prepare (now : Duration) :
    Method (AttachedLanguage P) String (List LanguageRuntimeEvent × Option Ending) := do
  let timeouts ← onClient (LanguageClient.pollTimeouts now)
  let (events, terminal) ← handleTimeouts timeouts none
  match terminal with
  | some message =>
    let _ : Except String Unit ←
      attempt (onProcess (LanguageProcess.terminate ⟨0, Nat.zero_le _⟩))
    pure (events, some (if message.isEmpty then .stopped else .failed message))
  | none =>
    discard (onClient (LanguageClient.flushChanges now))
    match ← attempt (flushClient env) with
    | .error message => pure (events, some (.failed message))
    | .ok () => pure (events, none)

def checkExit : Method (AttachedLanguage P) String (Option Ending) := do
  match ← attempt (onProcess LanguageProcess.tryWait) with
  | .ok (some exit) =>
    let running ← get
    if running.shutdownId = none ∧ running.client.state = .stopping then
      onClient LanguageClient.finishShutdown
      pure (some .stopped)
    else pure (some (.failed ("language server exited with " ++ exit.codeText)))
  | .ok none | .error _ => pure none

/-- What the process is found to have done: the reads, and its exit. -/
def findings : Method (AttachedLanguage P) String (List Round × Option Ending) := do
  let rounds ← readRounds env languageId 64
  let exit ← checkExit
  pure (rounds, exit)

/-- The round of the loop of `poll_at` for a language: the events and the endings that it adds. -/
def pollLanguage (now : Duration) :
    Method (AttachedLanguage P) String (List LanguageRuntimeEvent × List Ending) := do
  let (events, early) ← prepare env now
  match early with
  | some ending => pure (events, [ending])
  | none =>
    let (rounds, exit) ← findings env languageId
    pure (events ++ rounds.flatMap Round.events, rounds.filterMap Round.failure ++ exit.toList)

/-- `finish_start`, with its process. -/
def start (workspaceId : String) (generation : UInt64) (root : PathBuf) (process : P)
    (now : Duration) : Method Unit String (AttachedLanguage P) := do
  let client := LanguageClient.new workspaceId languageId
  match (LanguageClient.start now).exec client with
  | none => orPanic none
  | some (.error error, _) => throw error.text
  | some (.ok request, client) =>
    let initializeId ← okOr "initialize request had no ID" request.id
    match (writeOutbound env request).exec process with
    | none => orPanic none
    | some (.error error, _) => throw error
    | some (.ok (), process) =>
      pure
        { generation, root, process, client, initializeId
          decoder := .new .default
          featureRequests := .empty
          shutdownId := none }

def applyEffect (now : Duration) (order : HashOrder) (effect : LanguageEffect) :
    Method (AttachedLanguage P) String Unit := do
  let root := (← get).root
  match effect with
  | .discover .. => pure ()
  | .open _ _ _ path revision text =>
    let uri ← ofExcept (env.fileUri root path)
    onClient (LanguageClient.didOpen uri revision text)
  | .change _ _ _ path revision text =>
    let uri ← ofExcept (env.fileUri root path)
    onClient (LanguageClient.didChange uri revision text now order)
  | .save _ _ _ path =>
    let uri ← ofExcept (env.fileUri root path)
    onClient (LanguageClient.didSave uri)
  | .close _ _ _ path =>
    let uri ← ofExcept (env.fileUri root path)
    onClient (LanguageClient.didClose uri now order)
  flushClient env

def requestFeature (path : PathBuf) (revision : UInt64) (kind : FeatureRequestKind)
    (position : LspPosition) (now : Duration) (order : HashOrder) :
    Method (AttachedLanguage P) String FeatureRequest := do
  let uri ← ofExcept (env.fileUri (← get).root path)
  let request ← onClient (LanguageClient.requestFeature kind uri revision position now order)
  modify fun running =>
    { running with featureRequests := running.featureRequests.insert request.id request }
  flushClient env
  pure request

def beginShutdown (now : Duration) : Method (AttachedLanguage P) String Unit := do
  let shutdown ← onClient (LanguageClient.beginShutdown now)
  modify fun running => { running with shutdownId := shutdown.id }
  onProcess (writeOutbound env shutdown)

end AttachedLanguage

namespace AttachedRuntime

variable {P : Type}

/-- Run on a process of the runtime. -/
def onLanguage {α : Type} (languageId : String) (running : AttachedLanguage P)
    (x : Method (AttachedLanguage P) String α) : Method (AttachedRuntime P) String α :=
  focus (fun _ => running) (fun runtime running => runtime.insert languageId running) id x

/-- The process of a language, if it is of the generation. -/
def current (languageId : String) (generation : UInt64) :
    Method (AttachedRuntime P) String (AttachedLanguage P) := do
  let running ← okOr "language server is not running" ((← get).get? languageId)
  ensure (running.generation = generation) "language server generation is stale"
  pure running

variable [LanguageProcess P] (env : RuntimeEnv)

/-- `completion` is what `take` gives: the spawned process, once. -/
def finishStart (workspaceId languageId : String) (generation : UInt64) (root : PathBuf)
    (completion : Option (Except String P)) (now : Duration) :
    Method (AttachedRuntime P) String Unit := do
  match completion with
  | none => pure ()
  | some result =>
    let process ← ofExcept result
    let running ← focus (fun _ => ()) (fun runtime _ => runtime) id
      (AttachedLanguage.start env languageId workspaceId generation root process now)
    modify fun runtime => runtime.insert languageId running

def applyEffects (now : Duration) (order : HashOrder) :
    List LanguageEffect → Method (AttachedRuntime P) String Unit
  | [] => pure ()
  | effect :: effects => do
    match effect.target with
    | none => applyEffects now order effects
    | some (languageId, generation) =>
      match ((← get).get? languageId).filter (·.generation = generation) with
      | none => applyEffects now order effects
      | some running =>
        onLanguage languageId running (AttachedLanguage.applyEffect env now order effect)
        applyEffects now order effects

def requestFeature (languageId : String) (generation : UInt64) (path : PathBuf) (revision : UInt64)
    (kind : FeatureRequestKind) (position : LspPosition) (now : Duration) (order : HashOrder) :
    Method (AttachedRuntime P) String FeatureRequest := do
  let running ← current languageId generation
  onLanguage languageId running
    (AttachedLanguage.requestFeature env path revision kind position now order)

def beginShutdown (languageId : String) (generation : UInt64) (now : Duration) :
    Method (AttachedRuntime P) String Unit := do
  let running ← current languageId generation
  onLanguage languageId running (AttachedLanguage.beginShutdown env now)

/-! ### The poll -/

/-- What the poll of a language adds, with the language and the generation. -/
structure Visit where
  source : String × UInt64
  events : List LanguageRuntimeEvent
  endings : List Ending

def visit (now : Duration) : List String → Method (AttachedRuntime P) String (List Visit)
  | [] => pure []
  | languageId :: languages => do
    match (← get).get? languageId with
    | none => visit now languages
    | some running =>
      let (events, endings) ←
        onLanguage languageId running (AttachedLanguage.pollLanguage env languageId now)
      pure (⟨(languageId, running.generation), events, endings⟩ :: (← visit now languages))

namespace Visit

def reported (v : Visit) : List ((String × UInt64) × LanguageRuntimeEvent) :=
  v.events.map fun event => (v.source, event)

/-- The terminal events of those endings that `p` holds of. -/
def ended (p : Ending → Bool) (v : Visit) : List ((String × UInt64) × LanguageRuntimeEvent) :=
  (v.endings.filter p).map fun ending => (v.source, ending.event v.source.1 v.source.2)

end Visit

/-- The events from `stopped`, then those from `failed`. -/
def terminalEvents (visits : List Visit) : List ((String × UInt64) × LanguageRuntimeEvent) :=
  visits.flatMap (Visit.ended (· = .stopped)) ++ visits.flatMap (Visit.ended (· ≠ .stopped))

/-- The events stand with their sources. -/
def pollAt (now : Duration) (order : KeyOrder String) :
    Method (AttachedRuntime P) String (List ((String × UInt64) × LanguageRuntimeEvent)) := do
  let visits ← visit env now (order.order (← get).keys)
  let terminal := terminalEvents visits
  modify fun runtime => terminal.foldl (fun runtime event => runtime.remove event.1.1) runtime
  pure (visits.flatMap Visit.reported ++ terminal)

end AttachedRuntime

end Strukt.App
