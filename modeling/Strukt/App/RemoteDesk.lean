import Strukt.App.RemoteSurfaces
import Strukt.Persistence.RemoteStore
import Strukt.Remote.Helper

/-!
# The remote messages of the app

`RemoteDesk` is the remote part of the app under all its messages: the surfaces, the runtime of the
connection, the inputs of a task and the records of known hosts. Whatever runs in the background is
a `RemoteJob`, with what it was begun with; `deliver` is its completion, at any moment and in any
order.

* **What is remembered beside the state**: the reviews of tasks that the user saw, the runs that the
  app started, and the records that it kept after a connection, each with what came before it.
* **Environment**: `ArgumentsJson` reads and writes an argument list; the checks of inputs, the
  search for `ssh` and the jobs' results are arguments of the messages.
-/

namespace Strukt.App

/-! ## Records of connections, without the members that only the store keeps -/

structure RemoteHelperMetadata where
  version : String
  checksumSha256 : String
  deriving DecidableEq

structure RemoteConnectionRecord where
  connectionId : String
  aliasLabel : String
  displayName : Option String
  recentRoots : List String
  helper : Option RemoteHelperMetadata
  preferredSessionProvider : Option RemoteSessionProviderPreference
  deriving DecidableEq

def RemoteHelperMetadata.validate (h : RemoteHelperMetadata) : Bool :=
  validVersion h.version && h.checksumSha256.utf8ByteSize = 64 &&
    h.checksumSha256.toList.all fun c => isDigit c || (isLetter c && c.toLower.toNat ≤ 102)

namespace RemoteConnectionRecord

def validate (r : RemoteConnectionRecord) : Bool :=
  (r.connectionId.utf8ByteSize = 32 &&
      r.connectionId.toList.all fun c => isDigit c || (97 ≤ c.toNat && c.toNat ≤ 102)) &&
    (0 < r.aliasLabel.utf8ByteSize && r.aliasLabel.utf8ByteSize ≤ 255 &&
      r.aliasLabel.toList.head? ≠ some '-' && !r.aliasLabel.toList.any isControl) &&
    r.displayName.all (fun label =>
      0 < label.utf8ByteSize && label.utf8ByteSize ≤ 128 && !label.toList.any isControl) &&
    (r.recentRoots.length ≤ 20 && r.recentRoots.all validRoot) && r.helper.all (·.validate)

/-- The order of records: by alias in lower case, then by identifier. -/
def Le (a b : RemoteConnectionRecord) : Prop :=
  a.aliasLabel.map Char.toLower < b.aliasLabel.map Char.toLower ∨
    (a.aliasLabel.map Char.toLower = b.aliasLabel.map Char.toLower ∧
      a.connectionId ≤ b.connectionId)

instance : DecidableRel Le := fun _ _ => inferInstanceAs (Decidable (_ ∨ _))

end RemoteConnectionRecord

/-! ## Jobs -/

/-- The runtime of a connection: what `RemoteRuntime` has, and the identifier of the attempt. -/
structure ConnectedRuntime extends RemoteRuntime where
  connectionId : String
  deriving DecidableEq

/-- What a connection attempt was begun with. The job takes the root in its normal form. -/
structure ConnectAttempt where
  connectionId : String
  aliasLabel : String
  root : String
  deriving DecidableEq

inductive RemoteWork where
  | connect (attempt : ConnectAttempt)
  | listFiles
  | read (path : String)
  | save (path revision text : String)
  | search
  | git
  | task (executable : String) (arguments : List String)
  | language
  | install
  deriving DecidableEq

/-- A job under way, with the generation that the app was in when it began. -/
structure RemoteJob where
  generation : UInt64
  work : RemoteWork
  deriving DecidableEq

inductive RemoteOutcome where
  /-- The canonical root and the capabilities of the host. -/
  | connected (result : Except String (String × List RemoteCapability))
  | files (result : Except String (List String))
  | document (result : Except String RemoteDocument)
  | saved (result : Except String String)
  | found (result : Except String (List String))
  | git (result : Except String (List String))
  | task (result : Except String String)
  | language (result : Except String String)
  | installed (result : Except String Unit)
  deriving DecidableEq

/-- The argument list of a task as JSON text. -/
structure ArgumentsJson where
  parse : String → Option (List String)
  render : List String → String

/-- A task, and the host that it is for. -/
structure HostedTask where
  host : String
  executable : String
  arguments : List String
  deriving DecidableEq

/-- A run of a task, after so many reviews. -/
structure TaskRun where
  reviews : Nat
  task : HostedTask
  deriving DecidableEq

/-- A record that was kept after an attempt, and what was remembered under its identifier. -/
structure KeptRecord where
  attempt : ConnectAttempt
  previous : Option RemoteConnectionRecord
  record : RemoteConnectionRecord
  deriving DecidableEq

structure RemoteDesk where
  surfaces : RemoteSurfaces
  runtime : Option ConnectedRuntime
  taskExecutable : String
  taskArgumentsJson : String
  records : List RemoteConnectionRecord
  /-- `remote_store` is set. -/
  store : Bool
  jobs : List RemoteJob
  reviews : List HostedTask
  runs : List TaskRun
  kept : List KeptRecord
  deriving DecidableEq

inductive DeskMessage where
  | aliasChanged (value : String)
  | rootChanged (value : String)
  /-- With the identifier to take where no record has the alias. -/
  | connectRemote (checked : Except String String)
  | refreshFiles
  | openDocument (path : String)
  | documentAction (action : String → String)
  | saveDocument
  | disconnectRemote
  | confirmHelperInstall (checked : Except String Unit)
  | recordsLoaded (result : Except String (List RemoteConnectionRecord))
  | selectRecord (index : Nat)
  | forgetRecord (connectionId : String)
  /-- With the identifier to take where no record has the alias. -/
  | selectSessionProvider (fresh : String) (provider : RemoteSessionProviderPreference)
  | runSearch
  | refreshGit
  | taskExecutableChanged (value : String)
  | taskArgumentsChanged (value : String)
  | reviewTask
  | confirmTask
  | cancelTask
  /-- With what the check of the language command says. -/
  | verifyLanguage (checked : Except String Unit)
  /-- The job at the index completes. -/
  | deliver (index : Nat) (outcome : RemoteOutcome)

namespace RemoteDesk

/-! ## Connections and records -/

def start (records : List RemoteConnectionRecord) (store : Bool) : RemoteDesk where
  surfaces := .new
  runtime := none
  taskExecutable := ""
  taskArgumentsJson := "[]"
  records := records
  store := store
  jobs := []
  reviews := []
  runs := []
  kept := []

def fail (d : RemoteDesk) (error : String) : RemoteDesk :=
  { d with surfaces := { d.surfaces with error := some error } }

/-- The record under an identifier. -/
def recordOf (d : RemoteDesk) (connectionId : String) : Option RemoteConnectionRecord :=
  d.records.find? (·.connectionId = connectionId)

/-- The identifier that the alias has in the records, or a fresh one. -/
def connectionIdOr (d : RemoteDesk) (fresh : String) : String :=
  (d.records.find? (·.aliasLabel = d.surfaces.aliasInput)).elim fresh (·.connectionId)

/-- `begin_connect`, and its job. -/
def connect (d : RemoteDesk) (checked : Except String String) : RemoteDesk :=
  match checked with
  | .error error => { d with surfaces := d.surfaces.beginConnect (.error error) }
  | .ok fresh =>
    { d with
      surfaces := d.surfaces.beginConnect (.ok ())
      jobs := d.jobs ++
        [⟨d.surfaces.nextGeneration,
          .connect ⟨d.connectionIdOr fresh, d.surfaces.aliasInput, d.surfaces.rootInput⟩⟩] }

def maxRecentRoots : Nat := 20

/-- `current_record_for`. -/
def currentRecordFor (d : RemoteDesk) (connectionId : String) : Option RemoteConnectionRecord :=
  let existing := d.recordOf connectionId
  let roots := (existing.elim [] (·.recentRoots)).filter (· ≠ d.surfaces.rootInput)
  let record : RemoteConnectionRecord :=
    { connectionId := connectionId
      aliasLabel := d.surfaces.aliasInput
      displayName := existing.bind (·.displayName)
      recentRoots := (d.surfaces.rootInput :: roots).take maxRecentRoots
      helper := existing.bind (·.helper)
      preferredSessionProvider := existing.bind (·.preferredSessionProvider) }
  if record.validate then some record else none

def rememberRecord (d : RemoteDesk) (record : RemoteConnectionRecord) : RemoteDesk :=
  { d with
    records := ((d.records.filter (·.connectionId ≠ record.connectionId)) ++ [record]).insertionSort
      RemoteConnectionRecord.Le }

/-- `remember_session_provider`. -/
def rememberSessionProvider (d : RemoteDesk) (fresh : String)
    (provider : RemoteSessionProviderPreference) : RemoteDesk :=
  match d.currentRecordFor (d.connectionIdOr fresh) with
  | some record => d.rememberRecord { record with preferredSessionProvider := some provider }
  | none => d

/-- The record of the connection that was made is remembered and goes to the store. -/
def keepRecord (d : RemoteDesk) (attempt : ConnectAttempt) : RemoteDesk :=
  match d.currentRecordFor attempt.connectionId with
  | some record =>
    if d.store then
      { d.rememberRecord record with
        kept := d.kept ++ [⟨attempt, d.recordOf attempt.connectionId, record⟩] }
    else d
  | none => d

/-- The runtime of an attempt. -/
def runtimeOf (attempt : ConnectAttempt) (host : String × List RemoteCapability) :
    ConnectedRuntime where
  aliasLabel := attempt.aliasLabel
  root := host.1
  capabilities := host.2
  connectionId := attempt.connectionId

/-- `Message::RemoteConnected`. -/
def connected (d : RemoteDesk) (generation : UInt64) (attempt : ConnectAttempt)
    (result : Except String (String × List RemoteCapability)) : RemoteDesk :=
  if generation ≠ d.surfaces.generation then d
  else
    let surfaces := d.surfaces.finishConnect generation
      (result.map fun host => (runtimeOf attempt host).toRemoteRuntime)
    match result with
    | .ok host =>
      { d with surfaces := surfaces, runtime := some (runtimeOf attempt host) }.keepRecord attempt
    | .error _ => { d with surfaces := surfaces, runtime := none }

/-- A record's alias and latest root go to the inputs. -/
def fill (s : RemoteSurfaces) (record : RemoteConnectionRecord) : RemoteSurfaces :=
  { s with
    aliasInput := record.aliasLabel
    rootInput := record.recentRoots.head?.getD s.rootInput }

def restoreRecords (d : RemoteDesk) (records : List RemoteConnectionRecord) : RemoteDesk :=
  { d with
    records := records
    surfaces := records.head?.elim d.surfaces (fill d.surfaces) }

def selectRecord (d : RemoteDesk) (index : Nat) : RemoteDesk :=
  if d.surfaces.status = .disconnected then
    match d.records[index]? with
    | some record => { d with surfaces := { fill d.surfaces record with error := none } }
    | none => d
  else d

/-! ## Operations -/

/-- A job is begun for the present generation. -/
def push (d : RemoteDesk) (work : RemoteWork) : RemoteDesk :=
  { d with jobs := d.jobs ++ [⟨d.surfaces.generation, work⟩] }

/-- A begun operation: its job, where there are a runtime and what the job needs. -/
def begins (d : RemoteDesk) (work : Option RemoteWork) : RemoteDesk :=
  match d.surfaces.beginOperation with
  | none => d
  | some surfaces =>
    let begun := { d with surfaces := surfaces }
    match d.runtime, work with
    | some _, some work => begun.push work
    | _, _ => begun

def refreshFiles (d : RemoteDesk) : RemoteDesk :=
  match d.surfaces.beginOperation with
  | none => d
  | some surfaces =>
    let begun := { d with surfaces := surfaces }
    match d.runtime with
    | some _ => begun.push .listFiles
    | none => begun.fail "remote helper is not connected"

/-- The operation of a host with the capability. -/
def withCapability (d : RemoteDesk) (capability : RemoteCapability)
    (f : RemoteDesk → RemoteDesk) : RemoteDesk :=
  if capability ∈ d.surfaces.capabilities then f d else d

def saveWork (d : RemoteDesk) : Option RemoteWork := do
  let path ← d.surfaces.selectedPath
  let revision ← d.surfaces.documentRevision
  return .save path revision d.surfaces.documentContent

def verifyLanguage (d : RemoteDesk) (checked : Except String Unit) : RemoteDesk :=
  match checked with
  | .error error => d.fail error
  | .ok _ =>
    if d.surfaces.selectedPath.isNone then d.fail "open a remote text document before diagnostics"
    else d.begins (some .language)

def confirmHelperInstall (d : RemoteDesk) (checked : Except String Unit) : RemoteDesk :=
  let begun := { d with surfaces := d.surfaces.beginInstall checked }
  if checked.isOk then begun.push .install else begun

/-! ## Tasks -/

def taskArgumentsError : String := "task arguments must be a JSON string array"

/-- The text that the user reviews. -/
def consentText (json : ArgumentsJson) (task : HostedTask) : String :=
  "Run on " ++ task.host ++ ": " ++ task.executable ++ " " ++ json.render task.arguments

def setConsent (d : RemoteDesk) (consent : Option String) : RemoteDesk :=
  { d with surfaces := { d.surfaces with taskConsent := consent } }

/-- `prepare_task`. -/
def reviewTask (json : ArgumentsJson) (d : RemoteDesk) : RemoteDesk :=
  if (trim d.taskExecutable).isEmpty then d.fail "enter an exact remote task executable"
  else
    match json.parse d.taskArgumentsJson with
    | none => d.fail taskArgumentsError
    | some arguments =>
      let task : HostedTask :=
        ⟨d.surfaces.hostLabel.getD "remote host", d.taskExecutable, arguments⟩
      { d.setConsent (some (consentText json task)) with reviews := d.reviews ++ [task] }

/-- `approved_task_command` and what follows it. -/
def confirmTask (json : ArgumentsJson) (d : RemoteDesk) : RemoteDesk :=
  if d.surfaces.taskConsent.isNone then d.fail "review the exact remote task before running it"
  else
    match json.parse d.taskArgumentsJson with
    | none => d.fail taskArgumentsError
    | some arguments =>
      match d.surfaces.beginOperation with
      | none => d
      | some surfaces =>
        let begun := { d with surfaces := { surfaces with taskConsent := none } }
        match d.runtime with
        | none => begun
        | some runtime =>
          { begun.push (.task d.taskExecutable arguments) with
            runs := d.runs ++
              [⟨d.reviews.length, ⟨runtime.aliasLabel, d.taskExecutable, arguments⟩⟩] }

/-! ## Completions -/

/-- The completion of a job that an operation, an attempt or an install began. -/
def complete (d : RemoteDesk) (job : RemoteJob) : RemoteOutcome → Option RemoteDesk
  | .connected result =>
    match job.work with
    | .connect attempt => some (d.connected job.generation attempt result)
    | _ => none
  | .files result =>
    if job.work = .listFiles then
      some { d with surfaces := d.surfaces.finishFiles job.generation result }
    else none
  | .document result =>
    match job.work with
    | .read _ => some { d with surfaces := d.surfaces.finishDocument job.generation result }
    | _ => none
  | .saved result =>
    match job.work with
    | .save _ _ _ => some { d with surfaces := d.surfaces.finishSave job.generation result }
    | _ => none
  | .found result =>
    if job.work = .search then
      some { d with surfaces := d.surfaces.finishSearch job.generation result }
    else none
  | .git result =>
    if job.work = .git then
      some { d with surfaces := d.surfaces.finishGit job.generation result }
    else none
  | .task result =>
    match job.work with
    | .task _ _ => some { d with surfaces := d.surfaces.finishTask job.generation result }
    | _ => none
  | .language result =>
    if job.work = .language then
      some { d with surfaces := d.surfaces.finishLanguage job.generation result }
    else none
  | .installed result =>
    if job.work = .install then some { d with surfaces := d.surfaces.finishInstall result }
    else none

def deliver (d : RemoteDesk) (index : Nat) (outcome : RemoteOutcome) : Option RemoteDesk :=
  d.jobs[index]?.bind fun job => { d with jobs := d.jobs.eraseIdx index }.complete job outcome

def step (json : ArgumentsJson) (d : RemoteDesk) : DeskMessage → Option RemoteDesk
  | .aliasChanged value => some { d with surfaces := { d.surfaces with aliasInput := value } }
  | .rootChanged value => some { d with surfaces := { d.surfaces with rootInput := value } }
  | .connectRemote checked => some (d.connect checked)
  | .refreshFiles => some d.refreshFiles
  | .openDocument path => some (d.begins (some (.read path)))
  | .documentAction action =>
    some { d with surfaces := d.surfaces.editDocument action }
  | .saveDocument => some (d.begins d.saveWork)
  | .disconnectRemote => some { d with surfaces := d.surfaces.disconnected, runtime := none }
  | .confirmHelperInstall checked => some (d.confirmHelperInstall checked)
  | .recordsLoaded (.ok records) => some (d.restoreRecords records)
  | .recordsLoaded (.error error) => some (d.fail error)
  | .selectRecord index => some (d.selectRecord index)
  | .forgetRecord connectionId =>
    some { d with records := d.records.filter (·.connectionId ≠ connectionId) }
  | .selectSessionProvider fresh provider => some (d.rememberSessionProvider fresh provider)
  | .runSearch => some (d.withCapability .search (·.begins (some .search)))
  | .refreshGit => some (d.withCapability .git (·.begins (some .git)))
  | .taskExecutableChanged value => some { d.setConsent none with taskExecutable := value }
  | .taskArgumentsChanged value => some { d.setConsent none with taskArgumentsJson := value }
  | .reviewTask => some (d.withCapability .processes (reviewTask json))
  | .confirmTask => some (d.withCapability .processes (confirmTask json))
  | .cancelTask => some (d.setConsent none)
  | .verifyLanguage checked => some (d.withCapability .language (·.verifyLanguage checked))
  | .deliver index outcome => d.deliver index outcome

end RemoteDesk
end Strukt.App
