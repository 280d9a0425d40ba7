import Strukt.App.Coordinator
import Strukt.Editor.TabsSpec
import Strukt.Fs.DocumentIo

/-!
# Saves and observations of open documents

An `EditorSession` is the editor of the app with its files, the save and observation tasks that it
started, and the messages that they ended in. A task runs at any moment after it was started, and
its message is delivered at any moment after that.

* **Versions**: a file counts what was written to it. A message knows the version that its task read
  or wrote, and `completed` remembers the versions of the saves whose messages were delivered;
  the code knows neither.
* **Workspaces**: a message for another root than the open one is dropped. Documents of a workspace
  that was left are closed, and identifiers are not used twice.
* **Environment**: what a document is opened with is read by a task of its own, and is arbitrary
  here; so is what other programs write.
-/

namespace Strukt

/-- The operation is not one that the messages of saves, observations and closes call. -/
def EditorOp.isDirect : EditorOp → Bool
  | .completeSave _ _ _ | .observeDiskChange _ _ _ _ | .observeMissing _ _ | .requestClose _
  | .resolveClose _ _ => false
  | _ => true

end Strukt

namespace Strukt.App

open Strukt.Fs Method

inductive DiskObservation where
  | present (read : DocumentRead)
  | missing
  deriving DecidableEq

structure FileState where
  version : Nat
  entry : Option DiskEntry

/-- What a task does in the background. -/
inductive DiskTask where
  | save (request : SaveRequest)
  | observe (path : RelativeDocumentPath)
  deriving DecidableEq

structure StartedTask where
  workspaceRoot : PathBuf
  id : DocumentId
  expectedRevision : Revision
  task : DiskTask
  deriving DecidableEq

inductive DiskResult where
  | saved (result : Except DocumentIoError SaveOutcome)
  | observed (result : Except DocumentIoError DiskObservation)
  deriving DecidableEq

/-- `Message::DocumentSaved` or `Message::DocumentDiskObserved`, and the version of the file that
the task wrote or read. -/
structure DiskMessage where
  workspaceRoot : PathBuf
  id : DocumentId
  expectedRevision : Revision
  result : DiskResult
  version : Nat
  deriving DecidableEq

structure EditorSession where
  workspaceRoot : PathBuf
  editor : EditorWorkspace
  recentSaveRevisions : SortedMap DocumentId DiskRevision
  pendingClose : Option DocumentId
  files : PathBuf → RelativeDocumentPath → FileState
  tasks : List StartedTask
  messages : List DiskMessage
  /-- The newest version of each document's file that a delivered save wrote. -/
  completed : SortedMap DocumentId Nat

inductive DiskAction where
  /-- The user, or the app's own messages that neither save nor observe. -/
  | editor (op : EditorOp)
  | openWorkspace (root : PathBuf)
  | closeDocument (id : DocumentId)
  | resolveClose (id : DocumentId) (decision : CloseDecision)
  | saveDocument (id : DocumentId) (mode : SaveMode)
  | observeDocument (id : DocumentId)
  | externalWrite (root : PathBuf) (path : RelativeDocumentPath) (entry : Option DiskEntry)
  | perform (task : Nat)
  /-- The task ends with an error, and the file is as it was. -/
  | fail (task : Nat)
  | deliver (message : Nat)
  deriving DecidableEq

/-- What the observation has the editor do. -/
def DiskObservation.operation (id : DocumentId) (expected : Revision) :
    Except DocumentIoError DiskObservation → Option EditorOp
  | .ok (.present read) =>
    match read.kind with
    | .text false _ => read.text.map (.observeDiskChange id expected read.diskRevision)
    | _ => some (.observeMissing id expected)
  | .ok .missing => some (.observeMissing id expected)
  | .error _ => none

namespace EditorSession

def start (root : PathBuf) (files : PathBuf → RelativeDocumentPath → FileState)
    (nextDocumentId : Nat) : EditorSession :=
  ⟨root, .new nextDocumentId, .empty, none, files, [], [], .empty⟩

/-- The document's file under the open workspace has new contents. -/
def write (s : EditorSession) (root : PathBuf) (path : RelativeDocumentPath)
    (entry : Option DiskEntry) : EditorSession :=
  { s with files := fun r p =>
      if r = root ∧ p = path then ⟨(s.files r p).version + 1, entry⟩ else s.files r p }

/-- A task of the document is started with what it is now. -/
def begin (s : EditorSession) (id : DocumentId) (task : Document → DiskTask) : EditorSession :=
  match s.editor.document id with
  | none => s
  | some d =>
    { s with tasks := s.tasks ++ [⟨s.workspaceRoot, id, d.buffer.revision, task d⟩] }

def saveRequest (mode : SaveMode) (d : Document) : SaveRequest where
  path := d.path
  contents := (String.ofList d.buffer.text).toUTF8
  expectedRevision := d.diskRevision
  mode := mode

/-- The task with the number ends with `result`. -/
def finish (s : EditorSession) (n : Nat) (t : StartedTask) (result : DiskResult) (version : Nat) :
    EditorSession :=
  { s with
    tasks := s.tasks.eraseIdx n
    messages := s.messages ++
      [⟨t.workspaceRoot, t.id, t.expectedRevision, result, version⟩] }

/-- The task reads or writes its file. -/
def perform (revision : ByteArray → DiskRevision) (s : EditorSession) (n : Nat) (t : StartedTask) :
    EditorSession :=
  match t.task with
  | .observe path =>
    let file := s.files t.workspaceRoot path
    let result : Except DocumentIoError DiskObservation :=
      match readDocument revision path .standard file.entry with
      | .ok read => .ok (.present read)
      | .error .notFound => .ok .missing
      | .error e => .error e
    s.finish n t (.observed result) file.version
  | .save request =>
    let file := s.files t.workspaceRoot request.path
    match Fs.saveDocument revision request file.entry with
    | .ok (saved, entry) =>
      (s.write t.workspaceRoot request.path (some entry)).finish n t (.saved (.ok saved))
        (file.version + 1)
    | .error e => s.finish n t (.saved (.error e)) file.version

def failure : DiskTask → DiskResult
  | .save _ => .saved (.error .failed)
  | .observe _ => .observed (.error .failed)

/-! ## Messages -/

/-- The document is closed after a save that it waited for. -/
def closeSaved (s : EditorSession) (id : DocumentId) : Option EditorSession :=
  if s.pendingClose = some id then
    (s.editor.step (.resolveClose id .discard)).map fun editor =>
      { s with editor := editor, pendingClose := none }
  else some s

/-- `Message::DocumentSaved`. -/
def documentSaved (s : EditorSession) (id : DocumentId) (expected : Revision) :
    Except DocumentIoError SaveOutcome → Option EditorSession
  | .error _ => some s
  | .ok saved =>
    match (EditorWorkspace.completeSave id expected saved.diskRevision).exec s.editor with
    | none => none
    | some (.error _, editor) => some { s with editor := editor }
    | some (.ok _, editor) =>
      let recent := match editor.document id with
        | some d => s.recentSaveRevisions.insert id d.diskRevision
        | none => s.recentSaveRevisions
      { s with editor := editor, recentSaveRevisions := recent }.closeSaved id

/-- The read is of the revision that the last save left. -/
def isRecentSave (s : EditorSession) (id : DocumentId) :
    Except DocumentIoError DiskObservation → Bool
  | .ok (.present read) => s.recentSaveRevisions.get? id = some read.diskRevision
  | _ => false

/-- `Message::DocumentDiskObserved`. -/
def documentDiskObserved (s : EditorSession) (id : DocumentId) (expected : Revision)
    (result : Except DocumentIoError DiskObservation) : Option EditorSession :=
  let forgotten := { s with recentSaveRevisions := s.recentSaveRevisions.remove id }
  if s.isRecentSave id result then some forgotten
  else
    match DiskObservation.operation id expected result with
    | none => some forgotten
    | some op => (s.editor.step op).map fun editor => { forgotten with editor := editor }

/-- What a delivered save adds to the versions that are known to be written. -/
def acknowledge (s : EditorSession) (m : DiskMessage) : EditorSession :=
  match m.result with
  | .saved (.ok _) =>
    { s with completed := s.completed.insert m.id (max m.version ((s.completed.get? m.id).getD 0)) }
  | _ => s

/-- A message for another workspace is dropped. -/
def receive (s : EditorSession) (m : DiskMessage) : Option EditorSession :=
  if m.workspaceRoot ≠ s.workspaceRoot then some s
  else
    match m.result with
    | .saved result => (s.acknowledge m).documentSaved m.id m.expectedRevision result
    | .observed result => s.documentDiskObserved m.id m.expectedRevision result

def step (revision : ByteArray → DiskRevision) (s : EditorSession) :
    DiskAction → Option EditorSession
  | .editor op =>
    if op.isDirect then (s.editor.step op).map fun editor => { s with editor := editor } else none
  | .openWorkspace root =>
    some
      { s with
        workspaceRoot := root
        editor := .new s.editor.nextDocumentId
        recentSaveRevisions := .empty
        pendingClose := none }
  | .closeDocument id =>
    match (EditorWorkspace.requestClose id).exec s.editor with
    | none => none
    | some (result, editor) =>
      some
        { s with
          editor := editor
          pendingClose := match result with
            | .ok .needsDecision => some id
            | _ => s.pendingClose }
  | .resolveClose id decision =>
    if decision = .save then some (s.begin id fun d => .save (saveRequest .ifUnchanged d))
    else
      (s.editor.step (.resolveClose id decision)).map fun editor =>
        { s with editor := editor, pendingClose := none }
  | .saveDocument id mode => some (s.begin id fun d => .save (saveRequest mode d))
  | .observeDocument id => some (s.begin id fun d => .observe d.path)
  | .externalWrite root path entry => some (s.write root path entry)
  | .perform n => s.tasks[n]?.map (s.perform revision n)
  | .fail n => s.tasks[n]?.map fun t => s.finish n t (failure t.task) 0
  | .deliver n => s.messages[n]?.bind fun m =>
    { s with messages := s.messages.eraseIdx n }.receive m

end EditorSession
end Strukt.App
