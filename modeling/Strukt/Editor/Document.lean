import Strukt.Editor.History

/-!
# Documents

A `Document` is a text buffer with its edit history, and what is known of the file on disk: the text
that was last saved, the revision on disk, and how the two compare (`DocumentStatus`). Edits, undos
and redos go through the buffer and the history; a reload of a clean document and a recovery replace
the whole text and begin a new history.
-/

namespace Strukt

open Method

/-- A document's identifier, counted up by the process. -/
structure DocumentId where
  value : Nat
  deriving DecidableEq

/-- A path below the workspace's root, normalized. -/
structure RelativeDocumentPath where
  value : String
  deriving DecidableEq

structure DiskRevision where
  token : String
  deriving DecidableEq

inductive DocumentStatus where
  | clean
  | dirty
  | conflict (diskRevision : DiskRevision) (diskText : String)
  | missing
  deriving DecidableEq

inductive DocumentError where
  | readOnly
  | noDiskConflict
  | staleEvent (expected actual : Revision)
  | transaction (error : TransactionError)
  | history (error : HistoryError)
  deriving DecidableEq

structure Document where
  id : DocumentId
  path : RelativeDocumentPath
  buffer : TextBuffer
  history : History
  savedText : Rope
  diskRevision : DiskRevision
  status : DocumentStatus
  readOnly : Bool
  recovered : Bool
  deriving DecidableEq

abbrev DocumentM (α : Type) := Method Document DocumentError α

namespace Document

def new (id : DocumentId) (path : RelativeDocumentPath) (text : String)
    (diskRevision : DiskRevision) (readOnly : Bool) : Document where
  id := id
  path := path
  buffer := .new text
  history := .standard
  savedText := text.toList
  diskRevision := diskRevision
  status := .clean
  readOnly := readOnly
  recovered := false

/-! ## Parts of the operations -/

def applyBuffer (transaction : EditTransaction) : DocumentM AppliedTransaction :=
  focus buffer (fun d b => { d with buffer := b }) .transaction (TextBuffer.apply transaction)

def onHistory {α : Type} (x : HistoryM α) : DocumentM α :=
  focus history (fun d h => { d with history := h }) .history x

def record (entry : HistoryEntry) : DocumentM Unit :=
  modify fun d => { d with history := d.history.record entry }

def ensureRevision (expected : Revision) : DocumentM Unit := do
  let actual := (← get).buffer.revision
  ensure (expected = actual) (.staleEvent actual expected)

def refreshDirtyStatus : DocumentM Unit :=
  modify fun d =>
    match d.status with
    | .clean | .dirty =>
      { d with status := if d.buffer.text = d.savedText then .clean else .dirty }
    | _ => d

/-- The transaction that replaces the whole text. -/
def replaceAll (text : String) : DocumentM EditTransaction := do
  let b := (← get).buffer
  ofExcept ((EditTransaction.new b.revision [⟨⟨0, b.text.length⟩, text⟩]).mapError .transaction)

/-! ## Operations -/

def upgradeReadOnly (text : String) (diskRevision : DiskRevision) : DocumentM Unit :=
  modify fun d =>
    if d.readOnly = false then d
    else
      { d with
        buffer := .new text
        history := .standard
        savedText := text.toList
        diskRevision := diskRevision
        status := .clean
        readOnly := false }

def edit (transaction : EditTransaction) (kind : EditKind) (cursorBefore cursorAfter : Nat) :
    DocumentM Unit := do
  ensure ((← get).readOnly = false) .readOnly
  let applied ← applyBuffer transaction
  record (.fromApplied transaction applied kind cursorBefore cursorAfter)
  refreshDirtyStatus

def undo : DocumentM Unit := do
  let transaction ← onHistory (History.undo (← get).buffer.revision)
  discard (applyBuffer transaction)
  refreshDirtyStatus

def redo : DocumentM Unit := do
  let transaction ← onHistory (History.redo (← get).buffer.revision)
  discard (applyBuffer transaction)
  refreshDirtyStatus

def completeSave (expected : Revision) (diskRevision : DiskRevision) : DocumentM Unit := do
  ensureRevision expected
  modify fun d =>
    { d with
      savedText := d.buffer.text
      diskRevision := diskRevision
      status := .clean
      recovered := false }

def observeDiskChange (expected : Revision) (diskRevision : DiskRevision) (diskText : String) :
    DocumentM Unit := do
  ensureRevision expected
  if (← get).status = .clean then do
    let transaction ← replaceAll diskText
    discard (applyBuffer transaction)
    modify fun d =>
      { d with
        history := .standard
        savedText := diskText.toList
        diskRevision := diskRevision
        status := .clean }
  else modify fun d => { d with status := .conflict diskRevision diskText }

def observeMissing (expected : Revision) : DocumentM Unit := do
  ensureRevision expected
  modify fun d => { d with status := .missing }

def reloadFromDisk : DocumentM Unit := do
  match (← get).status with
  | .conflict diskRevision diskText =>
    let transaction ← replaceAll diskText
    let applied ← applyBuffer transaction
    record (.fromApplied transaction applied .other 0 0)
    modify fun d =>
      { d with
        savedText := diskText.toList
        diskRevision := diskRevision
        status := .clean
        recovered := false }
  | _ => throw .noDiskConflict

def keepEditing : DocumentM Unit := do
  match (← get).status with
  | .conflict _ _ => modify fun d => { d with status := .dirty }
  | _ => throw .noDiskConflict

def markRecovered : DocumentM Unit :=
  modify fun d =>
    { d with recovered := true, status := if d.status = .clean then .dirty else d.status }

def restoreRecovery (text : String) : DocumentM Unit := do
  if (← get).buffer.text ≠ text.toList then do
    let transaction ← replaceAll text
    discard (applyBuffer transaction)
    modify fun d => { d with history := .standard }
  else pure ()
  markRecovered

def isRecoverable (d : Document) : Bool := d.recovered ∨ d.status ≠ .clean

def isPreviewReplaceable (d : Document) : Bool := !d.isRecoverable

end Document
end Strukt
