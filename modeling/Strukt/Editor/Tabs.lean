import Strukt.Editor.DocumentSpec

/-!
# The documents of a workspace

An `EditorWorkspace` holds the open documents in the order of their tabs, the active one, and the
preview, which the next preview replaces while there is nothing to recover in it. Each of its
operations names a document by its identifier; `openDocument` names it by its path, and makes an
open read-only document editable.

Identifiers are counted by the process; `nextDocumentId` is its counter.
-/

namespace Strukt

open Method

inductive OpenDisposition where
  | preview
  | pinned
  deriving DecidableEq

inductive CloseDecision where
  | save
  | discard
  | cancel
  deriving DecidableEq

inductive CloseOutcome where
  | closed
  | needsDecision
  | saveRequired
  | cancelled
  deriving DecidableEq

inductive EditorWorkspaceError where
  | documentNotFound (id : DocumentId)
  | document (error : DocumentError)
  deriving DecidableEq

structure EditorWorkspace where
  documents : List Document
  active : Option DocumentId
  preview : Option DocumentId
  nextDocumentId : Nat
  deriving DecidableEq

abbrev EditorM (α : Type) := Method EditorWorkspace EditorWorkspaceError α

/-- The list with its first document under `id` replaced. -/
def replaceDocument (id : DocumentId) (d' : Document) : List Document → List Document
  | [] => []
  | d :: ds => if d.id = id then d' :: ds else d :: replaceDocument id d' ds

namespace EditorWorkspace

/-- A workspace without documents, when the process has counted so far. -/
def new (nextDocumentId : Nat) : EditorWorkspace := ⟨[], none, none, nextDocumentId⟩

def document (w : EditorWorkspace) (id : DocumentId) : Option Document :=
  w.documents.find? (·.id = id)

/-! ## Parts of the operations -/

/-- `document_mut`, and a method of the document that it finds. -/
def onDocument {α : Type} (id : DocumentId) (x : DocumentM α) : EditorM α := do
  let d ← okOr (.documentNotFound id) ((← get).document id)
  focus (fun _ => d) (fun w d' => { w with documents := replaceDocument id d' w.documents })
    .document x

def pin (id : DocumentId) : EditorM Unit := do
  discard (okOr (.documentNotFound id) ((← get).document id))
  modify fun w => { w with preview := if w.preview = some id then none else w.preview }

def remove (w : EditorWorkspace) (id : DocumentId) : EditorWorkspace :=
  match w.documents.findIdx? (·.id = id) with
  | none => w
  | some index =>
    let documents := w.documents.eraseIdx index
    { w with
      documents := documents
      preview := if w.preview = some id then none else w.preview
      active :=
        if w.active = some id then (documents[index - 1]? <|> documents[index]?).map (·.id)
        else w.active }

def clearReplaceablePreview (w : EditorWorkspace) : EditorWorkspace :=
  match w.preview with
  | none => w
  | some id =>
    let w := { w with preview := none }
    if (w.document id).any (·.isPreviewReplaceable) then w.remove id else w

/-! ## Operations -/

/-- `EditorWorkspace::open`. -/
def openDocument (path : RelativeDocumentPath) (text : String) (diskRevision : DiskRevision)
    (readOnly : Bool) (disposition : OpenDisposition) : EditorM DocumentId := do
  match ((← get).documents.find? (·.path = path)).map (·.id) with
  | some existing => do
    if readOnly = false then onDocument existing (Document.upgradeReadOnly text diskRevision)
    else pure ()
    modify fun w => { w with active := some existing }
    if disposition = .pinned then pin existing else pure ()
    return existing
  | none => do
    if disposition = .preview then modify clearReplaceablePreview else pure ()
    let id : DocumentId := ⟨(← get).nextDocumentId⟩
    modify fun w =>
      { w with
        documents := w.documents ++ [.new id path text diskRevision readOnly]
        active := some id
        preview := if disposition = .preview then some id else none
        nextDocumentId := w.nextDocumentId + 1 }
    return id

def edit (id : DocumentId) (transaction : EditTransaction) (kind : EditKind)
    (cursorBefore cursorAfter : Nat) : EditorM Unit := do
  onDocument id (Document.edit transaction kind cursorBefore cursorAfter)
  pin id

def undo (id : DocumentId) : EditorM Unit := do
  onDocument id Document.undo
  pin id

def redo (id : DocumentId) : EditorM Unit := do
  onDocument id Document.redo
  pin id

def completeSave (id : DocumentId) (expected : Revision) (diskRevision : DiskRevision) :
    EditorM Unit :=
  onDocument id (Document.completeSave expected diskRevision)

def select (id : DocumentId) : EditorM Unit := do
  discard (okOr (.documentNotFound id) ((← get).document id))
  modify fun w => { w with active := some id }

def pinDocument (id : DocumentId) : EditorM Unit := pin id

def markRecovered (id : DocumentId) : EditorM Unit := do
  onDocument id Document.markRecovered
  pin id

def observeDiskChange (id : DocumentId) (expected : Revision) (diskRevision : DiskRevision)
    (text : String) : EditorM Unit := do
  onDocument id (Document.observeDiskChange expected diskRevision text)
  if ((← get).document id).any (·.isRecoverable) then pin id else pure ()

def observeMissing (id : DocumentId) (expected : Revision) : EditorM Unit := do
  onDocument id (Document.observeMissing expected)
  pin id

def reloadFromDisk (id : DocumentId) : EditorM Unit := do
  onDocument id Document.reloadFromDisk
  pin id

def keepEditing (id : DocumentId) : EditorM Unit := do
  onDocument id Document.keepEditing
  pin id

def restoreRecovery (id : DocumentId) (text : String) : EditorM Unit := do
  onDocument id (Document.restoreRecovery text)
  pin id

def requestClose (id : DocumentId) : EditorM CloseOutcome := do
  let d ← okOr (.documentNotFound id) ((← get).document id)
  if d.isRecoverable then return .needsDecision
  else do
    modify (·.remove id)
    return .closed

def resolveClose (id : DocumentId) (decision : CloseDecision) : EditorM CloseOutcome := do
  discard (okOr (.documentNotFound id) ((← get).document id))
  match decision with
  | .cancel => return .cancelled
  | .save => return .saveRequired
  | .discard => do
    modify (·.remove id)
    return .closed

end EditorWorkspace
end Strukt
