import Strukt.App.DiskObservation
import Strukt.Persistence.EditorStore

/-!
# The messages about open documents

`EditorDesk` is what the app has for each open document beside the document itself: the surface that
the user types into, what the language coordinator was told, and the generation of its recovery
timer. `update` is the app under one message, with the tasks that it starts.

* **Surfaces**: the content of a text widget is its text. A cursor, and what depends on it, is an
  argument of a message: the replacement that an edit stands for, or that the cursor is not a
  position of the text. The widget makes an edit as the transaction that is built for it does.
* **Language**: what the runtime answers to the effects of the coordinator is a message of its own
  (`EditorMessage.language`).
* **Files**: what was read, saved or observed is an argument of the messages; so is what a search
  is replaced by.
-/

namespace Strukt

/-- `RelativeDocumentPath::new`. -/
def RelativeDocumentPath.new (path : String) : Option RelativeDocumentPath :=
  let normalized := path.toList.map fun c => if c = '\\' then '/' else c
  let components := normalized.splitOn '/'
  let drive : Bool := match normalized with
    | a :: ':' :: _ => a.utf8Size = 1
    | _ => false
  let escapes := components.any fun component => component = [] ∨ component = ['.', '.']
  if normalized.isEmpty || normalized.head? = some '/' || drive || escapes then none
  else
    let kept := components.filter (· ≠ ['.'])
    let joined := (kept.intersperse ['/']).flatten
    if joined.isEmpty then none else some ⟨String.ofList joined⟩

/-- The text of a widget after the edit that the replacement stands for. -/
def Replacement.perform (r : Replacement) (text : Rope) : Rope :=
  text.take r.range.start ++ r.text.toList ++ text.drop r.range.stop

end Strukt

namespace Strukt.App

open Strukt.Fs

/-! ## Surfaces -/

/-- The texts of the widgets. -/
abbrev EditorSurfaces := SortedMap DocumentId Rope

/-- What an edit of a widget is, where its cursor is. -/
structure SurfaceEdit where
  /-- `transaction_for_action` without its failure. -/
  replacement : Option Replacement
  kind : EditKind
  cursorBefore : Nat
  cursorAfter : Nat
  rebuild : Bool
  deriving DecidableEq

inductive SurfaceAction where
  /-- The cursor moves, or the text scrolls. -/
  | view
  | edit (edit : SurfaceEdit)
  deriving DecidableEq

/-! ## The desk -/

/-- What a restored session has of a tab. -/
structure RestoredTab where
  diskRevision : Option String
  languageOverride : Option String
  deriving DecidableEq

structure EditorDesk where
  workspaceRoot : PathBuf
  workspaceId : String
  editor : EditorWorkspace
  surfaces : EditorSurfaces
  language : LanguageCoordinator
  languageOverrides : SortedMap DocumentId String
  restoreTabs : SortedMap String RestoredTab
  restorePending : List String
  restoreActive : Option String
  recentSaveRevisions : SortedMap DocumentId DiskRevision
  pendingClose : Option DocumentId
  recoveryGenerations : SortedMap DocumentId UInt64

/-- What the desk asks of its surroundings. -/
structure DeskEnv where
  language : LanguageEnv
  /-- `to_string_lossy`. -/
  pathString : PathBuf → String
  /-- The recovery store could be opened. -/
  recoveryStore : Bool

inductive EditorTask where
  /-- A recovery is due two seconds later. -/
  | recoveryTimer (workspaceRoot : PathBuf) (id : DocumentId) (expectedRevision : Revision)
      (generation : UInt64)
  | saveRecovery (workspaceRoot : PathBuf) (id : DocumentId) (generation : UInt64)
      (payload : RecoveryPayload)
  | loadRecovery (workspaceRoot : PathBuf) (id : DocumentId) (expectedRevision : Revision)
      (metadata : RecoveryMetadata)
  | deleteRecovery (workspaceRoot : PathBuf) (id : DocumentId) (metadata : RecoveryMetadata)
  | saveDocument (workspaceRoot : PathBuf) (id : DocumentId) (expectedRevision : Revision)
      (request : SaveRequest)
  deriving DecidableEq

/-- A desk, and the tasks that are started. -/
abbrev DeskUpdate := EditorDesk × List EditorTask

inductive EditorMessage where
  | workspaceOpened (root : PathBuf) (workspaceId : String) (restored : RestoredLanguageSession)
      (tabs : SortedMap String RestoredTab) (active : Option String)
  | documentOpened (workspaceRoot path : PathBuf) (disposition : OpenDisposition)
      (result : Except DocumentIoError DocumentRead)
  | editorAction (id : DocumentId) (action : SurfaceAction)
  | selectDocument (id : DocumentId)
  | pinDocument (id : DocumentId)
  | undoDocument (id : DocumentId)
  | redoDocument (id : DocumentId)
  /-- What the completion is inserted at, with the caret, where both are positions of the text;
  and whether the cursor has a position behind it. -/
  | applyCompletion (index : Nat) (target : Option (Nat × CharRange)) (placed : Bool)
  /-- What the matches are replaced by, where the search is valid. -/
  | replaceAll (id : DocumentId) (replacements : Option (List Replacement))
  | closeDocument (id : DocumentId)
  | resolveDocumentClose (id : DocumentId) (decision : CloseDecision)
  | saveDocument (id : DocumentId) (mode : SaveMode)
  | documentSaved (workspaceRoot : PathBuf) (id : DocumentId) (expectedRevision : Revision)
      (result : Except DocumentIoError SaveOutcome)
  | documentDiskObserved (workspaceRoot : PathBuf) (id : DocumentId) (expectedRevision : Revision)
      (result : Except DocumentIoError DiskObservation)
  | reloadDocumentFromDisk (id : DocumentId)
  | keepEditingDocument (id : DocumentId)
  | recoveryDue (workspaceRoot : PathBuf) (id : DocumentId) (expectedRevision : Revision)
      (generation : UInt64)
  /-- `RecoverySaved`, whose handler reports an error at most. -/
  | recoverySaved (workspaceRoot : PathBuf) (id : DocumentId) (generation : UInt64)
  | recoveryLoaded (workspaceRoot : PathBuf) (id : DocumentId) (expectedRevision : Revision)
      (result : Except Unit (Option RecoveryPayload))
  | recoveryDeleted (workspaceRoot : PathBuf) (id : DocumentId)
  | setLanguageOverride (id : DocumentId) (language : Option String)
  /-- The other messages that call the coordinator. -/
  | language (op : CoordinatorOp)

/-- The operation is not one that the messages of documents call. -/
def CoordinatorOp.isForeign : CoordinatorOp → Bool
  | .openDocument _ _ _ _ _ | .editDocument _ _ _ | .closeDocument _ | .setOverride _ _ => false
  | _ => true

namespace EditorDesk

def start (root : PathBuf) (workspaceId : String) (restored : RestoredLanguageSession)
    (tabs : SortedMap String RestoredTab) (active : Option String) (nextDocumentId : Nat) :
    EditorDesk where
  workspaceRoot := root
  workspaceId := workspaceId
  editor := .new nextDocumentId
  surfaces := .empty
  language := .restore workspaceId restored
  languageOverrides := .empty
  restoreTabs := tabs
  restorePending := tabs.keys
  restoreActive := active
  recentSaveRevisions := .empty
  pendingClose := none
  recoveryGenerations := .empty

/-! ## Tasks -/

def recoveryMetadata (s : EditorDesk) (d : Document) : RecoveryMetadata :=
  ⟨s.workspaceId, d.path.value, d.diskRevision.token⟩

def scheduleRecovery (s : EditorDesk) (id : DocumentId) : DeskUpdate :=
  match (s.editor.document id).filter (·.isRecoverable) with
  | none => (s, [])
  | some d =>
    let generation := (s.recoveryGenerations.get? id).getD 0 + 1
    ({ s with recoveryGenerations := s.recoveryGenerations.insert id generation },
      [.recoveryTimer s.workspaceRoot id d.buffer.revision generation])

def saveRecoveryTask (env : DeskEnv) (s : EditorDesk) (id : DocumentId)
    (expectedRevision : Revision) (generation : UInt64) : List EditorTask :=
  match s.editor.document id with
  | none => []
  | some d =>
    if env.recoveryStore ∧ d.buffer.revision = expectedRevision ∧ d.isRecoverable then
      [.saveRecovery s.workspaceRoot id generation
        ⟨s.recoveryMetadata d, d.buffer.revision.value, String.ofList d.buffer.text⟩]
    else []

def loadRecoveryTask (env : DeskEnv) (s : EditorDesk) (id : DocumentId) : List EditorTask :=
  match s.editor.document id with
  | none => []
  | some d =>
    if env.recoveryStore then
      [.loadRecovery s.workspaceRoot id d.buffer.revision (s.recoveryMetadata d)]
    else []

/-- The record of the document is deleted, under what it is kept under at present. -/
def deleteRecoveryTask (env : DeskEnv) (s : EditorDesk) (id : DocumentId) : List EditorTask :=
  match s.editor.document id with
  | none => []
  | some d =>
    if env.recoveryStore then [.deleteRecovery s.workspaceRoot id (s.recoveryMetadata d)] else []

def saveDocumentTask (s : EditorDesk) (id : DocumentId) (mode : SaveMode) : List EditorTask :=
  match s.editor.document id with
  | none => []
  | some d =>
    [.saveDocument s.workspaceRoot id d.buffer.revision (EditorSession.saveRequest mode d)]

/-! ## Parts of the messages -/

/-- `EditorSurfaces::rebuild`. -/
def rebuild (s : EditorDesk) (id : DocumentId) : EditorDesk :=
  match s.editor.document id with
  | none => s
  | some d => { s with surfaces := s.surfaces.insert id d.buffer.text }

def languageDocumentChanged (s : EditorDesk) (id : DocumentId) : EditorDesk :=
  match s.editor.document id with
  | none => s
  | some d =>
    { s with
      language :=
        (s.language.editDocument id d.buffer.revision.value (String.ofList d.buffer.text)).1 }

/-- What follows an edit of the document. -/
def documentChanged (s : EditorDesk) (id : DocumentId) : DeskUpdate :=
  (s.languageDocumentChanged id).scheduleRecovery id

/-- The editor makes the operation; where it succeeds, `next` goes on. -/
def operate (s : EditorDesk) (op : EditorOp) (next : EditorDesk → DeskUpdate) :
    Option DeskUpdate :=
  match op.run.exec s.editor with
  | none => none
  | some (.error _, editor) => some ({ s with editor := editor }, [])
  | some (.ok _, editor) => some (next { s with editor := editor })

/-- The coordinator and the overrides forget a document that is not open any more. -/
def forgetClosed (s : EditorDesk) (id : DocumentId) : EditorDesk :=
  match s.editor.document id with
  | some _ => s
  | none =>
    { s with
      languageOverrides := s.languageOverrides.remove id
      language := (s.language.closeDocument id).1 }

/-! ## Messages -/

/-- The last restored tab makes the active tab free to change. -/
def settleRestore (s : EditorDesk) : EditorDesk :=
  if s.restorePending = [] then { s with restoreActive := none } else s

/-- The override that the document was restored with. -/
def restoreOverride (s : EditorDesk) (pathString : String) (id : DocumentId) : EditorDesk :=
  match (s.restoreTabs.get? pathString).bind (·.languageOverride) with
  | none => s
  | some language => { s with languageOverrides := s.languageOverrides.insert id language }

/-- A restored document leaves the restored tab active that was. -/
def activateRestored (s : EditorDesk) (wasRestore : Bool) : EditorDesk :=
  match s.restoreActive.bind fun path => s.editor.documents.find? (·.path.value = path) with
  | some d =>
    if wasRestore then { s with editor := { s.editor with active := some d.id } } else s
  | none => s

/-- The text that the editor opened is shown, and the coordinator is told of it. -/
def textShown (env : DeskEnv) (s : EditorDesk) (path : PathBuf) (wasRestore truncated : Bool)
    (id : DocumentId) (editor : EditorWorkspace) : DeskUpdate :=
  let surfaceText := ((editor.document id).map (·.buffer.text)).getD []
  let revision := ((editor.document id).map (·.buffer.revision.value)).getD 0
  let s := { s with editor := editor, surfaces := s.surfaces.insert id surfaceText }
  let s := ((s.restoreOverride (env.pathString path) id).activateRestored wasRestore).settleRestore
  let language := (s.language.openDocument env.language id path (s.languageOverrides.get? id)
    revision (if truncated then none else some (String.ofList surfaceText))).1
  ({ s with language := language }, s.loadRecoveryTask env id)

/-- A text was read. -/
def textOpened (env : DeskEnv) (s : EditorDesk) (path : PathBuf) (wasRestore : Bool)
    (disposition : OpenDisposition) (text : String) (diskRevision : DiskRevision)
    (readOnly truncated : Bool) : Option DeskUpdate :=
  match RelativeDocumentPath.new (env.pathString path) with
  | none => some (s.settleRestore, [])
  | some relative =>
    match (EditorWorkspace.openDocument relative text diskRevision readOnly disposition).exec
      s.editor with
    | none => none
    | some (.error _, editor) => some ({ s with editor := editor }.settleRestore, [])
    | some (.ok id, editor) => some (s.textShown env path wasRestore truncated id editor)

/-- The placeholder that the editor opened is shown; the coordinator is not told of it. -/
def placeholderShown (env : DeskEnv) (s : EditorDesk) (path : PathBuf) (id : DocumentId)
    (editor : EditorWorkspace) : DeskUpdate :=
  let s := { s with editor := editor, surfaces := s.surfaces.insert id [] }
  let s := (s.restoreOverride (env.pathString path) id).settleRestore
  (s, s.loadRecoveryTask env id)

/-- A restored tab could not be read: its document is open without a text, and missing. -/
def placeholderOpened (env : DeskEnv) (s : EditorDesk) (path : PathBuf)
    (disposition : OpenDisposition) (baseline : DiskRevision) : Option DeskUpdate :=
  match RelativeDocumentPath.new (env.pathString path) with
  | none => some (s.settleRestore, [])
  | some relative =>
    match (EditorWorkspace.openDocument relative "" baseline false disposition).exec s.editor with
    | none => none
    | some (.error _, editor) => some ({ s with editor := editor }.settleRestore, [])
    | some (.ok id, editor) =>
      let revision := ((editor.document id).map (·.buffer.revision)).getD .initial
      match (EditorWorkspace.observeMissing id revision).exec editor with
      | none => none
      | some (_, editor) => some (s.placeholderShown env path id editor)

/-- `Message::DocumentOpened`. -/
def documentOpened (env : DeskEnv) (s : EditorDesk) (workspaceRoot path : PathBuf)
    (disposition : OpenDisposition) (result : Except DocumentIoError DocumentRead) :
    Option DeskUpdate :=
  if workspaceRoot ≠ s.workspaceRoot then some (s, [])
  else
    let pathString := env.pathString path
    let wasRestore := s.restorePending.contains pathString
    let s := { s with restorePending := s.restorePending.filter (· ≠ pathString) }
    match result with
    | .ok opened =>
      match opened.kind with
      | .text readOnly truncated =>
        match opened.text with
        | none => some (s, [])
        | some text =>
          s.textOpened env path wasRestore disposition text opened.diskRevision readOnly truncated
      | .binary | .invalidUtf8 => some (s.settleRestore, [])
    | .error _ =>
      match (s.restoreTabs.get? pathString).bind (·.diskRevision) with
      | some baseline => s.placeholderOpened env path disposition ⟨baseline⟩
      | none => some (s.settleRestore, [])

/-- `Message::EditorAction`, with `EditorSurfaces::perform`. -/
def editorAction (s : EditorDesk) (id : DocumentId) : SurfaceAction → Option DeskUpdate
  | .view => some (s, [])
  | .edit edit =>
    match s.surfaces.get? id, s.editor.document id, edit.replacement with
    | some text, some d, some replacement =>
      s.operate
        (.edit id d.buffer.revision [replacement] edit.kind edit.cursorBefore edit.cursorAfter)
        fun s =>
          let s :=
            if edit.rebuild then s.rebuild id
            else { s with surfaces := s.surfaces.insert id (replacement.perform text) }
          s.documentChanged id
    | _, _, _ => some (s, [])

/-- The operation, and the surface built anew. -/
def operateAndRebuild (s : EditorDesk) (op : EditorOp) (id : DocumentId)
    (next : EditorDesk → DeskUpdate) : Option DeskUpdate :=
  s.operate op fun s => next (s.rebuild id)

/-- The edit that `EditorSurfaces::insert_completion` makes of the candidate. -/
def completionEdit (s : EditorDesk) (index : Nat) (target : Option (Nat × CharRange)) :
    Option (DocumentId × EditorOp) :=
  match s.language.features.completionDocument, s.language.features.completionItems[index]?,
    target with
  | some (id, revision), some item, some (caret, range) =>
    if (s.surfaces.get? id).isNone then none
    else
      let cursor := range.start + item.insertion.toList.length
      some (id, .edit id ⟨revision⟩ [⟨range, item.insertion⟩] .other caret cursor)
  | _, _, _ => none

/-- `Message::ApplyCompletion`. A cursor that has no position behind the insertion is an error,
after the edit. -/
def applyCompletion (s : EditorDesk) (index : Nat) (target : Option (Nat × CharRange))
    (placed : Bool) : Option DeskUpdate :=
  match s.completionEdit index target with
  | none => some (s, [])
  | some (id, op) =>
    s.operateAndRebuild op id fun s =>
      if placed then { s with language := s.language.clearTransientFeatures }.documentChanged id
      else (s, [])

/-- `Message::ReplaceAll`. -/
def replaceAll (s : EditorDesk) (id : DocumentId) (replacements : Option (List Replacement)) :
    Option DeskUpdate :=
  match s.editor.document id, replacements with
  | some d, some replacements =>
    s.operateAndRebuild (.edit id d.buffer.revision replacements .other 0 0) id
      (·.documentChanged id)
  | _, _ => some (s, [])

/-- `Message::CloseDocument`. -/
def closeDocument (s : EditorDesk) (id : DocumentId) : Option DeskUpdate :=
  match (EditorWorkspace.requestClose id).exec s.editor with
  | none => none
  | some (result, editor) =>
    let s := { s with editor := editor }
    let s := match result with
      | .ok .closed => { s with surfaces := s.surfaces.remove id }
      | .ok .needsDecision => { s with pendingClose := some id }
      | _ => s
    some (s.forgetClosed id, [])

/-- `Message::ResolveDocumentClose`. -/
def resolveDocumentClose (env : DeskEnv) (s : EditorDesk) (id : DocumentId)
    (decision : CloseDecision) : Option DeskUpdate :=
  if decision = .save then some (s, s.saveDocumentTask id .ifUnchanged)
  else
    let cleanup := s.deleteRecoveryTask env id
    match (EditorWorkspace.resolveClose id decision).exec s.editor with
    | none => none
    | some (result, editor) =>
      let s := { s with editor := editor, pendingClose := none }
      let s := match result with
        | .ok .closed => { s with surfaces := s.surfaces.remove id }
        | _ => s
      some (s.forgetClosed id, cleanup)

/-- The document is closed after a save that it waited for. -/
def closeSaved (s : EditorDesk) (id : DocumentId) : Option EditorDesk :=
  if s.pendingClose ≠ some id then some s
  else
    match (EditorWorkspace.resolveClose id .discard).exec s.editor with
    | none => none
    | some (.error _, editor) => some { s with editor := editor, pendingClose := none }
    | some (.ok _, editor) =>
      some { s with editor := editor, pendingClose := none, surfaces := s.surfaces.remove id }

/-- The coordinator forgets a document that is not open any more. -/
def closeLanguage (s : EditorDesk) (id : DocumentId) : EditorDesk :=
  match s.editor.document id with
  | some _ => s
  | none => { s with language := (s.language.closeDocument id).1 }

/-- `Message::DocumentSaved`. -/
def documentSaved (env : DeskEnv) (s : EditorDesk) (workspaceRoot : PathBuf) (id : DocumentId)
    (expectedRevision : Revision) (result : Except DocumentIoError SaveOutcome) :
    Option DeskUpdate :=
  if workspaceRoot ≠ s.workspaceRoot then some (s, [])
  else
    let cleanup := s.deleteRecoveryTask env id
    match result with
    | .error _ => some (s.closeLanguage id, [])
    | .ok saved =>
      match (EditorWorkspace.completeSave id expectedRevision saved.diskRevision).exec s.editor with
      | none => none
      | some (.error _, editor) => some ({ s with editor := editor }.closeLanguage id, [])
      | some (.ok _, editor) =>
        let recent := match editor.document id with
          | some d => s.recentSaveRevisions.insert id d.diskRevision
          | none => s.recentSaveRevisions
        (closeSaved { s with editor := editor, recentSaveRevisions := recent } id).map
          fun (s : EditorDesk) => (s.closeLanguage id, cleanup)

/-- The read is of the revision that the last save left. -/
def isRecentSave (s : EditorDesk) (id : DocumentId) :
    Except DocumentIoError DiskObservation → Bool
  | .ok (.present read) => s.recentSaveRevisions.get? id = some read.diskRevision
  | _ => false

/-- `Message::DocumentDiskObserved`. -/
def documentDiskObserved (s : EditorDesk) (workspaceRoot : PathBuf) (id : DocumentId)
    (expectedRevision : Revision) (result : Except DocumentIoError DiskObservation) :
    Option DeskUpdate :=
  if workspaceRoot ≠ s.workspaceRoot then some (s, [])
  else
    let forgotten := { s with recentSaveRevisions := s.recentSaveRevisions.remove id }
    if s.isRecentSave id result then some (forgotten, [])
    else
      let wasClean := (s.editor.document id).any (·.status = .clean)
      match DiskObservation.operation id expectedRevision result with
      | none => some (forgotten, [])
      | some op =>
        forgotten.operate op fun s => (if wasClean then s.rebuild id else s, [])

/-- `Message::RecoveryDue`. -/
def recoveryDue (env : DeskEnv) (s : EditorDesk) (workspaceRoot : PathBuf) (id : DocumentId)
    (expectedRevision : Revision) (generation : UInt64) : DeskUpdate :=
  if workspaceRoot ≠ s.workspaceRoot ∨ s.recoveryGenerations.get? id ≠ some generation then (s, [])
  else (s, s.saveRecoveryTask env id expectedRevision generation)

/-- `Message::RecoveryLoaded`. -/
def recoveryLoaded (s : EditorDesk) (workspaceRoot : PathBuf) (id : DocumentId)
    (expectedRevision : Revision) (result : Except Unit (Option RecoveryPayload)) :
    Option DeskUpdate :=
  if workspaceRoot ≠ s.workspaceRoot then some (s, [])
  else
    match result with
    | .ok (some payload) =>
      if (s.editor.document id).map (·.buffer.revision) ≠ some expectedRevision then some (s, [])
      else s.operateAndRebuild (.restoreRecovery id payload.text) id fun s => (s, [])
    | _ => some (s, [])

/-- `Message::RecoveryDeleted`. -/
def recoveryDeleted (s : EditorDesk) (workspaceRoot : PathBuf) (id : DocumentId) : EditorDesk :=
  if workspaceRoot ≠ s.workspaceRoot then s
  else { s with recoveryGenerations := s.recoveryGenerations.remove id }

/-- `Message::SetLanguageOverride`. -/
def setLanguageOverride (env : DeskEnv) (s : EditorDesk) (id : DocumentId)
    (language : Option String) : EditorDesk :=
  let s := { s with language := (s.language.setOverride env.language id language).1 }
  if (s.editor.document id).isNone then s
  else
    { s with
      languageOverrides := match language with
        | some language => s.languageOverrides.insert id language
        | none => s.languageOverrides.remove id }

def update (env : DeskEnv) (s : EditorDesk) : EditorMessage → Option DeskUpdate
  | .workspaceOpened root workspaceId restored tabs active =>
    some (start root workspaceId restored tabs active s.editor.nextDocumentId, [])
  | .documentOpened workspaceRoot path disposition result =>
    s.documentOpened env workspaceRoot path disposition result
  | .editorAction id action => s.editorAction id action
  | .selectDocument id => s.operate (.select id) fun s => (s, [])
  | .pinDocument id => s.operate (.pinDocument id) fun s => (s, [])
  | .undoDocument id => s.operateAndRebuild (.undo id) id (·.documentChanged id)
  | .redoDocument id => s.operateAndRebuild (.redo id) id (·.documentChanged id)
  | .applyCompletion index target placed => s.applyCompletion index target placed
  | .replaceAll id replacements => s.replaceAll id replacements
  | .closeDocument id => s.closeDocument id
  | .resolveDocumentClose id decision => s.resolveDocumentClose env id decision
  | .saveDocument id mode => some (s, s.saveDocumentTask id mode)
  | .documentSaved workspaceRoot id expectedRevision result =>
    s.documentSaved env workspaceRoot id expectedRevision result
  | .documentDiskObserved workspaceRoot id expectedRevision result =>
    s.documentDiskObserved workspaceRoot id expectedRevision result
  | .reloadDocumentFromDisk id => s.operateAndRebuild (.reloadFromDisk id) id fun s => (s, [])
  | .keepEditingDocument id => s.operate (.keepEditing id) fun s => (s, [])
  | .recoveryDue workspaceRoot id expectedRevision generation =>
    some (s.recoveryDue env workspaceRoot id expectedRevision generation)
  | .recoverySaved _ _ _ => some (s, [])
  | .recoveryLoaded workspaceRoot id expectedRevision result =>
    s.recoveryLoaded workspaceRoot id expectedRevision result
  | .recoveryDeleted workspaceRoot id => some (s.recoveryDeleted workspaceRoot id, [])
  | .setLanguageOverride id language => some (s.setLanguageOverride env id language, [])
  | .language op =>
    if op.isForeign then some ({ s with language := (op.run env.language s.language).1 }, [])
    else none

def step (env : DeskEnv) (s : EditorDesk) (m : EditorMessage) : Option EditorDesk :=
  (s.update env m).map (·.1)

end EditorDesk
end Strukt.App
