import Strukt.Fs.WorkspaceTree

/-!
# Duplicating an entry of a workspace

`duplicate` plans the copy of a file or a directory, replays the plan in a staging directory beside
the destination, renames the copy to the destination, and sets the permissions of the directory
that was published. Each step may fail, but what was staged is removed.

* **Steps** (`Operating`): the tree, and which of the next steps fail.
* **Stages**: the plan of the copy (`preflightCopy`), its replay (`executeCopyPlan`), and the
  publication (`duplicate`).
-/

namespace Strukt.Fs

open Strukt.Language (OsStr)

inductive OperationError where
  | outsideRoot (path : List Component)
  | symlinkCopy (path : List OsStr)
  | workspaceChanged
  | invalidInput (message : String)
  | io (kind : StepError)
  /-- The text of an error after the publication. -/
  | published (error : OperationError)
  deriving DecidableEq

/-- `fails` says of the next steps how they fail; the steps after these do not. -/
structure Workspace where
  tree : WorkspaceTree
  fails : List (Option StepError)
  nextStagingId : Nat

abbrev Operating (α : Type) := Method Workspace OperationError α

inductive CopyKind where
  | directory
  | file
  deriving DecidableEq

structure CopyEntry where
  source : List OsStr
  relative : List OsStr
  kind : CopyKind
  permissions : Permissions
  deriving DecidableEq

def WorkspaceItem.permissions : WorkspaceItem → Permissions
  | .directory permissions | .file _ permissions => permissions
  | .link _ | .special => ⟨0⟩

def WorkspaceItem.withPermissions (permissions : Permissions) : WorkspaceItem → WorkspaceItem
  | .directory _ => .directory permissions
  | .file contents _ => .file contents permissions
  | .link target => .link target
  | .special => .special

/-- What a duplicate copies. -/
def WorkspaceItem.Copyable : WorkspaceItem → Prop
  | .directory _ | .file _ _ => True
  | .link _ | .special => False

namespace Operating

open Method

/-! ## Steps -/

/-- A step that may fail. -/
def io : Operating Unit := do
  let w ← get
  set { w with fails := w.fails.tail }
  match w.fails with
  | some kind :: _ => throw (.io kind)
  | _ => return

def createAt (place : List OsStr) (item : WorkspaceItem) : Operating Unit := do
  io
  let w ← get
  if (w.tree.lookup place).isSome then throw (.io .alreadyExists)
  if h : w.tree.Admits place then set { w with tree := w.tree.create place item h }
  else throw (.io .other)

/-- What is at the place changes, and is a directory or not as before. -/
def replaceAt (place : List OsStr) (item : WorkspaceItem) : Operating Unit := do
  let w ← get
  if h : w.tree.Replaces place item then set { w with tree := w.tree.replace place item h }
  else throw (.io .other)

def setPermissions (place : List OsStr) (permissions : Permissions) : Operating Unit := do
  io
  match (← get).tree.lookup place with
  | some (.directory _) => replaceAt place (.directory permissions)
  | some (.file contents _) => replaceAt place (.file contents permissions)
  | _ => throw (.io .other)

/-- `remove_dir_all`, which does not fail here. -/
def removeDirAll (place : List OsStr) : Operating Unit :=
  modify fun w => if h : place ≠ [] then { w with tree := w.tree.remove place h } else w

def atomicRenameNoreplace (source destination : List OsStr) : Operating Unit := do
  io
  let w ← get
  if (w.tree.lookup destination).isSome then throw (.io .alreadyExists)
  if h : w.tree.Moves source destination then
    set { w with tree := w.tree.move source destination h }
  else throw (.io .other)

section

variable (expansions : Nat)

def symlinkMetadata (path : List OsStr) : Operating WorkspaceItem := do
  io
  let t := (← get).tree
  okOr (.io .other) ((t.locate expansions path).bind t.lookup)

def checkedCopyMetadata (source : List OsStr) : Operating WorkspaceItem := do
  let metadata ← symlinkMetadata expansions source
  match metadata with
  | .link _ => throw (.symlinkCopy source)
  | .special =>
    throw (.invalidInput "duplicate source must contain only regular files and directories")
  | .directory _ | .file _ _ => return metadata

def canonicalize (path : List OsStr) : Operating (List OsStr) := do
  io
  okOr (.io .other) ((← get).tree.resolve expansions path)

/-- `open_destination_parent`, and `open_dir`. -/
def openDir (path : List OsStr) : Operating (List OsStr) := do
  io
  let t := (← get).tree
  let place ← okOr (.io .other) (t.resolve expansions path)
  ensure (t.isBranch place = true) (.io .other)
  return place

def destinationParts (destination : List OsStr) :
    Except OperationError (List OsStr × OsStr) :=
  match destination.getLast? with
  | some name => .ok (destination.dropLast, name)
  | none => .error (.outsideRoot (destination.map .normal))

/-- The loop over the ancestors, with one more step for the metadata of each. -/
def destinationAncestorMatches (source : List OsStr) : List (List OsStr) → Operating Bool
  | [] => return false
  | path :: ancestors => do
    let place ← openDir expansions path
    io
    if source = place then return true
    destinationAncestorMatches source ancestors

def destinationAncestorMatchesSource (canonicalSource canonicalParent : List OsStr) :
    Operating Bool := do
  let source ← openDir expansions canonicalSource
  io
  destinationAncestorMatches expansions source canonicalParent.inits.reverse

def rejectResolvedDescendant (source destination : List OsStr) (sourceIsDirectory : Bool) :
    Operating Unit := do
  if sourceIsDirectory = false then return
  let canonicalSource ← canonicalize expansions source
  let (destinationParent, destinationName) ← ofExcept (destinationParts destination)
  let canonicalParent ← canonicalize expansions destinationParent
  let canonicalDestination := canonicalParent ++ [destinationName]
  if canonicalSource <+: canonicalDestination then
    throw (.invalidInput "cannot duplicate a directory into itself or its descendant")
  if ← destinationAncestorMatchesSource expansions canonicalSource canonicalParent then
    throw (.invalidInput "cannot duplicate a directory into itself or its descendant")

/-! ## The plan -/

/-- The names in a directory, in their order. -/
def readDir (path : List OsStr) : Operating (List OsStr) := do
  let place ← openDir expansions path
  io
  return ((← get).tree.children place).insertionSort (· ≤ ·)

/-- The loop over what is pending, whose top stands first, for as many rounds as are given. -/
def preflightLoop : Nat → List CopyEntry → List (List OsStr × List OsStr) →
    Operating (List CopyEntry)
  | _, plan, [] => return plan
  | 0, _, _ :: _ => orPanic none
  | rounds + 1, plan, (path, relative) :: pending => do
    let metadata ← checkedCopyMetadata expansions path
    if metadata.isDir then
      let entry := ⟨path, relative, .directory, metadata.permissions⟩
      let children ← readDir expansions path
      preflightLoop rounds (plan ++ [entry])
        (children.map (fun name => (path ++ [name], relative ++ [name])) ++ pending)
    else
      preflightLoop rounds (plan ++ [⟨path, relative, .file, metadata.permissions⟩]) pending

/-- No entry is planned twice, so there are no more rounds than entries. -/
def preflightCopy (source : List OsStr) : Operating (List CopyEntry) := do
  let t := (← get).tree
  preflightLoop expansions (t.paths.length + 1) [] [(source, [])]

/-! ## The replay -/

/-- What new directories and files have until their permissions are set. -/
def newDirectory : WorkspaceItem := .directory ⟨0o777⟩

def newFile (contents : List UInt8) : WorkspaceItem := .file contents ⟨0o666⟩

def restrictive : Permissions := ⟨0o700⟩

def openRegularSource (source : List OsStr) : Operating (List UInt8) := do
  io
  let t := (← get).tree
  let opened ← okOr (.io .other) ((t.locate expansions source).bind t.lookup)
  io
  match opened with
  | .file contents _ =>
    let _ ← checkedCopyMetadata expansions source
    return contents
  | _ => throw (.invalidInput "duplicate source changed to a non-regular file")

/-- The body of the loop over the plan, with a step after the copy of a file. -/
def copyEntry (destination : List OsStr) (entry : CopyEntry) : Operating Unit := do
  let target := destination ++ entry.relative
  match entry.kind with
  | .directory => createAt target newDirectory
  | .file => do
    let contents ← openRegularSource expansions entry.source
    createAt target (newFile [])
    io
    replaceAt target (newFile contents)
    setPermissions target entry.permissions
    io

def copyEntries (destination : List OsStr) : List CopyEntry → Operating Unit
  | [] => return
  | entry :: plan => do
    copyEntry expansions destination entry
    copyEntries destination plan

/-- The loop over the plan from its end. -/
def finishDirectories (destination : List OsStr) : List CopyEntry → Operating Unit
  | [] => return
  | entry :: plan => do
    if entry.kind = .directory ∧ entry.relative ≠ [] then
      setPermissions (destination ++ entry.relative) entry.permissions
    finishDirectories destination plan

def setRestrictiveStagingRoot (destination : List OsStr) (plan : List CopyEntry) :
    Operating Unit := do
  if plan.head?.map (·.kind) = some .directory then setPermissions destination restrictive

def executeCopyPlan (destination : List OsStr) (plan : List CopyEntry) : Operating Unit := do
  if plan = [] then throw (.invalidInput "duplicate source produced an empty copy plan")
  copyEntries expansions destination plan
  finishDirectories destination plan.reverse
  setRestrictiveStagingRoot destination plan

end

/-! ## The duplicate -/

def stagingAttempts : Nat := 32

def stagingPayload : OsStr := "payload".toUTF8.data.toList

def stagingName (processId id : Nat) : OsStr :=
  s!".strukt-duplicate-stage-{processId}-{id}".toUTF8.data.toList

/-- The loop of `create_staging` over the attempts that are left. -/
def createStaging (processId : Nat) (parent : List OsStr) : Nat → Operating (List OsStr)
  | 0 => throw (.io .alreadyExists)
  | attempts + 1 => do
    let id := (← get).nextStagingId
    modify fun w => { w with nextStagingId := id + 1 }
    let staging := parent ++ [stagingName processId id]
    match ← attempt (createAt staging newDirectory) with
    | .error (.io .alreadyExists) => createStaging processId parent attempts
    | .error error => throw error
    | .ok () =>
      let opened : Operating Unit := do
        setPermissions staging restrictive
        io
      match ← attempt opened with
      | .ok () => return staging
      | .error error =>
        removeDirAll staging
        throw error

def topDirectoryPermissions (plan : List CopyEntry) : Option Permissions :=
  plan.head?.bind fun entry =>
    if entry.kind = .directory then some entry.permissions else none

/-- What follows the plan, up to the publication. -/
def publishCopy (expansions : Nat) (staging destination : List OsStr) (plan : List CopyEntry) :
    Operating Unit := do
  executeCopyPlan expansions (staging ++ [stagingPayload]) plan
  atomicRenameNoreplace (staging ++ [stagingPayload]) destination

def duplicate (expansions processId : Nat) (source destination : List OsStr) :
    Operating Unit := do
  let sourceMetadata ← checkedCopyMetadata expansions source
  rejectResolvedDescendant expansions source destination sourceMetadata.isDir
  let plan ← preflightCopy expansions source
  let (destinationParent, destinationName) ← ofExcept (destinationParts destination)
  let parent ← openDir expansions destinationParent
  let staging ← createStaging processId parent stagingAttempts
  let published := parent ++ [destinationName]
  match ← attempt (publishCopy expansions staging published plan) with
  | .error error =>
    removeDirAll staging
    throw error
  | .ok () =>
    match topDirectoryPermissions plan with
    | none => removeDirAll staging
    | some permissions =>
      match ← attempt (setPermissions published permissions) with
      | .ok () => removeDirAll staging
      | .error error =>
        removeDirAll staging
        throw (.published error)

/-! ## The operation -/

def scopedPath (relative : List Component) : Except OperationError (List OsStr) := do
  let names ← relative.filterMapM fun component =>
    match component with
    | .normal name => .ok (some name)
    | .curDir => .ok none
    | .parentDir | .rootDir => .error (.outsideRoot relative)
  if names = [] then
    .error (.invalidInput "operation target must name an entry inside the workspace")
  else .ok names

/-- `apply_operation`, of a duplicate. -/
def applyDuplicate (expansions processId : Nat) (source destination : List Component) :
    Operating Unit := do
  match ← attempt (do io; io) with
  | .error _ => throw .workspaceChanged
  | .ok () =>
    let source ← ofExcept (scopedPath source)
    let destination ← ofExcept (scopedPath destination)
    duplicate expansions processId source destination

end Operating

end Strukt.Fs
