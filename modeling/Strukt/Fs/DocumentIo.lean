import Strukt.Editor.Document
import Strukt.Prim

/-!
# Reading and saving documents

`readDocument` classifies a file, and `saveDocument` replaces a file where it still has the revision
that the request expects. A file is its bytes; its revision is a digest of them, which is a
parameter here. A read is of one moment, and a save replaces the file in one moment.
-/

namespace Strukt.Fs

/-- What a directory has under a name. -/
inductive DiskEntry where
  | file (contents : ByteArray)
  | symlink
  /-- A directory, or another file that is not regular. -/
  | other
  deriving DecidableEq

structure ReadOptions where
  maxEditableBytes : Nat
  previewBytes : Nat
  forceFull : Bool
  deriving DecidableEq

def ReadOptions.standard : ReadOptions where
  maxEditableBytes := 4 * 1024 * 1024
  previewBytes := 1024 * 1024
  forceFull := false

def binarySniffBytes : Nat := 8 * 1024

inductive DocumentKind where
  | text (readOnly truncated : Bool)
  | binary
  | invalidUtf8
  deriving DecidableEq

structure DocumentRead where
  kind : DocumentKind
  text : Option String
  size : Nat
  diskRevision : DiskRevision
  deriving DecidableEq

inductive SaveMode where
  | ifUnchanged
  | force
  deriving DecidableEq

structure SaveRequest where
  path : RelativeDocumentPath
  contents : ByteArray
  expectedRevision : DiskRevision
  mode : SaveMode
  deriving DecidableEq

structure SaveOutcome where
  diskRevision : DiskRevision
  bytesWritten : Nat
  deriving DecidableEq

inductive DocumentIoError where
  | symlink (path : RelativeDocumentPath)
  | notRegularFile (path : RelativeDocumentPath)
  | saveConflict (expected actual : DiskRevision)
  | notFound
  /-- Any other failure of the file system, or a workspace that is elsewhere now. -/
  | failed
  deriving DecidableEq

/-- `open_regular` and what it reads. -/
def openRegular (path : RelativeDocumentPath) :
    Option DiskEntry → Except DocumentIoError ByteArray
  | some (.file contents) => .ok contents
  | some .symlink => .error (.symlink path)
  | some .other => .error (.notRegularFile path)
  | none => .error .notFound

def isBinary (contents : ByteArray) : Bool := (contents.data.toList.take binarySniffBytes).contains 0

section Files

variable (revision : ByteArray → DiskRevision)

/-- The classification of the bytes of a regular file. -/
def classify (options : ReadOptions) (contents : ByteArray) : DocumentRead :=
  let read (kind : DocumentKind) (text : Option String) : DocumentRead :=
    ⟨kind, text, contents.size, revision contents⟩
  if isBinary contents then read .binary none
  else
    match String.fromUTF8? contents with
    | none => read .invalidUtf8 none
    | some text =>
      let oversized := options.maxEditableBytes < contents.size ∧ options.forceFull = false
      read (.text oversized oversized)
        (some (if oversized then bounded text options.previewBytes else text))

def readDocument (path : RelativeDocumentPath) (options : ReadOptions) (entry : Option DiskEntry) :
    Except DocumentIoError DocumentRead := do
  let contents ← openRegular path entry
  return classify revision options contents

def ensureExpected (request : SaveRequest) (actual : DiskRevision) :
    Except DocumentIoError Unit :=
  if request.mode = .ifUnchanged ∧ request.expectedRevision ≠ actual then
    .error (.saveConflict request.expectedRevision actual)
  else .ok ()

/-- The outcome, and what is on disk after it. -/
def saveDocument (request : SaveRequest) (entry : Option DiskEntry) :
    Except DocumentIoError (SaveOutcome × DiskEntry) := do
  let current ← openRegular request.path entry
  ensureExpected request (revision current)
  return (⟨revision request.contents, request.contents.size⟩, .file request.contents)

end Files

/-- A revision that is the bytes themselves. -/
def bytesRevision (contents : ByteArray) : DiskRevision :=
  ⟨String.ofList (contents.data.toList.map Char.ofUInt8)⟩

theorem bytesRevision_injective : Function.Injective bytesRevision := by
  intro a b h
  have hlist := String.ofList_injective (DiskRevision.mk.inj h)
  have hchar : Function.Injective Char.ofUInt8 := fun x y hxy => by
    have hval : x.toUInt32 = y.toUInt32 := congrArg Char.val hxy
    exact UInt8.toUInt32_inj.mp hval
  exact ByteArray.ext (Array.toList_inj.mp (hchar.list_map hlist))

end Strukt.Fs
