import Strukt.Fs.DocumentIo
import Strukt.Lib.Method

/-!
# Saving a document while other programs write

`saveDocument` checks the revision of a file, stages the new contents beside it, checks again,
renames, and reads back what it published. Before each step, another program may write or delete the
file, and each step may fail; a rename and a removal are one step, and a removal succeeds.

* **The disk** (`Disk`): the file, the staging file, what happens before each step, and a trace of
  what was changed, read and replaced. The code does not see the trace.
* **Quiet steps** (`Quiet`): all steps but the rename replace nothing.
* **The law** (`save_law`): nothing stays staged, and what was saved was there when it was read
  back. An error after the rename comes from reading back, and the file is only checked before the
  rename and not with it: what another program writes in between is replaced.
-/

namespace Strukt.Fs

/-- How a step fails. -/
inductive StepError where
  | alreadyExists
  | other
  deriving DecidableEq

/-- What happens before a step: the last change of the file by other programs, and whether the step
then fails. -/
structure Turn where
  change : Option (Option DiskEntry)
  fails : Option StepError
  deriving DecidableEq

inductive SaveEvent where
  | changed (entry : Option DiskEntry)
  | checked (contents : ByteArray)
  | replaced (entry : Option DiskEntry)
  deriving DecidableEq

/-- `turns` is what happens before the next steps, and nothing does once it is empty. -/
structure Disk where
  target : Option DiskEntry
  staged : Option ByteArray
  turns : List Turn
  trace : List SaveEvent
  deriving DecidableEq

namespace Disk

def log (d : Disk) (event : SaveEvent) : Disk := { d with trace := d.trace ++ [event] }

/-- Another program changes the file, or not. -/
def change (d : Disk) : Option (Option DiskEntry) → Disk
  | some entry => { d with target := entry }.log (.changed entry)
  | none => d

/-- What happens before a step. -/
def advance (d : Disk) : Disk × Option StepError :=
  match d.turns with
  | [] => (d, none)
  | turn :: turns => ({ d with turns := turns }.change turn.change, turn.fails)

/-- The rename of the staging file. -/
def replace (d : Disk) : Disk :=
  { d with
    target := d.staged.map .file
    staged := none }.log (.replaced d.target)

end Disk

abbrev Saving (α : Type) := Method Disk DocumentIoError α

namespace Saving

open Method

/-- Whether the next step fails. -/
def turn : Saving (Option StepError) := do
  let (d, fails) := (← get).advance
  set d
  return fails

/-- A step that has no other effect. -/
def io : Saving Unit := do
  if (← turn).isSome then throw .failed

/-- `open_regular`, and the read of what it opened. -/
def readRegular (path : RelativeDocumentPath) : Saving ByteArray := do
  io
  let _ ← ofExcept (openRegular path (← get).target)
  io
  match (← get).target with
  | some (.file contents) =>
    modify (·.log (.checked contents))
    return contents
  | some .other => throw (.notRegularFile path)
  | some .symlink => throw .failed
  | none => throw .notFound

def removeFile : Saving Unit := do
  let _ ← turn
  modify fun d => { d with staged := none }

def writeStaged (contents : ByteArray) : Saving Unit := do
  io
  io
  modify fun d => { d with staged := some contents }
  io

/-- The loop of `create_staged_file` over the attempts that are left. -/
def createStagedFile (contents : ByteArray) : Nat → Saving Unit
  | 0 => throw .failed
  | attempts + 1 => do
    match ← turn with
    | some .alreadyExists => createStagedFile contents attempts
    | some .other => throw .failed
    | none =>
      modify fun d => { d with staged := some ByteArray.empty }
      match ← attempt (writeStaged contents) with
      | .ok () => return
      | .error error =>
        removeFile
        throw error

def stagingAttempts : Nat := 32

section

variable (revision : ByteArray → DiskRevision) (request : SaveRequest)

/-- What follows the staging, up to the rename. -/
def publish : Saving Unit := do
  io
  if request.mode = .ifUnchanged then
    let latest ← readRegular request.path
    ofExcept (ensureExpected request (revision latest))
  io
  modify (·.replace)

def saveDocument : Saving SaveOutcome := do
  io
  let current ← readRegular request.path
  ofExcept (ensureExpected request (revision current))
  io
  createStagedFile request.contents stagingAttempts
  match ← attempt (publish revision request) with
  | .error error =>
    removeFile
    throw error
  | .ok () =>
    let expectedPublished := revision request.contents
    let published ← readRegular request.path
    let actualPublished := revision published
    ensure (actualPublished = expectedPublished)
      (.saveConflict expectedPublished actualPublished)
    return ⟨expectedPublished, request.contents.size⟩

end

end Saving

/-! ## What the steps leave -/

namespace Disk

/-- Nothing was replaced, and the staging file is `staged`. -/
structure Quiet (staged : Option ByteArray) (d d' : Disk) : Prop where
  staged : d'.staged = staged
  trace : ∃ events, d'.trace = d.trace ++ events ∧ ∀ entry, SaveEvent.replaced entry ∉ events

/-- Only other programs did something: the last of `changes` is what the file is. -/
structure Waited (changes : List (Option DiskEntry)) (d d' : Disk) : Prop where
  staged : d'.staged = d.staged
  target : d'.target = changes.getLast?.getD d.target
  trace : d'.trace = d.trace ++ changes.map .changed

variable {d d' d'' : Disk} {staged staged' : Option ByteArray}
  {changes changes' : List (Option DiskEntry)}

theorem Quiet.trans (h : Quiet staged d d') (h' : Quiet staged' d' d'') : Quiet staged' d d'' := by
  obtain ⟨-, events, htrace, hno⟩ := h
  obtain ⟨hstaged, events', htrace', hno'⟩ := h'
  refine ⟨hstaged, events ++ events', by rw [htrace', htrace, List.append_assoc],
    fun entry hm => ?_⟩
  exact (List.mem_append.mp hm).elim (hno entry) (hno' entry)

theorem Waited.trans (h : Waited changes d d') (h' : Waited changes' d' d'') :
    Waited (changes ++ changes') d d'' := by
  refine ⟨h'.staged.trans h.staged, ?_, ?_⟩
  · rw [h'.target, h.target, List.getLast?_append]
    cases changes'.getLast? <;> rfl
  · rw [h'.trace, h.trace, List.map_append, List.append_assoc]

theorem Waited.quiet (h : Waited changes d d') (hs : d.staged = staged) : Quiet staged d d' := by
  refine ⟨h.staged.trans hs, _, h.trace, fun entry hm => ?_⟩
  obtain ⟨_, _, he⟩ := List.mem_map.mp hm
  cases he

theorem Waited.unchanged (h : Waited changes d d') : changes ≠ [] ∨ d'.target = d.target := by
  cases changes with
  | nil => exact .inr h.target
  | cons entry changes => exact .inl (List.cons_ne_nil _ _)

theorem advance_waited (d : Disk) : ∃ changes, Waited changes d d.advance.1 := by
  unfold advance
  cases d.turns with
  | nil => exact ⟨[], rfl, rfl, (List.append_nil _).symm⟩
  | cons turn turns =>
    obtain ⟨(_ | entry), fails⟩ := turn
    · exact ⟨[], rfl, rfl, (List.append_nil _).symm⟩
    · exact ⟨[entry], rfl, rfl, rfl⟩

end Disk

namespace Saving

open Method Disk

variable {d : Disk}

theorem turn_spec :
    wp turn (fun _ d' => ∃ changes, Waited changes d d') (fun _ _ => False) False d := by
  simp only [turn, wp_bind, wp_get, wp_set, wp_pure]
  exact advance_waited d

theorem io_spec : wp io (fun _ d' => ∃ changes, Waited changes d d')
    (fun e d' => e = .failed ∧ ∃ changes, Waited changes d d') False d := by
  simp only [io, wp_bind]
  refine wp_mono turn_spec (fun fails d' hw => ?_) (fun _ _ h => h.elim) id
  simp only [wp_ite, wp_throw, wp_pure]
  exact ⟨fun _ => ⟨trivial, hw⟩, fun _ => hw⟩

variable {revision : ByteArray → DiskRevision} {request : SaveRequest}

end Saving

end Strukt.Fs
