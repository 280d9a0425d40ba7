import Strukt.Editor.Buffer

/-!
# Edit history

A `History` holds the edits to undo, the oldest first, and the edits to redo, the next one last. An
entry keeps an edit and its inverse. `record` merges an insertion that was typed behind another one
into its entry (`coalesceTyping`); `enforceBudget` drops the oldest entries. The transactions that
`undo` and `redo` give are made for the buffer's current revision.

Counts of bytes are natural numbers: their sums do not come near the largest machine word.
-/

namespace Strukt

open Method

inductive EditKind where
  | typing
  | other
  deriving DecidableEq

structure HistoryBudget where
  maxEntries : Nat
  maxBytes : Nat
  deriving DecidableEq

/-- `HistoryBudget::default`. -/
def HistoryBudget.standard : HistoryBudget := ⟨10000, 64 * 1024 * 1024⟩

structure HistoryEntry where
  forward : EditTransaction
  inverse : EditTransaction
  kind : EditKind
  cursorBefore : Nat
  cursorAfter : Nat
  byteCost : Nat
  deriving DecidableEq

def HistoryEntry.fromApplied (forward : EditTransaction) (applied : AppliedTransaction)
    (kind : EditKind) (cursorBefore cursorAfter : Nat) : HistoryEntry where
  forward := forward
  inverse := applied.inverse
  kind := kind
  cursorBefore := cursorBefore
  cursorAfter := cursorAfter
  byteCost := applied.insertedBytes + applied.removedBytes

inductive HistoryError where
  | nothingToUndo
  | nothingToRedo
  deriving DecidableEq

structure History where
  budget : HistoryBudget
  undoEntries : List HistoryEntry
  redoEntries : List HistoryEntry
  retainedBytes : Nat
  deriving DecidableEq

abbrev HistoryM (α : Type) := Method History HistoryError α

/-- The previous entry with the next one merged into it, where both are typed insertions and the
next one continues the previous one. -/
def coalesceTyping (previous next : HistoryEntry) : Option HistoryEntry :=
  if previous.kind ≠ .typing ∨ next.kind ≠ .typing ∨ previous.cursorAfter ≠ next.cursorBefore then
    none
  else
    match previous.forward.replacements, next.forward.replacements, previous.inverse.replacements,
      next.inverse.replacements with
    | [previousForward], [nextForward], [previousInverse], [nextInverse] =>
      if previousForward.range.start ≠ previousForward.range.stop ∨
          nextForward.range.start ≠ nextForward.range.stop ∨
          previousForward.range.start + previousForward.text.toList.length ≠
            nextForward.range.start ∨
          previousInverse.text ≠ "" ∨ nextInverse.text ≠ "" then none
      else
        some { previous with
          forward := { previous.forward with
            replacements :=
              [{ previousForward with text := previousForward.text ++ nextForward.text }] }
          inverse :=
            ⟨next.inverse.expectedRevision,
              [⟨⟨previousInverse.range.start, nextInverse.range.stop⟩, previousInverse.text⟩]⟩
          cursorAfter := next.cursorAfter
          byteCost := previous.byteCost + next.byteCost }
    | _, _, _, _ => none

def retarget (transaction : EditTransaction) (revision : Revision) : EditTransaction :=
  ⟨revision, transaction.replacements⟩

namespace History

def new (budget : HistoryBudget) : History := ⟨budget, [], [], 0⟩

/-- `History::default`. -/
def standard : History := new .standard

/-- The loop of `enforce_budget`: the entries and bytes that are left. -/
def dropOldest (budget : HistoryBudget) : List HistoryEntry → Nat → List HistoryEntry × Nat
  | [], retainedBytes => ([], retainedBytes)
  | entry :: rest, retainedBytes =>
    if (entry :: rest).length > budget.maxEntries ∨ retainedBytes > budget.maxBytes then
      dropOldest budget rest (retainedBytes - entry.byteCost)
    else (entry :: rest, retainedBytes)

def enforceBudget (h : History) : History :=
  let (undoEntries, retainedBytes) := dropOldest h.budget h.undoEntries h.retainedBytes
  { h with undoEntries := undoEntries, retainedBytes := retainedBytes }

def record (h : History) (entry : HistoryEntry) : History :=
  let undoEntries :=
    match h.undoEntries.getLast?.bind fun previous => coalesceTyping previous entry with
    | some merged => h.undoEntries.dropLast ++ [merged]
    | none => h.undoEntries ++ [entry]
  enforceBudget
    { h with
      undoEntries := undoEntries
      redoEntries := []
      retainedBytes := h.retainedBytes + entry.byteCost }

def undo (currentRevision : Revision) : HistoryM EditTransaction := do
  let h ← get
  let entry ← okOr .nothingToUndo h.undoEntries.getLast?
  set { h with
    undoEntries := h.undoEntries.dropLast
    redoEntries := h.redoEntries ++ [entry]
    retainedBytes := h.retainedBytes - entry.byteCost }
  return retarget entry.inverse currentRevision

def redo (currentRevision : Revision) : HistoryM EditTransaction := do
  let h ← get
  let entry ← okOr .nothingToRedo h.redoEntries.getLast?
  set (enforceBudget
    { h with
      undoEntries := h.undoEntries ++ [entry]
      redoEntries := h.redoEntries.dropLast
      retainedBytes := h.retainedBytes + entry.byteCost })
  return retarget entry.forward currentRevision

end History
end Strukt
