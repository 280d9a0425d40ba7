import Strukt.Lib.Method

/-!
# Text buffers

A `TextBuffer` is a text with a revision. `apply` makes an `EditTransaction`: it checks the revision
that the transaction expects and its ranges, works out the inverse replacements against the text as
it is, then replaces range by range, the last one first. The rope that holds the text is a sequence
of characters, with the panics of its operations.

`EditTransaction.new` sorts replacements and refuses those that overlap. `apply` counts on that: it
does not look for overlaps.
-/

namespace Strukt

open Method

structure CharRange where
  start : Nat
  stop : Nat
  deriving DecidableEq

structure Revision where
  value : UInt64
  deriving DecidableEq

inductive TransactionError where
  | invalidRange (start stop : Nat)
  | overlappingRanges
  | rangeOutOfBounds (stop charLen : Nat)
  | staleRevision (expected actual : Revision)
  | revisionExhausted
  deriving DecidableEq

def CharRange.new (start stop : Nat) : Except TransactionError CharRange :=
  if start > stop then .error (.invalidRange start stop) else .ok ⟨start, stop⟩

namespace Revision

def initial : Revision := ⟨0⟩

def next (r : Revision) : Except TransactionError Revision :=
  if r.value = -1 then .error .revisionExhausted else .ok ⟨r.value + 1⟩

end Revision

structure Replacement where
  range : CharRange
  text : String
  deriving DecidableEq

structure EditTransaction where
  expectedRevision : Revision
  replacements : List Replacement
  deriving DecidableEq

/-- The order in which a transaction keeps its replacements: by start, then by end. -/
def Replacement.Le (a b : Replacement) : Prop :=
  a.range.start < b.range.start ∨ (a.range.start = b.range.start ∧ a.range.stop ≤ b.range.stop)

instance : DecidableRel Replacement.Le := fun _ _ => inferInstanceAs (Decidable (_ ∨ _))

namespace EditTransaction

/-- Some replacement starts before the one before it ends. -/
def overlaps : List Replacement → Bool
  | a :: b :: rest => b.range.start < a.range.stop || overlaps (b :: rest)
  | _ => false

def new (expectedRevision : Revision) (replacements : List Replacement) :
    Except TransactionError EditTransaction :=
  let replacements := replacements.insertionSort Replacement.Le
  if overlaps replacements then .error .overlappingRanges
  else .ok ⟨expectedRevision, replacements⟩

def insert (expectedRevision : Revision) (position : Nat) (text : String) : EditTransaction :=
  ⟨expectedRevision, [⟨⟨position, position⟩, text⟩]⟩

end EditTransaction

structure AppliedTransaction where
  revision : Revision
  inverse : EditTransaction
  insertedBytes : Nat
  removedBytes : Nat
  deriving DecidableEq

abbrev Rope := List Char

namespace Rope

def slice (text : Rope) (r : CharRange) : Option Rope :=
  if r.start ≤ r.stop ∧ r.stop ≤ text.length then some ((text.drop r.start).take (r.stop - r.start))
  else none

def remove (text : Rope) (r : CharRange) : Option Rope :=
  if r.start ≤ r.stop ∧ r.stop ≤ text.length then some (text.take r.start ++ text.drop r.stop)
  else none

def insert (text : Rope) (position : Nat) (s : String) : Option Rope :=
  if position ≤ text.length then some (text.take position ++ s.toList ++ text.drop position)
  else none

end Rope

inductive LineEnding where
  | none
  | lf
  | crLf
  | mixed
  deriving DecidableEq

def countCrlf : Rope → Nat
  | '\r' :: '\n' :: rest => countCrlf rest + 1
  | _ :: rest => countCrlf rest
  | [] => 0

def detectLineEnding (text : Rope) : LineEnding :=
  let crlf := countCrlf text
  let lf := text.count '\n' - crlf
  if crlf = 0 ∧ lf = 0 then .none
  else if crlf = 0 then .lf
  else if lf = 0 then .crLf
  else .mixed

structure TextBuffer where
  text : Rope
  revision : Revision
  lineEnding : LineEnding
  deriving DecidableEq

abbrev BufferM (α : Type) := Method TextBuffer TransactionError α

namespace TextBuffer

def new (text : String) : TextBuffer := ⟨text.toList, .initial, detectLineEnding text.toList⟩

/-- The inverse replacements, and the bytes that are inserted and removed. `charDelta` is how far
the new text is ahead of the old one. -/
def invert (text : Rope) : Int → List Replacement → Option (List Replacement × Nat × Nat)
  | _, [] => some ([], 0, 0)
  | charDelta, replacement :: rest => do
    let removed ← text.slice replacement.range
    let insertedChars := replacement.text.toList.length
    let finalStart := (replacement.range.start + charDelta).toNat
    let (inverse, insertedBytes, removedBytes) ← invert text
      (charDelta + insertedChars - (replacement.range.stop - replacement.range.start : Nat)) rest
    return (⟨⟨finalStart, finalStart + insertedChars⟩, String.ofList removed⟩ :: inverse,
      replacement.text.utf8ByteSize + insertedBytes,
      (String.ofList removed).utf8ByteSize + removedBytes)

/-- The body of the loop that writes. -/
def replace (replacement : Replacement) : BufferM Unit := do
  let text ← orPanic ((← get).text.remove replacement.range)
  let text ← orPanic (text.insert replacement.range.start replacement.text)
  modify fun b => { b with text := text }

def apply (transaction : EditTransaction) : BufferM AppliedTransaction := do
  let b ← get
  ensure (transaction.expectedRevision = b.revision)
    (.staleRevision b.revision transaction.expectedRevision)
  let charLen := b.text.length
  match (transaction.replacements.map (·.range.stop)).find? (· > charLen) with
  | some stop => throw (.rangeOutOfBounds stop charLen)
  | none => pure ()
  let nextRevision ← ofExcept b.revision.next
  let (inverse, insertedBytes, removedBytes) ← orPanic (invert b.text 0 transaction.replacements)
  forM transaction.replacements.reverse replace
  modify fun b => { b with revision := nextRevision }
  modify fun b => { b with lineEnding := detectLineEnding b.text }
  let inverse ← ofExcept (EditTransaction.new nextRevision inverse)
  return ⟨nextRevision, inverse, insertedBytes, removedBytes⟩

end TextBuffer
end Strukt
