import Strukt.Bytes
import Strukt.Fs.DocumentIo
import Strukt.Lib.Utf8

/-!
# Reading a document in pieces

`readDocument` classifies a file while it reads it: it hashes what it reads, looks for a NUL at the
start, checks the text with a carry between the pieces, and keeps as much as a limit allows. `usize`
has 64 bits, and no read fails.

* **The loop** (`run_spec`): after any pieces, what the state holds of the bytes that were read.
* **The reference** (`classify`, `Faithful`): what is said of the whole contents.
* **The law** (`read_document_law`): the limit is chosen by the size that the file had when it was
  opened. Where that was more than can be edited and what is read is not, the text may be cut and
  not be marked so (`CutText`).
-/

namespace Strukt.Fs

open String (utf8EncodeChar)

/-- `std::str::Utf8Error`. -/
structure Utf8Error where
  validUpTo : Nat
  /-- No `error_len`: the bytes end within a character. -/
  atEnd : Bool
  deriving DecidableEq

/-- `std::str::from_utf8`. -/
def strFromUtf8 (bytes : List UInt8) : Except Utf8Error (List Char) :=
  let (chars, rest) := Utf8.framing.drain bytes
  if rest = [] then .ok chars
  else .error ⟨bytes.length - rest.length, Utf8.begins rest⟩

namespace Streaming

/-- `saturating_add`. -/
def satAdd (a b : Nat) : Nat := min (a + b) u64Max

structure ReadState where
  captured : List UInt8
  /-- What the hasher was given. -/
  hashed : List UInt8
  utf8Carry : List UInt8
  validUtf8 : Bool
  binary : Bool
  size : Nat

def ReadState.start : ReadState := ⟨[], [], [], true, false, 0⟩

def captureLimit (options : ReadOptions) (metadataSize : Nat) : Nat :=
  let defaultCaptureLimit :=
    max (satAdd options.maxEditableBytes 1) (satAdd options.previewBytes 4)
  if options.forceFull then u64Max
  else if options.maxEditableBytes < metadataSize then satAdd options.previewBytes 4
  else defaultCaptureLimit

/-- What a piece does to the carry, and whether the text is still valid. -/
def checkUtf8 (carry bytes : List UInt8) : List UInt8 × Bool :=
  let carry := carry ++ bytes
  match strFromUtf8 carry with
  | .ok _ => ([], true)
  | .error error => if error.atEnd then (carry.drop error.validUpTo, true) else (carry, false)

/-- One round of the loop. -/
def ReadState.step (limit : Nat) (s : ReadState) (bytes : List UInt8) : ReadState :=
  let size := satAdd s.size bytes.length
  let sniffStart := size - bytes.length
  { size := size
    hashed := s.hashed ++ bytes
    binary :=
      if size ≤ binarySniffBytes ∨ sniffStart < binarySniffBytes then
        s.binary || (bytes.take (min (binarySniffBytes - sniffStart) bytes.length)).contains 0
      else s.binary
    captured :=
      if s.captured.length < limit then
        s.captured ++ bytes.take (min (limit - s.captured.length) bytes.length)
      else s.captured
    utf8Carry := if s.validUtf8 then (checkUtf8 s.utf8Carry bytes).1 else s.utf8Carry
    validUtf8 := s.validUtf8 && (checkUtf8 s.utf8Carry bytes).2 }

/-- The loop, over what the reads give. An empty piece is the end. -/
def ReadState.run (limit : Nat) : ReadState → List (List UInt8) → ReadState
  | s, [] => s
  | s, bytes :: rest => if bytes = [] then s else (s.step limit bytes).run limit rest

/-- `String::from_utf8`, with its error as an error of the file. -/
def stringFromUtf8 (bytes : List UInt8) : Except DocumentIoError String :=
  match String.fromUTF8? ⟨bytes.toArray⟩ with
  | some text => .ok text
  | none => .error .failed

/-- The end of the text in the first `e` bytes. -/
def validEnd (captured : List UInt8) (e : Nat) : Nat :=
  match strFromUtf8 (captured.take e) with
  | .ok _ => (captured.take e).length
  | .error error => error.validUpTo

/-- `read_document` of a regular file, from its size when it was opened and what the reads give. -/
def readDocument (revision : ByteArray → DiskRevision) (options : ReadOptions) (metadataSize : Nat)
    (pieces : List (List UInt8)) : Except DocumentIoError DocumentRead := do
  let s := ReadState.start.run (captureLimit options metadataSize) pieces
  let validUtf8 := s.validUtf8 && s.utf8Carry.isEmpty
  let diskRevision := revision ⟨s.hashed.toArray⟩
  if s.binary then return ⟨.binary, none, s.size, diskRevision⟩
  if !validUtf8 then return ⟨.invalidUtf8, none, s.size, diskRevision⟩
  let oversized := options.maxEditableBytes < s.size ∧ options.forceFull = false
  let text ←
    if oversized then
      let e := min options.previewBytes s.captured.length
      stringFromUtf8 (s.captured.take (validEnd s.captured e))
    else stringFromUtf8 s.captured
  return ⟨.text oversized oversized, some text, s.size, diskRevision⟩

/-- The bytes that are read. -/
def bytesRead : List (List UInt8) → List UInt8
  | [] => []
  | bytes :: rest => if bytes = [] then [] else bytes ++ bytesRead rest

end Streaming

/-! ## The reference -/

/-- The bytes of a text. -/
def utf8Bytes (text : String) : List UInt8 := text.toList.flatMap utf8EncodeChar

/-- The longest text that the bytes begin with, within a number of bytes. -/
structure LongestPrefix (bytes : List UInt8) (limit : Nat) (text : String) : Prop where
  isPrefix : utf8Bytes text <+: bytes
  length_le : (utf8Bytes text).length ≤ limit
  longest : ∀ other, utf8Bytes other <+: bytes → (utf8Bytes other).length ≤ limit →
    (utf8Bytes other).length ≤ (utf8Bytes text).length

/-- What is to be said of the bytes of a file. -/
structure Faithful (revision : ByteArray → DiskRevision) (options : ReadOptions)
    (bytes : List UInt8) (read : DocumentRead) : Prop where
  size : read.size = bytes.length
  diskRevision : read.diskRevision = revision ⟨bytes.toArray⟩
  binary : read.kind = .binary ↔ 0 ∈ bytes.take binarySniffBytes
  invalidUtf8 : read.kind = .invalidUtf8 ↔
    0 ∉ bytes.take binarySniffBytes ∧ String.fromUTF8? ⟨bytes.toArray⟩ = none
  text : ∀ readOnly truncated, read.kind = .text readOnly truncated →
    ∃ text, read.text = some text ∧
      (truncated = false → String.fromUTF8? ⟨bytes.toArray⟩ = some text) ∧
      (truncated = true → LongestPrefix bytes options.previewBytes text)

/-- A text that can be edited, of a file that was too large for it when it was opened, and longer
than what is kept of such a file. -/
structure CutText (options : ReadOptions) (metadataSize : Nat) (bytes : List UInt8) : Prop where
  bounded : options.forceFull = false
  opened : options.maxEditableBytes < metadataSize
  editable : bytes.length ≤ options.maxEditableBytes
  long : options.previewBytes + 4 < bytes.length
  noNul : 0 ∉ bytes.take binarySniffBytes
  valid : String.fromUTF8? ⟨bytes.toArray⟩ ≠ none

/-! ## The loop -/

namespace Streaming

section Loop

variable {limit : Nat} {s : ReadState} {read bytes : List UInt8} {pieces : List (List UInt8)}

/-- What the check of the text holds after the bytes. -/
def CheckedTo (s : ReadState) (read : List UInt8) : Prop :=
  if s.validUtf8 = true then s.utf8Carry = (Utf8.framing.drain read).2
  else ∀ more, (Utf8.framing.drain (read ++ more)).2 ≠ []

/-- What the state holds after the bytes, as long as their number is one. -/
structure ReadTo (limit : Nat) (s : ReadState) (read : List UInt8) : Prop where
  captured : s.captured = read.take limit
  hashed : s.hashed = read
  size : s.size = read.length
  binary : s.binary = true ↔ 0 ∈ read.take binarySniffBytes
  checked : CheckedTo s read

theorem drop_drain (bytes : List UInt8) :
    bytes.drop (bytes.length - (Utf8.framing.drain bytes).2.length) =
      (Utf8.framing.drain bytes).2 := by
  obtain ⟨front, hfront⟩ := Utf8.framing.drain_suffix bytes
  have hlen := congrArg List.length hfront
  rw [List.length_append] at hlen
  have hfront_len : bytes.length - (Utf8.framing.drain bytes).2.length = front.length := by omega
  rw [hfront_len]
  conv_lhs => rw [← hfront]
  exact List.drop_left

/-- The carry is what the characters leave, unless it cannot be a part of one. -/
theorem checkUtf8_eq (carry bytes : List UInt8) : checkUtf8 carry bytes =
    if Utf8.begins (Utf8.framing.drain (carry ++ bytes)).2 then
      ((Utf8.framing.drain (carry ++ bytes)).2, true)
    else (carry ++ bytes, false) := by
  rw [checkUtf8, strFromUtf8]
  dsimp only
  by_cases hrest : (Utf8.framing.drain (carry ++ bytes)).2 = []
  · rw [if_pos hrest, hrest]
    rfl
  · rw [if_neg hrest]
    dsimp only
    rw [drop_drain]

/-- The carry is what is left of all bytes, or no bytes make the text valid any more. -/
theorem checkedTo_step (h : CheckedTo s read) :
    CheckedTo (s.step limit bytes) (read ++ bytes) := by
  unfold CheckedTo at h ⊢
  cases hvalid : s.validUtf8 with
  | false =>
    rw [hvalid, if_neg Bool.false_ne_true] at h
    simp only [ReadState.step, hvalid, Bool.false_and, Bool.false_eq_true, if_false]
    intro more
    rw [List.append_assoc]
    exact h _
  | true =>
    rw [hvalid, if_pos rfl] at h
    have hleft : (Utf8.framing.drain (read ++ bytes)).2 =
        (Utf8.framing.drain (s.utf8Carry ++ bytes)).2 := by
      rw [Utf8.framing.drain_append, h]
    simp only [ReadState.step, hvalid, Bool.true_and, if_true, hleft, checkUtf8_eq]
    cases hbegins : Utf8.begins (Utf8.framing.drain (s.utf8Carry ++ bytes)).2 with
    | true => simp only [if_true]
    | false =>
      simp only [Bool.false_eq_true, if_false]
      intro more
      have hstop := Utf8.next_append (Utf8.framing.drain_rest (s.utf8Carry ++ bytes)) hbegins more
      rw [Utf8.framing.drain_append, hleft, Utf8.framing.drain_stop hstop]
      intro h
      rw [(List.append_eq_nil_iff.mp h).1] at hbegins
      cases hbegins

theorem take_step (read bytes : List UInt8) (n : Nat) :
    (if (read.take n).length < n then
        read.take n ++ bytes.take (min (n - (read.take n).length) bytes.length)
      else read.take n) = (read ++ bytes).take n := by
  rw [List.length_take, List.take_append, ← List.take_eq_take_min]
  split
  · have hmin : min n read.length = read.length := by omega
    rw [hmin]
  · have hzero : n - read.length = 0 := by omega
    rw [hzero, List.take_zero, List.append_nil]

theorem ReadTo.step (h : ReadTo limit s read) (hlen : read.length + bytes.length ≤ u64Max) :
    ReadTo limit (s.step limit bytes) (read ++ bytes) := by
  have hsize : satAdd s.size bytes.length = read.length + bytes.length := by
    rw [satAdd, h.size, Nat.min_eq_left hlen]
  refine ⟨?_, ?_, ?_, ?_, checkedTo_step h.checked⟩
  · rw [← take_step, ← h.captured]
    rfl
  · rw [← h.hashed]
    rfl
  · rw [List.length_append, ← hsize]
    rfl
  · simp only [ReadState.step, hsize, Nat.add_sub_cancel_right]
    rw [List.take_append, List.mem_append, ← h.binary]
    split
    · rw [Bool.or_eq_true, ← List.take_eq_take_min, List.contains_iff_mem]
    · rename_i hsniffed
      have hzero : binarySniffBytes - read.length = 0 := by omega
      rw [hzero, List.take_zero]
      simp

/-- The number of bytes stays where it is at the largest one. -/
theorem size_run (h : s.size = min read.length u64Max) :
    (s.run limit pieces).size = min (read ++ bytesRead pieces).length u64Max := by
  induction pieces generalizing s read with
  | nil => rw [ReadState.run, bytesRead, List.append_nil, h]
  | cons piece pieces ih =>
    rw [ReadState.run, bytesRead]
    split
    · rw [List.append_nil, h]
    · rw [← List.append_assoc]
      refine ih ?_
      rw [List.length_append]
      simp only [ReadState.step, satAdd, h]
      omega

theorem run_spec (h : ReadTo limit s read)
    (hlen : (read ++ bytesRead pieces).length ≤ u64Max) :
    ReadTo limit (s.run limit pieces) (read ++ bytesRead pieces) := by
  induction pieces generalizing s read with
  | nil =>
    rw [ReadState.run, bytesRead, List.append_nil]
    exact h
  | cons piece pieces ih =>
    rw [bytesRead] at hlen ⊢
    rw [ReadState.run]
    split
    · rw [List.append_nil]
      exact h
    · rename_i hne
      rw [if_neg hne, List.length_append, List.length_append] at hlen
      rw [← List.append_assoc]
      refine ih (h.step (by omega)) ?_
      rw [List.length_append, List.length_append]
      omega

theorem start_readTo (limit : Nat) : ReadTo limit .start [] := by
  refine ⟨List.take_nil.symm, rfl, rfl, ?_, ?_⟩
  · rw [List.take_nil]
    simp [ReadState.start]
  · rw [CheckedTo, Utf8.framing.drain_nil]
    rfl

/-- The text is valid exactly where it is at the end and nothing is carried. -/
theorem CheckedTo.valid_iff (h : CheckedTo s read) :
    (s.validUtf8 && s.utf8Carry.isEmpty) = true ↔ (Utf8.framing.drain read).2 = [] := by
  unfold CheckedTo at h
  cases hvalid : s.validUtf8 with
  | false =>
    rw [hvalid, if_neg Bool.false_ne_true] at h
    have hne := h []
    rw [List.append_nil] at hne
    simp [hne]
  | true =>
    rw [hvalid, if_pos rfl] at h
    rw [h]
    simp

end Loop

end Streaming

/-! ## The reference is faithful -/

section Reference

variable {revision : ByteArray → DiskRevision} {options : ReadOptions} {bytes : List UInt8}
  {cs : List Char}

theorem utf8Bytes_ofList (cs : List Char) :
    utf8Bytes (String.ofList cs) = cs.flatMap utf8EncodeChar := by
  rw [utf8Bytes, String.toList_ofList]

theorem fromUTF8?_encode (cs : List Char) :
    String.fromUTF8? ⟨(cs.flatMap utf8EncodeChar).toArray⟩ = some (String.ofList cs) := by
  rw [Utf8.fromUTF8?_eq, Utf8.drain_encode]
  rfl

theorem fromUTF8?_eq_some {text : String} (h : String.fromUTF8? ⟨bytes.toArray⟩ = some text) :
    utf8Bytes text = bytes := by
  rw [Utf8.fromUTF8?_eq] at h
  split at h
  · rename_i hrest
    cases h
    have hbytes := Utf8.encode_drain bytes
    rw [hrest, List.append_nil] at hbytes
    rw [utf8Bytes_ofList, hbytes]
  · cases h

theorem completed_eq_takeBytes (cs : List Char) (n : Nat) :
    Framing.completed utf8EncodeChar cs n = takeBytes n cs := by
  induction cs generalizing n with
  | nil => rfl
  | cons c cs ih =>
    rw [Framing.completed, takeBytes, String.length_utf8EncodeChar]
    by_cases h : n < c.utf8Size
    · rw [if_pos h, if_neg (by omega)]
    · rw [if_neg h, if_pos (by omega), ih]

/-- What a part of a text is read as. -/
theorem drain_take (cs : List Char) (n : Nat) :
    (Utf8.framing.drain ((cs.flatMap utf8EncodeChar).take n)).1 = takeBytes n cs := by
  have hdrain : Utf8.framing.drain ((cs.flatMap utf8EncodeChar ++ []).take n) =
      (Framing.completed utf8EncodeChar cs n, Framing.unfinished utf8EncodeChar [] cs n) :=
    Framing.drain_take (fun c _ => Utf8.reads c)
      fun k => by rw [List.take_nil]; exact Utf8.framing.next_nil
  rw [List.append_nil] at hdrain
  rw [hdrain, completed_eq_takeBytes]

theorem bounded_ofList (cs : List Char) (n : Nat) :
    bounded (String.ofList cs) n = String.ofList (takeBytes n cs) := by
  rw [bounded, utf8ByteSize_ofList, String.toList_ofList]
  split
  · rename_i h
    have hall := takeBytes_append h []
    rw [List.append_nil] at hall
    rw [hall, takeBytes, List.append_nil]
  · rfl

theorem takeBytes_longest (cs : List Char) (n : Nat) :
    LongestPrefix (cs.flatMap utf8EncodeChar) n (String.ofList (takeBytes n cs)) := by
  have hpart := Utf8.encode_drain ((cs.flatMap utf8EncodeChar).take n)
  rw [drain_take] at hpart
  have hprefix : (takeBytes n cs).flatMap utf8EncodeChar <+: (cs.flatMap utf8EncodeChar).take n :=
    ⟨_, hpart⟩
  refine ⟨?_, ?_, fun other hother hlen => ?_⟩
  · rw [utf8Bytes_ofList]
    exact hprefix.trans (List.take_prefix _ _)
  · rw [utf8Bytes_ofList]
    exact hprefix.length_le.trans (List.length_take_le _ _)
  · obtain ⟨rest, hrest⟩ := List.prefix_take_iff.mpr ⟨hother, hlen⟩
    rw [utf8Bytes_ofList, ← drain_take, ← hrest, Utf8.framing.drain_append, utf8Bytes,
      Utf8.drain_encode]
    rw [List.flatMap_append, List.length_append]
    exact Nat.le_add_right _ _

theorem isBinary_iff : isBinary ⟨bytes.toArray⟩ = true ↔ 0 ∈ bytes.take binarySniffBytes := by
  rw [isBinary]
  exact List.contains_iff_mem

theorem classify_faithful (revision : ByteArray → DiskRevision) (options : ReadOptions)
    (bytes : List UInt8) :
    Faithful revision options bytes (classify revision options ⟨bytes.toArray⟩) := by
  unfold classify
  dsimp only
  by_cases hbinary : isBinary ⟨bytes.toArray⟩ = true
  · rw [if_pos hbinary]
    have hmem := isBinary_iff.mp hbinary
    refine ⟨rfl, rfl, iff_of_true rfl hmem, iff_of_false (fun h => by cases h)
      (fun h => h.1 hmem), fun _ _ h => by cases h⟩
  rw [if_neg hbinary]
  have hmem := mt isBinary_iff.mpr hbinary
  cases htext : String.fromUTF8? ⟨bytes.toArray⟩ with
  | none =>
    exact ⟨rfl, rfl, iff_of_false (fun h => by cases h) hmem, iff_of_true rfl ⟨hmem, htext⟩,
      fun _ _ h => by cases h⟩
  | some text =>
    refine ⟨rfl, rfl, iff_of_false (fun h => by cases h) hmem,
      iff_of_false (fun h => by cases h) (fun h => ?_), ?_⟩
    · rw [htext] at h
      cases h.2
    intro readOnly truncated h
    cases h
    refine ⟨_, rfl, fun hfalse => ?_, fun htrue => ?_⟩
    · rw [if_neg (of_decide_eq_false hfalse), htext]
    · rw [if_pos (of_decide_eq_true htrue), ← fromUTF8?_eq_some htext, utf8Bytes]
      obtain ⟨cs, rfl⟩ : ∃ cs, text = String.ofList cs := ⟨_, String.ofList_toList.symm⟩
      rw [bounded_ofList, String.toList_ofList]
      exact takeBytes_longest _ _

end Reference

/-! ## The law -/

namespace Streaming

section Law

variable {revision : ByteArray → DiskRevision} {options : ReadOptions} {metadataSize : Nat}
  {pieces : List (List UInt8)}

theorem stringFromUtf8_encode (cs : List Char) :
    stringFromUtf8 (cs.flatMap utf8EncodeChar) = .ok (String.ofList cs) := by
  rw [stringFromUtf8, fromUTF8?_encode]

/-- The text is cut where the last character that is whole ends. -/
theorem take_validEnd (captured : List UInt8) (e : Nat) :
    captured.take (validEnd captured e) =
      (Utf8.framing.drain (captured.take e)).1.flatMap utf8EncodeChar := by
  have hbytes := Utf8.encode_drain (captured.take e)
  have hend : validEnd captured e =
      ((Utf8.framing.drain (captured.take e)).1.flatMap utf8EncodeChar).length := by
    have hlen := congrArg List.length hbytes
    rw [List.length_append] at hlen
    rw [validEnd, strFromUtf8]
    dsimp only
    by_cases hrest : (Utf8.framing.drain (captured.take e)).2 = []
    · rw [if_pos hrest]
      rw [hrest, List.length_nil] at hlen
      exact hlen.symm
    · rw [if_neg hrest]
      dsimp only
      omega
  have hprefix : (Utf8.framing.drain (captured.take e)).1.flatMap utf8EncodeChar <+: captured :=
    (List.prefix_iff_exists_append_eq.mpr ⟨_, hbytes⟩).trans (List.take_prefix _ _)
  rw [hend]
  exact (List.prefix_iff_eq_take.mp hprefix).symm

variable {bytes : List UInt8}

/-- What is kept of the bytes, as far as the preview goes. -/
theorem take_captured {limit : Nat}
    (h : options.previewBytes ≤ limit ∨ bytes.length ≤ limit) :
    (bytes.take limit).take (min options.previewBytes (bytes.take limit).length) =
      bytes.take options.previewBytes := by
  rw [← List.take_eq_take_min, List.take_take]
  rcases h with h | h
  · rw [Nat.min_eq_left h]
  · rcases Nat.le_total options.previewBytes limit with hle | hle
    · rw [Nat.min_eq_left hle]
    · rw [Nat.min_eq_right hle, List.take_of_length_le h, List.take_of_length_le (h.trans hle)]

theorem preview_le_captureLimit (hlen : bytes.length ≤ u64Max) :
    options.previewBytes ≤ captureLimit options metadataSize ∨
      bytes.length ≤ captureLimit options metadataSize := by
  unfold captureLimit satAdd
  dsimp only
  split_ifs <;> omega

/-- Without a text that is cut, all of a text that can be edited is kept. -/
theorem length_le_captureLimit (hlen : bytes.length ≤ u64Max)
    (heditable : ¬(options.maxEditableBytes < bytes.length ∧ options.forceFull = false))
    (hcut : ¬(options.forceFull = false ∧ options.maxEditableBytes < metadataSize ∧
      options.previewBytes + 4 < bytes.length)) :
    bytes.length ≤ captureLimit options metadataSize := by
  unfold captureLimit satAdd
  dsimp only
  cases hforce : options.forceFull with
  | true =>
    rw [if_pos rfl]
    exact hlen
  | false =>
    simp only [hforce, true_and, and_true] at heditable hcut
    rw [if_neg Bool.false_ne_true]
    by_cases hopened : options.maxEditableBytes < metadataSize
    · rw [if_pos hopened]
      omega
    · rw [if_neg hopened]
      omega

/-- What is returned, by what the loop holds. -/
theorem readDocument_eq (hlen : bytes.length ≤ u64Max)
    (hbytes : bytesRead pieces = bytes) :
    readDocument revision options metadataSize pieces =
      if isBinary ⟨bytes.toArray⟩ = true then
        .ok ⟨.binary, none, bytes.length, revision ⟨bytes.toArray⟩⟩
      else
        match String.fromUTF8? ⟨bytes.toArray⟩ with
        | none => .ok ⟨.invalidUtf8, none, bytes.length, revision ⟨bytes.toArray⟩⟩
        | some text =>
          let oversized := options.maxEditableBytes < bytes.length ∧ options.forceFull = false
          let read (text : String) : DocumentRead :=
            ⟨.text oversized oversized, some text, bytes.length, revision ⟨bytes.toArray⟩⟩
          if oversized then .ok (read (bounded text options.previewBytes))
          else (stringFromUtf8 (bytes.take (captureLimit options metadataSize))).map read := by
  have hlen' : ([] ++ bytesRead pieces).length ≤ u64Max := by
    rw [hbytes]
    exact hlen
  have hs := run_spec (start_readTo (captureLimit options metadataSize)) hlen'
  rw [List.nil_append, hbytes] at hs
  unfold readDocument
  generalize ReadState.start.run (captureLimit options metadataSize) pieces = s at hs
  simp only [hs.hashed, hs.size, hs.captured, bind, Except.bind, pure, Except.pure]
  have hbinary : s.binary = isBinary ⟨bytes.toArray⟩ :=
    Bool.eq_iff_iff.mpr (hs.binary.trans isBinary_iff.symm)
  rw [hbinary]
  by_cases hnul : isBinary ⟨bytes.toArray⟩ = true
  · rw [if_pos hnul, if_pos hnul]
  rw [if_neg hnul, if_neg hnul]
  have hvalid := hs.checked.valid_iff
  cases htext : String.fromUTF8? ⟨bytes.toArray⟩ with
  | none =>
    have hrest : (Utf8.framing.drain bytes).2 ≠ [] := by
      intro hrest
      rw [Utf8.fromUTF8?_eq, if_pos hrest] at htext
      cases htext
    rw [eq_false_of_ne_true (mt hvalid.mp hrest)]
    rfl
  | some text =>
    have hwhole := fromUTF8?_eq_some htext
    have hrest : (Utf8.framing.drain bytes).2 = [] := by
      rw [← hwhole, utf8Bytes, Utf8.drain_encode]
    rw [hvalid.mpr hrest]
    rw [if_neg (show ¬(!true) = true from Bool.false_ne_true)]
    dsimp only
    by_cases hoversized : options.maxEditableBytes < bytes.length ∧ options.forceFull = false
    · rw [if_pos hoversized, if_pos hoversized, take_validEnd,
        take_captured (preview_le_captureLimit hlen)]
      obtain ⟨cs, rfl⟩ : ∃ cs, text = String.ofList cs := ⟨_, String.ofList_toList.symm⟩
      rw [utf8Bytes_ofList] at hwhole
      rw [← hwhole, drain_take, stringFromUtf8_encode, bounded_ofList]
    · rw [if_neg hoversized, if_neg hoversized]
      cases stringFromUtf8 (bytes.take (captureLimit options metadataSize)) <;> rfl

/-- Where no text is cut, what is returned is the classification of the whole contents. -/
theorem readDocument_classify (hlen : bytes.length ≤ u64Max)
    (hbytes : bytesRead pieces = bytes) (hcut : ¬CutText options metadataSize bytes) :
    readDocument revision options metadataSize pieces =
      .ok (classify revision options ⟨bytes.toArray⟩) := by
  rw [readDocument_eq hlen hbytes, classify]
  dsimp only
  by_cases hnul : isBinary ⟨bytes.toArray⟩ = true
  · rw [if_pos hnul, if_pos hnul]
    rfl
  rw [if_neg hnul, if_neg hnul]
  cases htext : String.fromUTF8? ⟨bytes.toArray⟩ with
  | none => rfl
  | some text =>
    dsimp only
    by_cases hoversized : options.maxEditableBytes < bytes.length ∧ options.forceFull = false
    · rw [if_pos hoversized]
      rw [if_pos (show options.maxEditableBytes < (⟨bytes.toArray⟩ : ByteArray).size ∧
        options.forceFull = false from hoversized)]
      rfl
    · have hall : bytes.length ≤ captureLimit options metadataSize :=
        length_le_captureLimit hlen hoversized fun ⟨hforce, hopened, hlong⟩ =>
          hcut ⟨hforce, hopened, Nat.le_of_not_lt fun h => hoversized ⟨h, hforce⟩, hlong,
            mt isBinary_iff.mpr hnul, by rw [htext]; exact Option.some_ne_none text⟩
      rw [if_neg hoversized, List.take_of_length_le hall, stringFromUtf8, htext]
      rw [if_neg (show ¬(options.maxEditableBytes < (⟨bytes.toArray⟩ : ByteArray).size ∧
        options.forceFull = false) from hoversized)]
      rfl

/-- A text that is cut is shorter than the contents, and marked as complete. -/
theorem cut_unfaithful (hlen : bytes.length ≤ u64Max)
    (hbytes : bytesRead pieces = bytes) (hcut : CutText options metadataSize bytes)
    {read : DocumentRead} (hread : readDocument revision options metadataSize pieces = .ok read) :
    ¬Faithful revision options bytes read := by
  intro hfaithful
  obtain ⟨text, htext⟩ := Option.ne_none_iff_exists'.mp hcut.valid
  have heditable : ¬(options.maxEditableBytes < bytes.length ∧ options.forceFull = false) :=
    fun h => absurd h.1 (Nat.not_lt.mpr hcut.editable)
  have hlimit : captureLimit options metadataSize < bytes.length := by
    have hlong := hcut.long
    rw [captureLimit, hcut.bounded, if_neg Bool.false_ne_true, if_pos hcut.opened, satAdd]
    omega
  rw [readDocument_eq hlen hbytes, if_neg (mt isBinary_iff.mp hcut.noNul), htext] at hread
  dsimp only at hread
  rw [if_neg heditable, stringFromUtf8] at hread
  cases hpart : String.fromUTF8? ⟨(bytes.take (captureLimit options metadataSize)).toArray⟩ with
  | none =>
    rw [hpart] at hread
    cases hread
  | some part =>
    rw [hpart] at hread
    cases hread
    obtain ⟨whole, hwhole, hcomplete, -⟩ := hfaithful.text _ _ rfl
    cases hwhole
    have hbytes' := fromUTF8?_eq_some (hcomplete (decide_eq_false heditable))
    rw [fromUTF8?_eq_some hpart] at hbytes'
    have := congrArg List.length hbytes'
    rw [List.length_take] at this
    omega

/-- The number of bytes is returned, or the largest one. -/
theorem size_readDocument {read : DocumentRead}
    (h : readDocument revision options metadataSize pieces = .ok read) :
    read.size = min (bytesRead pieces).length u64Max := by
  have hsize : (ReadState.start.run (captureLimit options metadataSize) pieces).size =
      min ([] ++ bytesRead pieces).length u64Max := size_run rfl
  rw [List.nil_append] at hsize
  rw [← hsize]
  unfold readDocument at h
  generalize ReadState.start.run (captureLimit options metadataSize) pieces = s at h
  simp only [bind, Except.bind, pure, Except.pure] at h
  split at h
  · cases h
    rfl
  split at h
  · cases h
    rfl
  split at h
  · split at h
    · cases h
    · cases h
      rfl
  · split at h
    · cases h
    · cases h
      rfl

/-- What is returned is what is to be said of the bytes that were read, exactly where their number
is one and no text is cut. -/
theorem read_document_law (revision : ByteArray → DiskRevision) (options : ReadOptions)
    (metadataSize : Nat) (pieces : List (List UInt8)) :
    (∃ read, readDocument revision options metadataSize pieces = .ok read ∧
        Faithful revision options (bytesRead pieces) read) ↔
      (bytesRead pieces).length ≤ u64Max ∧
        ¬CutText options metadataSize (bytesRead pieces) := by
  constructor
  · rintro ⟨read, hread, hfaithful⟩
    have hlen : (bytesRead pieces).length ≤ u64Max := by
      have hsize := size_readDocument hread
      rw [hfaithful.size] at hsize
      omega
    exact ⟨hlen, fun hcut => cut_unfaithful hlen rfl hcut hread hfaithful⟩
  · rintro ⟨hlen, hcut⟩
    exact ⟨_, readDocument_classify hlen rfl hcut, classify_faithful _ _ _⟩

/-- A file of seven bytes when it was opened, and six when it is read: five are kept. -/
theorem shrunk_text_cut :
    ¬∃ read, readDocument (fun _ => ⟨""⟩) ⟨6, 1, false⟩ 7 [[97, 97, 97, 97, 97, 97]] = .ok read ∧
      Faithful (fun _ => ⟨""⟩) ⟨6, 1, false⟩ [97, 97, 97, 97, 97, 97] read := by
  rintro ⟨read, hread, hfaithful⟩
  have hrun : readDocument (fun _ => ⟨""⟩) ⟨6, 1, false⟩ 7 [[97, 97, 97, 97, 97, 97]] =
      .ok ⟨.text false false, some "aaaaa", 6, ⟨""⟩⟩ := by decide
  rw [hrun] at hread
  cases hread
  obtain ⟨text, htext, hcomplete, -⟩ := hfaithful.text _ _ rfl
  cases htext
  have hbytes := hcomplete rfl
  revert hbytes
  decide

end Law

end Streaming

end Strukt.Fs
