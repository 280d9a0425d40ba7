import Strukt.Lib.Framing
import Strukt.Prim

/-!
# Frames of the Language Server Protocol

A frame is a body behind a header that ends at an empty line and states the body's length.
`FrameDecoder` takes the bytes as they come and gives the bodies that are complete.

* **Text**: the header is UTF-8, its lines are split at `\r\n`, and a `Content-Length` is read as
  the standard library reads a `usize`.
* **Encoding** (`reads`): what `encode_frame` writes is read as one frame.
* **The law** (`frames_law`): a header that is all but complete counts with the part of the empty
  line that is there, so where a header comes close to its limit the cuts decide.
-/

namespace Strukt.Language

/-- `\r\n\r\n`. -/
def headerSeparator : List UInt8 := [13, 10, 13, 10]

/-- `isize::MAX`, beyond which no vector can be allocated. -/
def isizeMax : Nat := 2 ^ 63 - 1

inductive FrameError where
  | invalidLimits
  | headerTooLarge
  | bodyTooLarge (declared : Nat)
  | malformedHeader
  | missingContentLength
  deriving DecidableEq

def FrameError.toString : FrameError → String
  | invalidLimits => "frame limits must be non-zero"
  | headerTooLarge => "frame header exceeds its byte limit"
  | bodyTooLarge declared => s!"frame body exceeds its byte limit: {declared} bytes declared"
  | malformedHeader => "frame header is malformed"
  | missingContentLength => "frame has no Content-Length header"

/-- Limits that are not zero. -/
structure FrameLimits where
  maxHeaderBytes : Nat
  maxBodyBytes : Nat
  maxHeaderBytes_ne : maxHeaderBytes ≠ 0
  maxBodyBytes_ne : maxBodyBytes ≠ 0

def FrameLimits.new (maxHeaderBytes maxBodyBytes : Nat) : Except FrameError FrameLimits :=
  if h : maxHeaderBytes = 0 ∨ maxBodyBytes = 0 then .error .invalidLimits
  else .ok ⟨maxHeaderBytes, maxBodyBytes, fun hh => h (.inl hh), fun hb => h (.inr hb)⟩

def FrameLimits.default : FrameLimits := ⟨16 * 1024, 16 * 1024 * 1024, by decide, by decide⟩

structure Frame where
  body : List UInt8
  deriving DecidableEq

/-! ## The header -/

/-- `find_subslice`. -/
def findSubslice (needle : List UInt8) : List UInt8 → Option Nat
  | [] => none
  | b :: haystack =>
    if needle.isPrefixOf (b :: haystack) then some 0
    else (findSubslice needle haystack).map (· + 1)

/-- `text.split("\r\n")`. -/
def splitLines : List Char → List (List Char)
  | [] => [[]]
  | '\r' :: '\n' :: text => [] :: splitLines text
  | c :: text =>
    match splitLines text with
    | [] => [[c]]
    | line :: lines => (c :: line) :: lines

/-- `line.split_once(':')`. -/
def splitOnce : List Char → Option (List Char × List Char)
  | [] => none
  | c :: line =>
    if c = ':' then some ([], line)
    else (splitOnce line).map fun (name, value) => (c :: name, value)

/-- `str::parse::<usize>`. -/
def parseUsize (text : List Char) : Option Nat :=
  let digits := if text.head? = some '+' then text.tail else text
  if digits.isEmpty || !digits.all Char.isDigit then none
  else if Nat.ofDigitChars 10 digits 0 ≤ u64Max then some (Nat.ofDigitChars 10 digits 0)
  else none

/-- The loop over the lines. -/
def contentLength : Option Nat → List (List Char) → Except FrameError (Option Nat)
  | found, [] => .ok found
  | found, line :: lines =>
    match splitOnce line with
    | none => .error .malformedHeader
    | some (name, value) =>
      if (trimList isWhitespace name).map Char.toLower = "content-length".toList then
        if found.isSome then .error .malformedHeader
        else
          match parseUsize (trimList isWhitespace value) with
          | none => .error .malformedHeader
          | some n => contentLength (some n) lines
      else contentLength found lines

def parseContentLength (headers : List UInt8) : Except FrameError Nat :=
  match String.fromUTF8? ⟨headers.toArray⟩ with
  | none => .error .malformedHeader
  | some text =>
    match contentLength none (splitLines text.toList) with
    | .error error => .error error
    | .ok none => .error .missingContentLength
    | .ok (some n) => .ok n

/-! ## The decoder -/

structure FrameDecoder where
  limits : FrameLimits
  buffer : List UInt8

namespace FrameDecoder

def new (limits : FrameLimits) : FrameDecoder := ⟨limits, []⟩

def bufferedBytes (d : FrameDecoder) : Nat := d.buffer.length

/-- The body of the loop in `decode_available`. -/
def next (limits : FrameLimits) (buffer : List UInt8) : Scanned Frame FrameError :=
  match findSubslice headerSeparator buffer with
  | none => if buffer.length > limits.maxHeaderBytes then .failed .headerTooLarge else .more
  | some headerEnd =>
    if headerEnd > limits.maxHeaderBytes then .failed .headerTooLarge
    else
      match parseContentLength (buffer.take headerEnd) with
      | .error error => .failed error
      | .ok bodyLength =>
        if bodyLength > limits.maxBodyBytes then .failed (.bodyTooLarge bodyLength)
        else
          let bodyStart := headerEnd + headerSeparator.length
          let frameEnd := bodyStart + bodyLength
          if frameEnd > u64Max then .failed (.bodyTooLarge bodyLength)
          else if buffer.length < frameEnd then .more
          else .frame ⟨(buffer.take frameEnd).drop bodyStart⟩ frameEnd

end FrameDecoder

/-- `Content-Length: ` and the length, without the empty line. -/
def headerText (bodyLength : Nat) : String := "Content-Length: " ++ toString bodyLength

def header (bodyLength : Nat) : List UInt8 := (headerText bodyLength).toUTF8.data.toList

/-- `none` is the panic of an allocation that is too large. -/
def encodeFrame (body : List UInt8) (limits : FrameLimits) :
    Option (Except FrameError (List UInt8)) :=
  if body.length > limits.maxBodyBytes then some (.error (.bodyTooLarge body.length))
  else
    let header := header body.length ++ headerSeparator
    if header.length - headerSeparator.length > limits.maxHeaderBytes then
      some (.error .headerTooLarge)
    else if header.length + body.length > isizeMax then none
    else some (.ok (header ++ body))

/-! ## Searching -/

section Search

variable {needle s t : List UInt8}

theorem findSubslice_bounds {n : Nat} (h : findSubslice needle s = some n) :
    n + needle.length ≤ s.length := by
  induction s generalizing n with
  | nil => cases h
  | cons b s ih =>
    rw [findSubslice] at h
    split at h
    · next hp =>
      cases h
      rw [Nat.zero_add]
      exact (List.isPrefixOf_iff_prefix.mp hp).length_le
    · obtain ⟨m, hm, rfl⟩ := Option.map_eq_some_iff.mp h
      have := ih hm
      rw [List.length_cons]
      omega

/-- What was found is found again when more comes. -/
theorem findSubslice_append {n : Nat} (h : findSubslice needle s = some n) :
    findSubslice needle (s ++ t) = some n := by
  induction s generalizing n with
  | nil => cases h
  | cons b s ih =>
    rw [findSubslice] at h
    rw [List.cons_append, findSubslice]
    split at h
    · next hp =>
      cases h
      rw [if_pos]
      exact List.isPrefixOf_iff_prefix.mpr
        ((List.isPrefixOf_iff_prefix.mp hp).trans (List.prefix_append _ _))
    · next hp =>
      obtain ⟨m, hm, rfl⟩ := Option.map_eq_some_iff.mp h
      have hlength := findSubslice_bounds hm
      rw [if_neg, ih hm]
      · rfl
      · intro hpt
        refine hp (List.isPrefixOf_iff_prefix.mpr ?_)
        refine List.prefix_of_prefix_length_le (List.isPrefixOf_iff_prefix.mp hpt)
          (List.prefix_append (b :: s) t) ?_
        rw [List.length_cons]
        omega

/-- What is found within the bytes that are there is found in them. -/
theorem findSubslice_take {n k : Nat} (h : findSubslice needle s = some n)
    (hneedle : needle ≠ []) (hk : n + needle.length ≤ k) :
    findSubslice needle (s.take k) = some n := by
  have hpos := List.length_pos_iff.mpr hneedle
  induction s generalizing n k with
  | nil => cases h
  | cons b s ih =>
    obtain ⟨k, rfl⟩ : ∃ k', k = k' + 1 := ⟨k - 1, by omega⟩
    have hstart : needle.isPrefixOf ((b :: s).take (k + 1)) = true ↔
        needle.isPrefixOf (b :: s) = true := by
      rw [List.isPrefixOf_iff_prefix, List.isPrefixOf_iff_prefix, List.prefix_take_iff]
      refine and_iff_left_of_imp fun _ => ?_
      omega
    rw [List.take_succ_cons] at hstart ⊢
    rw [findSubslice] at h ⊢
    split at h
    · next hp =>
      cases h
      rw [if_pos (hstart.mpr hp)]
    · next hp =>
      obtain ⟨m, hm, rfl⟩ := Option.map_eq_some_iff.mp h
      rw [if_neg (hstart.not.mpr hp), ih hm (by omega)]
      rfl

/-- Nothing is found among bytes that the needle does not begin with. -/
theorem findSubslice_skip {pre : List UInt8} (h : ∀ b ∈ pre, b ≠ 13) :
    findSubslice headerSeparator (pre ++ s) =
      (findSubslice headerSeparator s).map (pre.length + ·) := by
  induction pre with
  | nil => simp
  | cons b pre ih =>
    have hb : headerSeparator.isPrefixOf (b :: pre ++ s) = false := by
      have hne : (13 == b) = false := beq_false_of_ne (h b List.mem_cons_self).symm
      simp only [headerSeparator, List.cons_append, List.isPrefixOf, hne, Bool.false_and]
    rw [List.cons_append] at hb ⊢
    rw [findSubslice, if_neg (by rw [hb]; exact Bool.false_ne_true),
      ih fun c hc => h c (List.mem_cons_of_mem _ hc), Option.map_map]
    refine congrFun (congrArg _ (funext fun n => ?_)) _
    simp only [Function.comp_apply, List.length_cons]
    omega

end Search

/-! ## What is encoded is read -/

section Header

variable {n : Nat} {c : Char}

theorem toList_headerText (n : Nat) :
    (headerText n).toList = "Content-Length: ".toList ++ Nat.toDigits 10 n := by
  rw [headerText, String.toList_append]
  exact congrArg _ Nat.toList_repr

/-- The characters of a header are ASCII, and none of them ends a line. -/
theorem mem_headerText (h : c ∈ (headerText n).toList) : c.toNat < 128 ∧ c.toNat ≠ 13 := by
  rw [toList_headerText] at h
  obtain h | h := List.mem_append.mp h
  · have hname : ∀ c ∈ "Content-Length: ".toList, c.toNat < 128 ∧ c.toNat ≠ 13 := by simp
    exact hname c h
  · have hdigit := Nat.isDigit_of_mem_toDigits (by decide) (by decide) h
    rw [Char.isDigit, Bool.and_eq_true, decide_eq_true_eq, decide_eq_true_eq] at hdigit
    have hle : c.toNat ≤ 57 := hdigit.2
    have hge : 48 ≤ c.toNat := hdigit.1
    omega

theorem mem_header {b : UInt8} (h : b ∈ header n) : b ≠ 13 := by
  rw [header, String.toUTF8_eq_toByteArray, ← String.utf8Encode_toList, List.utf8Encode,
    List.toList_data_toByteArray] at h
  obtain ⟨c, hc, hb⟩ := List.mem_flatMap.mp h
  obtain ⟨hascii, hne⟩ := mem_headerText hc
  have hsize : c.utf8Size = 1 := by
    rw [Char.utf8Size_eq_one_iff]
    exact UInt32.le_iff_toNat_le.mpr (by simpa using Nat.le_of_lt_succ hascii)
  rw [String.utf8EncodeChar_eq_singleton hsize, List.mem_singleton] at hb
  rw [hb]
  intro hreturn
  have hval : c.val.toUInt8.toNat = 13 := congrArg UInt8.toNat hreturn
  rw [UInt32.toNat_toUInt8] at hval
  exact hne (by rw [Char.toNat]; rw [Char.toNat] at hascii; omega)

/-- A text that ends no line is one line. -/
theorem splitLines_one {text : List Char} (h : ∀ c ∈ text, c ≠ '\r') : splitLines text = [text] := by
  induction text with
  | nil => rfl
  | cons c text ih =>
    rw [splitLines]
    · rw [ih fun d hd => h d (List.mem_cons_of_mem _ hd)]
    · intro _ hc
      exact absurd hc (h c List.mem_cons_self)

theorem parseUsize_toDigits (h : n ≤ u64Max) : parseUsize (Nat.toDigits 10 n) = some n := by
  have hdigits : (Nat.toDigits 10 n).all Char.isDigit = true :=
    List.all_eq_true.mpr fun c hc => Nat.isDigit_of_mem_toDigits (by decide) (by decide) hc
  have hplus : (Nat.toDigits 10 n).head? ≠ some '+' := by
    intro hhead
    have := Nat.isDigit_of_mem_toDigits (by decide) (by decide) (List.mem_of_head? hhead)
    exact absurd this (by decide)
  have hempty : (Nat.toDigits 10 n).isEmpty = false := by
    rw [List.isEmpty_eq_false_iff]
    exact Nat.toDigits_ne_nil
  simp only [parseUsize, if_neg hplus, hdigits, hempty, Nat.ofDigitChars_ten_toDigits, if_pos h]
  rfl

theorem trimList_toDigits (n : Nat) :
    trimList isWhitespace (' ' :: Nat.toDigits 10 n) = Nat.toDigits 10 n := by
  have hspace (c : Char) (hc : c ∈ Nat.toDigits 10 n) : isWhitespace c = false := by
    have hdigit := Nat.isDigit_of_mem_toDigits (by decide) (by decide) hc
    rw [Char.isDigit, Bool.and_eq_true, decide_eq_true_eq, decide_eq_true_eq] at hdigit
    have hle : c.toNat ≤ 57 := hdigit.2
    have hge : 48 ≤ c.toNat := hdigit.1
    simp only [isWhitespace, Bool.or_eq_false_iff, Bool.and_eq_false_iff, decide_eq_false_iff_not]
    omega
  have hfront : (' ' :: Nat.toDigits 10 n).dropWhile isWhitespace = Nat.toDigits 10 n := by
    rw [List.dropWhile_cons_of_pos (by decide)]
    exact dropWhile_eq_self fun c hc => hspace c (List.mem_of_head? hc)
  have hback : (Nat.toDigits 10 n).reverse.dropWhile isWhitespace = (Nat.toDigits 10 n).reverse :=
    dropWhile_eq_self fun c hc => hspace c (List.mem_reverse.mp (List.mem_of_head? hc))
  rw [trimList, hfront, hback, List.reverse_reverse]

theorem parseContentLength_header (h : n ≤ u64Max) : parseContentLength (header n) = .ok n := by
  have htext : String.fromUTF8? ⟨(header n).toArray⟩ = some (headerText n) := by
    rw [header, Array.toArray_toList]
    exact dif_pos (headerText n).isValidUTF8
  have hlines : splitLines (headerText n).toList = [(headerText n).toList] :=
    splitLines_one fun c hc heq => by
      rw [heq] at hc
      exact absurd rfl (mem_headerText hc).2
  have honce : splitOnce (headerText n).toList =
      some ("Content-Length".toList, ' ' :: Nat.toDigits 10 n) := by
    rw [toList_headerText]
    rfl
  have hname : (trimList isWhitespace "Content-Length".toList).map Char.toLower =
      "content-length".toList := by decide
  simp only [parseContentLength, htext, hlines, contentLength, honce, hname, trimList_toDigits,
    parseUsize_toDigits h, if_true, Option.isSome_none, Bool.false_eq_true, if_false]

theorem findSubslice_header (n : Nat) (s : List UInt8) :
    findSubslice headerSeparator (header n ++ (headerSeparator ++ s)) = some (header n).length := by
  rw [findSubslice_skip fun b hb => mem_header hb]
  rfl

end Header

namespace FrameDecoder

/-! ## The framing -/

section Scanning

variable {limits : FrameLimits} {s b : List UInt8} {k : Nat}

/-- `s` begins with a header of `h` bytes, before its empty line, that is accepted and declares a
body of `n` bytes. -/
def HeaderAt (limits : FrameLimits) (s : List UInt8) (h n : Nat) : Prop :=
  findSubslice headerSeparator s = some h ∧ h ≤ limits.maxHeaderBytes ∧
    parseContentLength (s.take h) = .ok n ∧ n ≤ limits.maxBodyBytes ∧
    h + headerSeparator.length + n ≤ u64Max

theorem HeaderAt.append {h n : Nat} {t : List UInt8} (ha : HeaderAt limits s h n) :
    HeaderAt limits (s ++ t) h n := by
  obtain ⟨hfind, hmax, hparse, hbody, hsum⟩ := ha
  have hlength := findSubslice_bounds hfind
  refine ⟨findSubslice_append hfind, hmax, ?_, hbody, hsum⟩
  rw [List.take_append_of_le_length (by omega), hparse]

theorem HeaderAt.take {h n : Nat} (ha : HeaderAt limits s h n)
    (hk : h + headerSeparator.length ≤ k) : HeaderAt limits (s.take k) h n := by
  obtain ⟨hfind, hmax, hparse, hbody, hsum⟩ := ha
  refine ⟨findSubslice_take hfind (List.cons_ne_nil _ _) hk, hmax, ?_, hbody, hsum⟩
  rw [List.take_take, Nat.min_eq_left (by omega), hparse]

/-- What is scanned behind an accepted header. -/
theorem HeaderAt.next {h n : Nat} (ha : HeaderAt limits s h n) : next limits s =
    if s.length < h + headerSeparator.length + n then .more
    else .frame ⟨(s.take (h + headerSeparator.length + n)).drop (h + headerSeparator.length)⟩
      (h + headerSeparator.length + n) := by
  obtain ⟨hfind, hmax, hparse, hbody, hsum⟩ := ha
  simp only [FrameDecoder.next, hfind, if_neg (Nat.not_lt.mpr hmax), hparse,
    if_neg (Nat.not_lt.mpr hbody), if_neg (Nat.not_lt.mpr hsum)]

/-- Nothing that is wrong is seen yet. -/
def Acceptable (limits : FrameLimits) (s : List UInt8) : Prop :=
  (findSubslice headerSeparator s = none ∧ s.length ≤ limits.maxHeaderBytes) ∨
    ∃ h n, HeaderAt limits s h n

theorem error_none : (next limits s).error? = none ↔ Acceptable limits s := by
  constructor
  · intro herror
    cases hfind : findSubslice headerSeparator s with
    | none =>
      simp only [next, hfind] at herror
      split at herror
      · cases herror
      · exact .inl ⟨hfind, by omega⟩
    | some h =>
      simp only [next, hfind] at herror
      split at herror
      · cases herror
      · next hmax =>
        cases hparse : parseContentLength (s.take h) with
        | error e =>
          rw [hparse] at herror
          cases herror
        | ok n =>
          simp only [hparse] at herror
          split at herror
          · cases herror
          · next hbody =>
            split at herror
            · cases herror
            · exact .inr ⟨h, n, hfind, Nat.not_lt.mp hmax, hparse, Nat.not_lt.mp hbody,
                Nat.not_lt.mp (by assumption)⟩
  · rintro (⟨hfind, hmax⟩ | ⟨h, n, ha⟩)
    · simp only [next, hfind, if_neg (Nat.not_lt.mpr hmax)]
      rfl
    · rw [ha.next]
      split
      · rfl
      · rfl

theorem next_eq_frame {frame : Frame} : next limits s = .frame frame k ↔
    ∃ h n, HeaderAt limits s h n ∧ k = h + headerSeparator.length + n ∧ k ≤ s.length ∧
      frame = ⟨(s.take k).drop (h + headerSeparator.length)⟩ := by
  constructor
  · intro hframe
    obtain ⟨hfind, hmax⟩ | ⟨h, n, ha⟩ := error_none.mp (show (next limits s).error? = none by
      rw [hframe]
      rfl)
    · simp only [next, hfind, if_neg (Nat.not_lt.mpr hmax)] at hframe
      cases hframe
    · rw [ha.next] at hframe
      split at hframe
      · cases hframe
      · next hlength =>
        cases hframe
        exact ⟨h, n, ha, rfl, Nat.not_lt.mp hlength, rfl⟩
  · rintro ⟨h, n, ha, rfl, hlength, rfl⟩
    rw [ha.next, if_neg (Nat.not_lt.mpr hlength)]

def framing (limits : FrameLimits) : Framing UInt8 Frame FrameError where
  next := next limits
  bounded s b k hframe := by
    obtain ⟨h, n, -, rfl, hlength, -⟩ := next_eq_frame.mp hframe
    exact ⟨Nat.lt_of_lt_of_le (by decide) (Nat.le_trans (Nat.le_add_left _ h)
      (Nat.le_add_right _ n)), hlength⟩
  stable s t b k hframe := by
    obtain ⟨h, n, ha, rfl, hlength, rfl⟩ := next_eq_frame.mp hframe
    refine next_eq_frame.mpr ⟨h, n, ha.append, rfl, ?_, ?_⟩
    · rw [List.length_append]
      omega
    · rw [List.take_append_of_le_length hlength]

theorem framing_local : (framing limits).Local := by
  intro s b k hframe
  obtain ⟨h, n, ha, rfl, hlength, rfl⟩ := next_eq_frame.mp hframe
  refine next_eq_frame.mpr ⟨h, n, ha.take (Nat.le_add_right _ _), rfl, ?_, ?_⟩
  · rw [List.length_take]
    omega
  · rw [List.take_take, Nat.min_self]

end Scanning

/-- The loop of `decode_available` is `drain`. -/
def push (d : FrameDecoder) (bytes : List UInt8) :
    Except FrameError (List Frame) × FrameDecoder :=
  let (frames, buffer) := (framing d.limits).drain (d.buffer ++ bytes)
  match (next d.limits buffer).error? with
  | some error => (.error error, { d with buffer := [] })
  | none => (.ok frames, { d with buffer := buffer })

/-- Up to the first error, pushing is the framing's. -/
theorem run_push (d : FrameDecoder) (cs : List (List UInt8)) : Framing.run push d cs =
    Framing.run ((framing d.limits).push fun _ _ => none) d.buffer cs := by
  induction cs generalizing d with
  | nil => rfl
  | cons c cs ih =>
    simp only [Framing.run, push, Framing.push]
    have hnext : (framing d.limits).next = next d.limits := rfl
    rw [hnext]
    cases (next d.limits ((framing d.limits).drain (d.buffer ++ c)).2).error? with
    | some e => rfl
    | none =>
      dsimp only
      rw [ih]

end FrameDecoder

/-! ## Streams of encoded bodies -/

/-- What `encode_frame` writes. -/
def Frame.encoded (frame : Frame) : List UInt8 :=
  header frame.body.length ++ headerSeparator ++ frame.body

/-- The body is accepted by `encode_frame`. -/
def Encodable (limits : FrameLimits) (frame : Frame) : Prop :=
  encodeFrame frame.body limits = some (.ok frame.encoded)

/-- The encoded bodies. -/
def stream (frames : List Frame) : List UInt8 := frames.flatMap Frame.encoded

/-- How many of the first `pos` bytes of a stream are of a header without its whole empty line. -/
def openHeader : List Frame → Nat → Nat
  | [], _ => 0
  | frame :: frames, pos =>
    if pos < (header frame.body.length).length + headerSeparator.length then pos
    else if pos < frame.encoded.length then 0
    else openHeader frames (pos - frame.encoded.length)

/-- From position `pos` of the stream on, no chunk ends where more of a header has come than a
header may have. -/
def HeadersFit (limits : FrameLimits) (frames : List Frame) : Nat → List (List UInt8) → Prop
  | _, [] => True
  | pos, c :: cs => openHeader frames (pos + c.length) ≤ limits.maxHeaderBytes ∧
      HeadersFit limits frames (pos + c.length) cs

instance HeadersFit.decidable (limits : FrameLimits) (frames : List Frame) :
    ∀ pos cs, Decidable (HeadersFit limits frames pos cs)
  | _, [] => isTrue trivial
  | pos, c :: cs =>
    have := HeadersFit.decidable limits frames (pos + c.length) cs
    inferInstanceAs (Decidable (_ ∧ HeadersFit limits frames (pos + c.length) cs))

namespace FrameDecoder

section Streams

variable {limits : FrameLimits} {frame : Frame} {frames : List Frame} {pos : Nat}

theorem length_encoded (frame : Frame) : frame.encoded.length =
    (header frame.body.length).length + headerSeparator.length + frame.body.length := by
  rw [Frame.encoded, List.length_append, List.length_append]

theorem encodable_iff : Encodable limits frame ↔ frame.body.length ≤ limits.maxBodyBytes ∧
    (header frame.body.length).length ≤ limits.maxHeaderBytes ∧
      frame.encoded.length ≤ isizeMax := by
  rw [length_encoded]
  simp only [Encodable, encodeFrame, List.length_append, Nat.add_sub_cancel]
  split
  · exact iff_of_false (fun h => by cases h) (by omega)
  · split
    · exact iff_of_false (fun h => by cases h) (by omega)
    · split
      · exact iff_of_false (fun h => by cases h) (by omega)
      · exact iff_of_true rfl (by omega)

theorem headerAt_encoded (h : Encodable limits frame) (t : List UInt8) :
    HeaderAt limits (frame.encoded ++ t) (header frame.body.length).length frame.body.length := by
  obtain ⟨hbody, hheader, hsize⟩ := encodable_iff.mp h
  rw [length_encoded] at hsize
  have hword : isizeMax ≤ u64Max := by decide
  rw [Frame.encoded, List.append_assoc, List.append_assoc]
  refine ⟨findSubslice_header _ _, hheader, ?_, hbody, by omega⟩
  rw [List.take_left, parseContentLength_header (by omega)]

theorem HeaderAt.unique {s : List UInt8} {h h' n n' : Nat} (ha : HeaderAt limits s h n)
    (ha' : HeaderAt limits s h' n') : h = h' ∧ n = n' := by
  obtain ⟨hfind, -, hparse, -, -⟩ := ha
  obtain ⟨hfind', -, hparse', -, -⟩ := ha'
  cases hfind.symm.trans hfind'
  cases hparse.symm.trans hparse'
  exact ⟨rfl, rfl⟩

/-- A header that is seen at the front of a part of an encoded body is the header of it. -/
theorem headerAt_take (h : Encodable limits frame) {j n : Nat}
    (ha : HeaderAt limits (frame.encoded.take pos) j n) :
    j = (header frame.body.length).length ∧ n = frame.body.length := by
  have happend := @HeaderAt.append _ _ _ _ (frame.encoded.drop pos) ha
  have hwhole := headerAt_encoded h []
  rw [List.append_nil] at hwhole
  rw [List.take_append_drop] at happend
  exact happend.unique hwhole

theorem reads (h : Encodable limits frame) : (framing limits).Reads Frame.encoded frame where
  whole t := by
    refine next_eq_frame.mpr ⟨_, _, headerAt_encoded h t, length_encoded frame, ?_, ?_⟩
    · rw [List.length_append]
      exact Nat.le_add_right _ _
    · rw [List.take_left, Frame.encoded, ← List.length_append, List.drop_left]
  short k hk hframe := by
    cases hn : (framing limits).next (frame.encoded.take k) with
    | frame b m =>
      obtain ⟨j, n, ha, rfl, hlength, -⟩ := next_eq_frame.mp hn
      obtain ⟨rfl, rfl⟩ := headerAt_take h ha
      rw [← length_encoded, List.length_take] at hlength
      omega
    | more | failed _ =>
      rw [hn] at hframe
      exact hframe

/-- A part of an encoded body is an error, exactly if its header is too large for what is there. -/
theorem error_take (h : Encodable limits frame) (hpos : pos < frame.encoded.length) :
    (next limits (frame.encoded.take pos)).error? = none ↔
      (pos < (header frame.body.length).length + headerSeparator.length →
        pos ≤ limits.maxHeaderBytes) := by
  have hlength : (frame.encoded.take pos).length = pos := by
    rw [List.length_take]
    omega
  rw [error_none, Acceptable, hlength]
  have hwhole := headerAt_encoded h []
  rw [List.append_nil] at hwhole
  by_cases hshort : pos < (header frame.body.length).length + headerSeparator.length
  · have hnone : findSubslice headerSeparator (frame.encoded.take pos) = none := by
      cases hfind : findSubslice headerSeparator (frame.encoded.take pos) with
      | none => rfl
      | some j =>
        have hbounds := findSubslice_bounds hfind
        have happend := @findSubslice_append _ _ (frame.encoded.drop pos) _ hfind
        rw [List.take_append_drop, hwhole.1] at happend
        cases happend
        omega
    constructor
    · rintro (⟨-, hmax⟩ | ⟨j, n, ha⟩) _
      · exact hmax
      · exact absurd (hnone.symm.trans ha.1) (fun h => by cases h)
    · intro hmax
      exact .inl ⟨hnone, hmax hshort⟩
  · exact iff_of_true (.inr ⟨_, _, hwhole.take (by omega)⟩) (fun hlt => absurd hlt hshort)

/-- What is left of a stream is an error, exactly if it is of a header that is too large so far. -/
theorem error_unfinished (h : ∀ f ∈ frames, Encodable limits f) :
    (next limits (Framing.unfinished Frame.encoded [] frames pos)).error? = none ↔
      openHeader frames pos ≤ limits.maxHeaderBytes := by
  induction frames generalizing pos with
  | nil =>
    rw [Framing.unfinished, List.take_nil]
    exact iff_of_true (error_none.mpr (.inl ⟨rfl, Nat.zero_le _⟩)) (Nat.zero_le _)
  | cons f fs ih =>
    have hf := h f List.mem_cons_self
    rw [Framing.unfinished, openHeader]
    by_cases hshort : pos < f.encoded.length
    · rw [if_pos hshort, if_pos hshort, error_take hf hshort]
      split
      · next hopen => exact ⟨fun hfit => hfit hopen, fun hfit _ => hfit⟩
      · next hopen => exact iff_of_true (fun hlt => absurd hlt hopen) (Nat.zero_le _)
    · have hsize := length_encoded f
      rw [if_neg hshort, if_neg hshort, if_neg (by omega),
        ih fun g hg => h g (List.mem_cons_of_mem _ hg)]

theorem clean_iff (h : ∀ f ∈ frames, Encodable limits f) {cs : List (List UInt8)} :
    (framing limits).CleanAt (fun _ _ => none) (stream frames) pos cs ↔
      HeadersFit limits frames pos cs := by
  induction cs generalizing pos with
  | nil => exact Iff.rfl
  | cons c cs ih =>
    have hdrain := @Framing.drain_take _ _ _ (framing limits) Frame.encoded frames []
      (pos + c.length) (fun f hf => reads (h f hf)) (fun n => by
        rw [List.take_nil]
        exact (framing limits).next_nil)
    rw [List.append_nil, ← stream] at hdrain
    rw [Framing.CleanAt, HeadersFit, ih, hdrain]
    exact (and_iff_right rfl).trans (and_congr_left fun _ => error_unfinished h)

/-- A stream is decoded whole, exactly if its headers fit where it is cut. -/
theorem run_stream (h : ∀ f ∈ frames, Encodable limits f) {cs : List (List UInt8)}
    (hcs : cs.flatten = stream frames) :
    Framing.run push (new limits) cs = (frames, none) ↔ HeadersFit limits frames 0 cs := by
  have hstop := (framing limits).next_nil
  rw [run_push, show (new limits).buffer = [] from rfl, show (new limits).limits = limits from rfl,
    ← clean_iff h, ← Framing.clean_at (by rw [List.drop_zero, hcs]), List.take_zero,
    Framing.drain_nil]
  constructor
  · intro hrun
    exact (Framing.run_error_none hstop).mp (by rw [hrun])
  · intro hclean
    rw [Framing.run_clean hclean hstop, List.nil_append, hcs]
    have hdrain := @Framing.drain_take _ _ _ (framing limits) Frame.encoded frames []
      (stream frames).length (fun f hf => reads (h f hf)) (fun n => by
        rw [List.take_nil]
        exact hstop)
    rw [List.append_nil, ← stream, List.take_length] at hdrain
    have hall : Framing.completed Frame.encoded frames (stream frames).length = frames :=
      Framing.completed_eq.mpr le_rfl
    rw [hdrain, hall]

end Streams

/-! ## Streams of any bytes -/

/-- What is left of `s` behind some of its frames. -/
inductive BehindFrames (limits : FrameLimits) (s : List UInt8) : List UInt8 → Prop
  | start : BehindFrames limits s s
  | frame {b h n} : BehindFrames limits s b → HeaderAt limits b h n →
      h + headerSeparator.length + n ≤ b.length →
      BehindFrames limits s (b.drop (h + headerSeparator.length + n))

/-- Nothing is wrong behind a frame, and no header is within its limit only without the first three
bytes of its empty line. -/
def Uniform (limits : FrameLimits) (s : List UInt8) : Prop :=
  ∀ b, BehindFrames limits s b → (b ≠ s → Acceptable limits b) ∧
    ∀ h, findSubslice headerSeparator b = some h → h ≤ limits.maxHeaderBytes →
      h + headerSeparator.length ≤ limits.maxHeaderBytes + 1

section Uniform

variable {limits : FrameLimits} {s b : List UInt8}

theorem behind_iff : (framing limits).Behind s b ↔ BehindFrames limits s b := by
  constructor
  · intro h
    induction h with
    | start => exact .start
    | frame _ hframe ih =>
      obtain ⟨h, n, ha, rfl, hlength, -⟩ := next_eq_frame.mp hframe
      exact .frame ih ha hlength
  · intro h
    induction h with
    | start => exact .start
    | frame _ ha hlength ih =>
      exact .frame ih (next_eq_frame.mpr ⟨_, _, ha, rfl, hlength, rfl⟩)

/-- Once the empty line is there, what is wrong with a header does not change. -/
theorem error_append {h : Nat} (hfind : findSubslice headerSeparator s = some h)
    (t : List UInt8) : (next limits (s ++ t)).error? = (next limits s).error? := by
  have hbounds := findSubslice_bounds hfind
  have htake : (s ++ t).take h = s.take h := List.take_append_of_le_length (by omega)
  simp only [next, hfind, findSubslice_append hfind, htake]
  split
  · rfl
  · cases parseContentLength (s.take h) with
    | error e => rfl
    | ok n =>
      dsimp only
      split
      · rfl
      · split
        · rfl
        · split <;> split <;> rfl

theorem contentLength_error {found : Option Nat} {lines : List (List Char)} {e : FrameError}
    (h : contentLength found lines = .error e) : e = .malformedHeader := by
  induction lines generalizing found with
  | nil => cases h
  | cons line lines ih =>
    rw [contentLength] at h
    split at h
    · cases h
      rfl
    · split at h
      · split at h
        · cases h
          rfl
        · split at h
          · cases h
            rfl
          · exact ih h
      · exact ih h

/-- A header that is there is too large only by its own length. -/
theorem headerTooLarge_iff {h : Nat} (hfind : findSubslice headerSeparator s = some h) :
    (next limits s).error? = some .headerTooLarge ↔ limits.maxHeaderBytes < h := by
  simp only [next, hfind]
  split
  · next hmax => exact iff_of_true rfl hmax
  · next hmax =>
    refine iff_of_false (fun herror => ?_) hmax
    cases hparse : parseContentLength (s.take h) with
    | error e =>
      rw [hparse] at herror
      have he : e = .headerTooLarge := Option.some.inj herror
      unfold parseContentLength at hparse
      split at hparse
      · cases hparse
        cases he
      · split at hparse
        · next hlines =>
          cases hparse
          rw [contentLength_error hlines] at he
          cases he
        · cases hparse
          cases he
        · cases hparse
    | ok n =>
      simp only [hparse] at herror
      split at herror
      · cases herror
      · split at herror
        · cases herror
        · split at herror
          · cases herror
          · cases herror

theorem find_take_none {h k : Nat} (hfind : findSubslice headerSeparator s = some h)
    (hk : k < h + headerSeparator.length) : findSubslice headerSeparator (s.take k) = none := by
  cases htake : findSubslice headerSeparator (s.take k) with
  | none => rfl
  | some j =>
    have hbounds := findSubslice_bounds htake
    have happend := @findSubslice_append _ _ (s.drop k) _ htake
    rw [List.take_append_drop, hfind] at happend
    cases happend
    rw [List.length_take] at hbounds
    omega

/-- Parts of `b` are errors only where `b` is, exactly if its header, where it is within the limit,
is so with the first three bytes of its empty line. -/
theorem stays_iff : (∀ k e, (next limits (b.take k)).error? = some e →
    (next limits b).error? = some e) ↔
      ∀ h, findSubslice headerSeparator b = some h → h ≤ limits.maxHeaderBytes →
        h + headerSeparator.length ≤ limits.maxHeaderBytes + 1 := by
  constructor
  · intro hstays h hfind hmax
    by_contra hlong
    have hbounds := findSubslice_bounds hfind
    have hlength : (b.take (limits.maxHeaderBytes + 1)).length = limits.maxHeaderBytes + 1 := by
      rw [List.length_take]
      omega
    have herror := hstays (limits.maxHeaderBytes + 1) .headerTooLarge (by
      simp only [next, find_take_none hfind (by omega : limits.maxHeaderBytes + 1 < _), hlength]
      rw [if_pos (Nat.lt_succ_self _)]
      rfl)
    exact absurd ((headerTooLarge_iff hfind).mp herror) (by omega)
  · intro hfit k e herror
    cases htake : findSubslice headerSeparator (b.take k) with
    | some h =>
      rw [← error_append htake (b.drop k), List.take_append_drop] at herror
      exact herror
    | none =>
      simp only [next, htake, List.length_take] at herror
      split at herror
      · next hlong =>
        cases herror
        cases hfind : findSubslice headerSeparator b with
        | none =>
          simp only [next, hfind]
          rw [if_pos (by omega)]
          rfl
        | some h =>
          rw [headerTooLarge_iff hfind]
          by_contra hmax
          have hclose := hfit h hfind (by omega)
          have hbounds := findSubslice_bounds hfind
          rw [findSubslice_take hfind (List.cons_ne_nil _ _) (by omega)] at htake
          cases htake
      · cases herror

theorem steady_iff : (framing limits).Steady s ↔ Uniform limits s := by
  constructor
  · rintro ⟨halone, hstays⟩ b hb
    have hbehind := behind_iff.mpr hb
    exact ⟨fun hne => error_none.mp (halone b hbehind hne),
      stays_iff.mp fun k e => hstays b k e hbehind⟩
  · intro huniform
    refine ⟨fun b hb hne => ?_, fun b k e hb herror => ?_⟩
    · exact error_none.mpr ((huniform b (behind_iff.mp hb)).1 hne)
    · exact stays_iff.mpr (huniform b (behind_iff.mp hb)).2 k e herror

/-- What comes of a stream is the same for all cuts, exactly if it is uniform. -/
theorem run_uniform : (∀ cs cs' : List (List UInt8), cs.flatten = s → cs'.flatten = s →
    Framing.run push (new limits) cs = Framing.run push (new limits) cs') ↔ Uniform limits s := by
  have hdecode (cs : List (List UInt8)) :
      Framing.run push (new limits) cs = (framing limits).decode cs := run_push (new limits) cs
  have hnil : (next limits []).error? = none := error_none.mpr (.inl ⟨rfl, Nat.zero_le _⟩)
  simp only [hdecode]
  rw [Framing.independent_iff framing_local hnil, steady_iff]

end Uniform

/-- A stream of encoded bodies is decoded as it was encoded, and any stream comes to the same
however it is cut, exactly under the stated conditions on the headers. -/
theorem frames_law (limits : FrameLimits) :
    (∀ (frames : List Frame) (cs : List (List UInt8)), (∀ f ∈ frames, Encodable limits f) →
      cs.flatten = stream frames →
        (Framing.run push (new limits) cs = (frames, none) ↔ HeadersFit limits frames 0 cs)) ∧
    ∀ s : List UInt8, (∀ cs cs' : List (List UInt8), cs.flatten = s → cs'.flatten = s →
      Framing.run push (new limits) cs = Framing.run push (new limits) cs') ↔ Uniform limits s :=
  ⟨fun _ _ h hcs => run_stream h hcs, fun _ => run_uniform⟩

/-- The encoded `ab` that comes in two chunks, cut in its empty line. -/
theorem frames_law_cut :
    Framing.run push (new ⟨18, 8, by decide, by decide⟩)
      [header 2 ++ [13], [10, 13, 10, 97, 98]] = ([⟨[97, 98]⟩], none) := by
  refine ((frames_law ⟨18, 8, by decide, by decide⟩).1 [⟨[97, 98]⟩] _ ?_ ?_).mpr ?_
  · intro f hf
    rw [List.mem_singleton.mp hf]
    exact encodable_iff.mpr (by decide)
  · decide
  · decide

/-- With a limit of 17 bytes, which is what the header has, the first of these chunks is an error. -/
theorem header_cut_refused :
    ¬ ∀ (limits : FrameLimits) (frames : List Frame) (cs : List (List UInt8)),
      (∀ f ∈ frames, encodeFrame f.body limits = some (.ok f.encoded)) →
        cs.flatten = stream frames → Framing.run push (new limits) cs = (frames, none) := by
  intro h
  have hrun := h ⟨17, 8, by decide, by decide⟩ [⟨[97, 98]⟩]
    [header 2 ++ [13], [10, 13, 10, 97, 98]] (by decide) (by decide)
  exact absurd (congrArg Prod.snd hrun) (by decide)

end FrameDecoder

end Strukt.Language
