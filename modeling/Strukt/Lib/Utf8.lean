import Strukt.Lib.Framing
import Mathlib

/-!
# UTF-8 read from the front

Lists of bytes are read character by character. `framing` is the framing of characters by their
encodings, so that what is left of some bytes can be read on when more come
(`Framing.drain_append`).

* **Decoding** (`decodeChar_eq_some`): the character whose encoding the bytes start with.
* **Parts of a character** (`begins`): bytes that are cut within a character. No other bytes that
  do not start with a character are completed by more (`next_append`).
* **Texts** (`fromUTF8?_eq`): bytes are valid where nothing is left of them.
-/

namespace Strukt.Utf8

open String (utf8EncodeChar)

def isContinuation (b : UInt8) : Bool := 0x80 ≤ b && b ≤ 0xbf

/-- Whether the byte may come second. -/
def isSecond (first second : UInt8) : Bool :=
  if first = 0xe0 then 0xa0 ≤ second && second ≤ 0xbf
  else if first = 0xed then 0x80 ≤ second && second ≤ 0x9f
  else if first = 0xf0 then 0x90 ≤ second && second ≤ 0xbf
  else if first = 0xf4 then 0x80 ≤ second && second ≤ 0x8f
  else isContinuation second

/-- Whether the bytes are a part of a character, from its first byte on. -/
def begins : List UInt8 → Bool
  | [] => true
  | [a] => 0xc2 ≤ a && a ≤ 0xf4
  | [a, b] => 0xe0 ≤ a && a ≤ 0xf4 && isSecond a b
  | [a, b, c] => 0xf0 ≤ a && a ≤ 0xf4 && isSecond a b && isContinuation c
  | _ => false

/-- The character that the bytes start with. -/
def decodeChar (bytes : List UInt8) : Option Char := ByteArray.utf8DecodeChar? ⟨bytes.toArray⟩ 0

/-! ## Parts of a character -/

section Begins

variable {a b : UInt8} {bytes : List UInt8} {c : Char}

theorem isContinuation_iff : isContinuation b = true ↔ 0x80 ≤ b.toNat ∧ b.toNat ≤ 0xbf := by
  simp [isContinuation, UInt8.le_iff_toNat_le]

theorem isSecond_iff : isSecond a b = true ↔
    if a.toNat = 0xe0 then 0xa0 ≤ b.toNat ∧ b.toNat ≤ 0xbf
    else if a.toNat = 0xed then 0x80 ≤ b.toNat ∧ b.toNat ≤ 0x9f
    else if a.toNat = 0xf0 then 0x90 ≤ b.toNat ∧ b.toNat ≤ 0xbf
    else if a.toNat = 0xf4 then 0x80 ≤ b.toNat ∧ b.toNat ≤ 0x8f
    else 0x80 ≤ b.toNat ∧ b.toNat ≤ 0xbf := by
  have he (n : UInt8) : a = n ↔ a.toNat = n.toNat := UInt8.toNat_inj.symm
  simp only [isSecond, isContinuation, he, UInt8.le_iff_toNat_le]
  split_ifs <;> simp_all

/-- The bytes of a character before its last one are a part of it. -/
theorem begins_of_part (h : bytes <+: utf8EncodeChar c) (hne : bytes ≠ utf8EncodeChar c) :
    begins bytes = true := by
  obtain ⟨rest, hrest⟩ := h
  have hrest' : rest ≠ [] := by
    rintro rfl
    exact hne (by rw [← hrest, List.append_nil])
  have hvalid : c.val.toNat < 0xd800 ∨ 0xdfff < c.val.toNat ∧ c.val.toNat < 0x110000 := c.valid
  clear hne
  rw [utf8EncodeChar] at hrest
  generalize c.val.toNat = v at *
  rcases bytes with _ | ⟨x, _ | ⟨y, _ | ⟨z, _ | ⟨t, bytes⟩⟩⟩⟩
  · rfl
  · split_ifs at hrest
    · simp_all
    all_goals
      simp only [List.cons_append, List.cons.injEq] at hrest
      obtain ⟨rfl, -⟩ := hrest
      simp [begins, UInt8.le_iff_toNat_le]
      omega
  · split_ifs at hrest
    · cases hrest
    · simp_all
    all_goals
      simp only [List.cons_append, List.cons.injEq] at hrest
      obtain ⟨rfl, rfl, -⟩ := hrest
      simp [begins, isSecond_iff, UInt8.le_iff_toNat_le]
      split_ifs <;> omega
  · split_ifs at hrest
    · cases hrest
    · cases hrest
    · simp_all
    · simp only [List.cons_append, List.cons.injEq] at hrest
      obtain ⟨rfl, rfl, rfl, -⟩ := hrest
      simp [begins, isSecond_iff, isContinuation_iff, UInt8.le_iff_toNat_le]
      split_ifs <;> omega
  · split_ifs at hrest <;> simp_all

end Begins

/-! ## Decoding -/

section Decode

variable {bytes rest : List UInt8} {c : Char}

theorem ofArray_eq (bytes : List UInt8) : (⟨bytes.toArray⟩ : ByteArray) = bytes.toByteArray :=
  ByteArray.ext (by simp)

theorem decodeChar_eq_some : decodeChar bytes = some c ↔ utf8EncodeChar c <+: bytes := by
  constructor
  · intro h
    obtain ⟨rest, hrest⟩ := ByteArray.exists_of_utf8DecodeChar?_eq_some h
    refine ⟨rest.data.toList, ?_⟩
    have hdata := congrArg (·.data.toList) hrest
    simpa using hdata.symm
  · rintro ⟨rest, rfl⟩
    rw [decodeChar, ofArray_eq, List.toByteArray_append]
    exact ByteArray.utf8DecodeChar?_utf8EncodeChar_append

theorem length_encode_pos : 0 < (utf8EncodeChar c).length := by
  rw [String.length_utf8EncodeChar]
  exact c.utf8Size_pos

/-- The framing of characters. -/
def framing : Framing UInt8 Char Unit where
  next bytes :=
    match decodeChar bytes with
    | some c => .frame c c.utf8Size
    | none => if begins bytes then .more else .failed ()
  bounded bytes c n h := by
    cases hc : decodeChar bytes with
    | none =>
      simp only [hc] at h
      split at h <;> cases h
    | some d =>
      simp only [hc] at h
      cases h
      rw [← String.length_utf8EncodeChar]
      exact ⟨length_encode_pos, (decodeChar_eq_some.mp hc).length_le⟩
  stable bytes rest c n h := by
    cases hc : decodeChar bytes with
    | none =>
      simp only [hc] at h
      split at h <;> cases h
    | some d =>
      simp only [hc] at h
      cases h
      have hmore := decodeChar_eq_some.mpr
        ((decodeChar_eq_some.mp hc).trans (List.prefix_append bytes rest))
      simp only [hmore]

theorem framing_next_some (h : decodeChar bytes = some c) :
    framing.next bytes = .frame c c.utf8Size := by
  simp only [framing, h]

theorem isFrame_iff : (framing.next bytes).IsFrame ↔ ∃ c, utf8EncodeChar c <+: bytes := by
  cases h : decodeChar bytes with
  | some c =>
    rw [framing_next_some h]
    exact iff_of_true trivial ⟨c, decodeChar_eq_some.mp h⟩
  | none =>
    refine iff_of_false ?_ ?_
    · simp only [framing, h]
      split <;> exact id
    · rintro ⟨c, hc⟩
      rw [decodeChar_eq_some.mpr hc] at h
      cases h

/-- Bytes that are no part of a character do not become one by more bytes. -/
theorem next_append (h : ¬(framing.next bytes).IsFrame) (hb : begins bytes = false)
    (rest : List UInt8) : ¬(framing.next (bytes ++ rest)).IsFrame := by
  rw [isFrame_iff] at h ⊢
  rintro ⟨c, hc⟩
  rcases List.prefix_or_prefix_of_prefix hc (List.prefix_append bytes rest) with hle | hle
  · exact h ⟨c, hle⟩
  · have hne : bytes ≠ utf8EncodeChar c := fun heq => h ⟨c, heq ▸ List.prefix_rfl⟩
    rw [begins_of_part hle hne] at hb
    cases hb

theorem reads (c : Char) : framing.Reads utf8EncodeChar c := by
  refine ⟨fun t => ?_, fun k hk hframe => ?_⟩
  · rw [framing_next_some (decodeChar_eq_some.mpr (List.prefix_append _ t)),
      String.length_utf8EncodeChar]
  · obtain ⟨d, hd⟩ := isFrame_iff.mp hframe
    have hle := hd.length_le
    have hc := decodeChar_eq_some.mpr (List.prefix_rfl (l := utf8EncodeChar c))
    rw [decodeChar_eq_some.mpr (hd.trans (List.take_prefix k _))] at hc
    cases hc
    rw [List.length_take] at hle
    omega

/-- What the encodings of characters are read as. -/
theorem drain_encode (cs : List Char) : framing.drain (cs.flatMap utf8EncodeChar) = (cs, []) := by
  induction cs with
  | nil => exact framing.drain_nil
  | cons c cs ih =>
    rw [List.flatMap_cons, framing.drain_frame ((reads c).whole _), List.drop_left, ih]

/-- Bytes are the characters that are read of them, and what is left. -/
theorem encode_drain (bytes : List UInt8) :
    (framing.drain bytes).1.flatMap utf8EncodeChar ++ (framing.drain bytes).2 = bytes := by
  induction bytes using framing.drain_induction with
  | stop bytes h =>
    rw [framing.drain_stop h]
    rfl
  | frame bytes c n h ih =>
    have hc : decodeChar bytes = some c ∧ n = c.utf8Size := by
      cases hd : decodeChar bytes with
      | none =>
        simp only [framing, hd] at h
        split at h <;> cases h
      | some d =>
        rw [framing_next_some hd] at h
        cases h
        exact ⟨rfl, rfl⟩
    obtain ⟨rest, rfl⟩ := decodeChar_eq_some.mp hc.1
    rw [hc.2, ← String.length_utf8EncodeChar, List.drop_left] at ih
    rw [framing.drain_frame ((reads c).whole rest), List.drop_left]
    dsimp only
    rw [List.flatMap_cons, List.append_assoc, ih]

/-- The text of valid bytes. -/
theorem fromUTF8?_eq (bytes : List UInt8) : String.fromUTF8? ⟨bytes.toArray⟩ =
    if (framing.drain bytes).2 = [] then some (String.ofList (framing.drain bytes).1)
    else none := by
  have hencode (cs : List Char) : (cs.utf8Encode).data.toList = cs.flatMap utf8EncodeChar := by
    rw [List.utf8Encode, List.data_toByteArray]
  unfold String.fromUTF8?
  by_cases hrest : (framing.drain bytes).2 = []
  · have hbytes := encode_drain bytes
    rw [hrest, List.append_nil, ← hencode] at hbytes
    have heq : (⟨bytes.toArray⟩ : ByteArray) = (framing.drain bytes).1.utf8Encode :=
      congrArg (fun l => (⟨List.toArray l⟩ : ByteArray)) hbytes.symm
    rw [if_pos hrest, dif_pos (heq ▸ ByteArray.isValidUTF8_utf8Encode)]
    exact congrArg some (String.toByteArray_inj.mp heq)
  · rw [if_neg hrest, dif_neg]
    rintro ⟨cs, hcs⟩
    have hbytes := congrArg (·.data.toList) hcs
    dsimp only at hbytes
    rw [hencode] at hbytes
    rw [hbytes, drain_encode] at hrest
    exact hrest rfl

end Decode

end Strukt.Utf8
