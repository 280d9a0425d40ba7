import Strukt.Lib.Utf8

/-!
# Texts of bytes that may be invalid

`fromUtf8Lossy` reads bytes as characters, and puts U+FFFD for what is not one.

* **Characters first** (`lossy_encode_append`): encoded characters are read back.
* **Nothing replaced** (`encode_lossy`): where the text has no U+FFFD, its encoding is the bytes.
-/

namespace Strukt

open String (utf8EncodeChar)

/-- How many of the bytes are replaced by one character: the longest part of a character. -/
def partLength (bytes : List UInt8) : Nat :=
  if 3 ≤ bytes.length ∧ Utf8.begins (bytes.take 3) then 3
  else if 2 ≤ bytes.length ∧ Utf8.begins (bytes.take 2) then 2
  else 1

/-- The characters after the first `skip` bytes, which were read before. -/
def decodeLossy : Nat → List UInt8 → List Char
  | _, [] => []
  | skip + 1, _ :: bytes => decodeLossy skip bytes
  | 0, b :: bytes =>
    match Utf8.decodeChar (b :: bytes) with
    | some c => c :: decodeLossy (c.utf8Size - 1) bytes
    | none => '\ufffd' :: decodeLossy (partLength (b :: bytes) - 1) bytes

/-- `String::from_utf8_lossy`. -/
def fromUtf8Lossy (bytes : List UInt8) : List Char := decodeLossy 0 bytes

variable {bytes rest : List UInt8} {c : Char}

theorem decodeLossy_skip (skip : Nat) (bytes : List UInt8) :
    decodeLossy skip bytes = fromUtf8Lossy (bytes.drop skip) := by
  induction bytes generalizing skip with
  | nil =>
    rw [List.drop_nil]
    cases skip <;> rfl
  | cons b bytes ih =>
    cases skip with
    | zero => rfl
    | succ skip => exact ih skip

theorem lossy_nil : fromUtf8Lossy [] = [] := rfl

/-- An encoded character is read, and what follows it. -/
theorem lossy_encodeChar (c : Char) (rest : List UInt8) :
    fromUtf8Lossy (utf8EncodeChar c ++ rest) = c :: fromUtf8Lossy rest := by
  have hdecode : Utf8.decodeChar (utf8EncodeChar c ++ rest) = some c :=
    Utf8.decodeChar_eq_some.mpr (List.prefix_append _ _)
  have hlen : (utf8EncodeChar c).length = c.utf8Size := String.length_utf8EncodeChar c
  cases hbytes : utf8EncodeChar c with
  | nil =>
    have hpos := Utf8.length_encode_pos (c := c)
    rw [hbytes, List.length_nil] at hpos
    omega
  | cons b bytes =>
    rw [hbytes] at hdecode hlen
    rw [List.cons_append] at hdecode ⊢
    unfold fromUtf8Lossy
    rw [decodeLossy]
    simp only [hdecode]
    have hskip : c.utf8Size - 1 = bytes.length := by
      rw [← hlen, List.length_cons, Nat.add_sub_cancel]
    rw [hskip, decodeLossy_skip, List.drop_left]
    rfl

theorem lossy_encode_append (cs : List Char) (rest : List UInt8) :
    fromUtf8Lossy (cs.flatMap utf8EncodeChar ++ rest) = cs ++ fromUtf8Lossy rest := by
  induction cs with
  | nil => rfl
  | cons c cs ih =>
    rw [List.flatMap_cons, List.append_assoc, lossy_encodeChar, ih, List.cons_append]

theorem lossy_encode (cs : List Char) : fromUtf8Lossy (cs.flatMap utf8EncodeChar) = cs := by
  have h := lossy_encode_append cs []
  rwa [List.append_nil, lossy_nil, List.append_nil] at h

/-- Bytes begin with a character, or are replaced at least one by one. -/
theorem lossy_cases (bytes : List UInt8) (hne : bytes ≠ []) :
    (∃ c rest, bytes = utf8EncodeChar c ++ rest ∧ fromUtf8Lossy bytes = c :: fromUtf8Lossy rest) ∨
      ∃ n, fromUtf8Lossy bytes = '\ufffd' :: fromUtf8Lossy (bytes.drop (n + 1)) := by
  cases hdecode : Utf8.decodeChar bytes with
  | some c =>
    obtain ⟨rest, rfl⟩ := Utf8.decodeChar_eq_some.mp hdecode
    exact .inl ⟨c, rest, rfl, lossy_encodeChar c rest⟩
  | none =>
    cases bytes with
    | nil => exact absurd rfl hne
    | cons b bytes =>
      refine .inr ⟨partLength (b :: bytes) - 1, ?_⟩
      rw [List.drop_succ_cons, ← decodeLossy_skip, fromUtf8Lossy, decodeLossy]
      simp only [hdecode]

/-- Without a replacement the bytes are the encoding of the text. -/
theorem encode_lossy (bytes : List UInt8) (h : '\ufffd' ∉ fromUtf8Lossy bytes) :
    (fromUtf8Lossy bytes).flatMap utf8EncodeChar = bytes := by
  induction hn : bytes.length using Nat.strongRecOn generalizing bytes with
  | ind n ih =>
    by_cases hne : bytes = []
    · rw [hne]
      rfl
    · obtain ⟨c, rest, rfl, hlossy⟩ | ⟨k, hlossy⟩ := lossy_cases bytes hne
      · rw [hlossy] at h ⊢
        have hpos := Utf8.length_encode_pos (c := c)
        have hlt : rest.length < n := by
          rw [← hn, List.length_append]
          omega
        rw [List.flatMap_cons, ih _ hlt rest (fun hmem => h (List.mem_cons_of_mem _ hmem)) rfl]
      · rw [hlossy] at h
        exact absurd List.mem_cons_self h

/-- No character has the byte `ff`, which is replaced by itself. -/
theorem lossy_ff (rest : List UInt8) :
    fromUtf8Lossy (0xff :: rest) = '\ufffd' :: fromUtf8Lossy rest := by
  have hdecode : Utf8.decodeChar (0xff :: rest) = none := by
    rw [Option.eq_none_iff_forall_ne_some]
    intro c hc
    obtain ⟨t, ht⟩ := Utf8.decodeChar_eq_some.mp hc
    have hvalid : c.val.toNat < 0xd800 ∨ 0xdfff < c.val.toNat ∧ c.val.toNat < 0x110000 := c.valid
    rw [utf8EncodeChar] at ht
    generalize c.val.toNat = v at *
    split_ifs at ht
    all_goals
      simp only [List.cons_append, List.cons.injEq] at ht
      have hbyte := congrArg UInt8.toNat ht.1
      simp at hbyte
      omega
  have hpart : partLength (0xff :: rest) = 1 := by
    have hbegins : ∀ l : List UInt8, l ≠ [] → Utf8.begins (0xff :: l) = false := by
      intro l hl
      rcases l with _ | ⟨x, _ | ⟨y, _ | ⟨z, l⟩⟩⟩
      · exact absurd rfl hl
      · rfl
      · rfl
      · rfl
    cases rest with
    | nil => rfl
    | cons x rest =>
      have htwo : Utf8.begins (List.take 2 (0xff :: x :: rest)) = false :=
        hbegins _ (List.cons_ne_nil _ _)
      have hthree : Utf8.begins (List.take 3 (0xff :: x :: rest)) = false :=
        hbegins _ (List.cons_ne_nil _ _)
      unfold partLength
      rw [htwo, hthree, if_neg (fun h => Bool.false_ne_true h.2),
        if_neg (fun h => Bool.false_ne_true h.2)]
  rw [fromUtf8Lossy, decodeLossy]
  simp only [hdecode, hpart]
  rfl

end Strukt
