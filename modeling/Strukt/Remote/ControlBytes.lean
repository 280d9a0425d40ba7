import Strukt.Prim

/-!
# Records of tmux's control mode

tmux writes the output of a pane in a record in which some bytes are escaped: a backslash and the
three octal digits of the byte. `decodeControlBytes` undoes that, and also reads a doubled backslash
as one. It computes the byte in `u8`, where an escape from `\400` on does not fit.

* **Arithmetic** (`mulU8`, `addU8`): an operation that overflows panics in a build with overflow
  checks, which a `none` is here, and wraps in one without.
* **Reference** (`Denotes`): the bytes that an encoding stands for.
* **Exactness** (`control_law`): the decoder does not overflow, and returns what the encoding stands
  for or an error, exactly where no escape above `\377` follows a well-formed start (`OverRange`).
-/

namespace Strukt.Remote

inductive TmuxError where
  | invalidTarget
  | controlRecordTooLarge
  | malformedControlRecord
  deriving DecidableEq

/-! ## Decoding -/

def mulU8 (checks : Bool) (a b : UInt8) : Option UInt8 :=
  if checks ∧ 255 < a.toNat * b.toNat then none else some (a * b)

def addU8 (checks : Bool) (a b : UInt8) : Option UInt8 :=
  if checks ∧ 255 < a.toNat + b.toNat then none else some (a + b)

def isOctalDigit (b : UInt8) : Bool := 48 ≤ b ∧ b ≤ 55

/-- The byte of three octal digits. The subtractions do not overflow. -/
def octalByte (checks : Bool) (o₀ o₁ o₂ : UInt8) : Option UInt8 := do
  let high ← mulU8 checks (o₀ - 48) 64
  let middle ← mulU8 checks (o₁ - 48) 8
  let sum ← addU8 checks high middle
  addU8 checks sum (o₂ - 48)

/-- The loop, from the bytes decoded so far and the rest of the encoding. -/
def decodeFrom (checks : Bool) (decoded : List UInt8) :
    List UInt8 → Option (Except TmuxError (List UInt8))
  | [] => some (.ok decoded)
  | b :: rest =>
    if b ≠ 92 then decodeFrom checks (decoded ++ [b]) rest
    else
      match rest with
      | [] => some (.error .malformedControlRecord)
      | o₀ :: rest =>
        if o₀ = 92 then decodeFrom checks (decoded ++ [92]) rest
        else
          match rest with
          | o₁ :: o₂ :: rest =>
            if isOctalDigit o₀ ∧ isOctalDigit o₁ ∧ isOctalDigit o₂ then
              (octalByte checks o₀ o₁ o₂).bind fun b => decodeFrom checks (decoded ++ [b]) rest
            else some (.error .malformedControlRecord)
          | _ => some (.error .malformedControlRecord)

def decodeControlBytes (checks : Bool) (encoded : List UInt8) :
    Option (Except TmuxError (List UInt8)) :=
  decodeFrom checks [] encoded

/-! ## The reference -/

/-- The number of three octal digits. -/
def octalNumber (o₀ o₁ o₂ : UInt8) : Nat :=
  (o₀.toNat - 48) * 64 + (o₁.toNat - 48) * 8 + (o₂.toNat - 48)

/-- What an encoding stands for. -/
inductive Denotes : List UInt8 → List UInt8 → Prop
  | nil : Denotes [] []
  | byte {b : UInt8} {e d : List UInt8} : b ≠ 92 → Denotes e d → Denotes (b :: e) (b :: d)
  | backslash {e d : List UInt8} : Denotes e d → Denotes (92 :: 92 :: e) (92 :: d)
  | octal {o₀ o₁ o₂ b : UInt8} {e d : List UInt8} :
    isOctalDigit o₀ = true → isOctalDigit o₁ = true → isOctalDigit o₂ = true →
      b.toNat = octalNumber o₀ o₁ o₂ → Denotes e d → Denotes (92 :: o₀ :: o₁ :: o₂ :: e) (b :: d)

/-- A well-formed start, and after it an escape whose number is not of a byte. -/
def OverRange (encoded : List UInt8) : Prop :=
  ∃ start decoded o₀ o₁ o₂ rest, encoded = start ++ 92 :: o₀ :: o₁ :: o₂ :: rest ∧
    Denotes start decoded ∧ isOctalDigit o₀ = true ∧ isOctalDigit o₁ = true ∧
    isOctalDigit o₂ = true ∧ 255 < octalNumber o₀ o₁ o₂

/-- Whether tmux escapes the byte. -/
def escaped (b : UInt8) : Bool := b = 92 || b < 32 || b = 127

/-- What tmux writes for the bytes. -/
def encodeControlBytes : List UInt8 → List UInt8
  | [] => []
  | b :: rest =>
    (if escaped b then [92, b / 64 + 48, b / 8 % 8 + 48, b % 8 + 48] else [b]) ++
      encodeControlBytes rest

/-! ## One escape -/

theorem octalDigit_bounds {o : UInt8} (h : isOctalDigit o = true) :
    48 ≤ o.toNat ∧ o.toNat ≤ 55 := by
  obtain ⟨h₁, h₂⟩ := of_decide_eq_true h
  exact ⟨UInt8.le_iff_toNat_le.mp h₁, UInt8.le_iff_toNat_le.mp h₂⟩

theorem octalDigit_ne {o : UInt8} (h : isOctalDigit o = true) : o ≠ 92 := by
  rintro rfl
  exact absurd h (by decide)

theorem digit_toNat {o : UInt8} (h : isOctalDigit o = true) :
    (o - 48).toNat = o.toNat - 48 := by
  obtain ⟨h₁, h₂⟩ := octalDigit_bounds h
  rw [UInt8.toNat_sub, show (48 : UInt8).toNat = 48 from rfl]
  omega

theorem mulU8_some {a b c : UInt8} (h : c.toNat = a.toNat * b.toNat) :
    mulU8 true a b = some c := by
  have hc := c.toNat_lt
  rw [mulU8, if_neg (by omega), Option.some.injEq, ← UInt8.toNat_inj, UInt8.toNat_mul, h]
  exact Nat.mod_eq_of_lt (by omega)

theorem addU8_some {a b c : UInt8} (h : c.toNat = a.toNat + b.toNat) :
    addU8 true a b = some c := by
  have hc := c.toNat_lt
  rw [addU8, if_neg (by omega), Option.some.injEq, ← UInt8.toNat_inj, UInt8.toNat_add, h]
  exact Nat.mod_eq_of_lt (by omega)

theorem octalByte_none {o₀ o₁ o₂ : UInt8} (h₀ : isOctalDigit o₀ = true)
    (h₁ : isOctalDigit o₁ = true) (h₂ : isOctalDigit o₂ = true)
    (h : 255 < octalNumber o₀ o₁ o₂) : octalByte true o₀ o₁ o₂ = none := by
  obtain ⟨l₁, u₁⟩ := octalDigit_bounds h₁
  obtain ⟨l₂, u₂⟩ := octalDigit_bounds h₂
  unfold octalNumber at h
  -- The lower two digits make at most 63, so it is the product by 64 that overflows.
  have hmul : 255 < (o₀ - 48).toNat * (64 : UInt8).toNat := by
    rw [digit_toNat h₀, show (64 : UInt8).toNat = 64 from rfl]
    omega
  rw [octalByte, mulU8, if_pos ⟨rfl, hmul⟩]
  rfl

theorem octalByte_some {o₀ o₁ o₂ b : UInt8} (h₀ : isOctalDigit o₀ = true)
    (h₁ : isOctalDigit o₁ = true) (h₂ : isOctalDigit o₂ = true)
    (h : b.toNat = octalNumber o₀ o₁ o₂) : octalByte true o₀ o₁ o₂ = some b := by
  obtain ⟨l₀, u₀⟩ := octalDigit_bounds h₀
  obtain ⟨l₁, u₁⟩ := octalDigit_bounds h₁
  obtain ⟨l₂, u₂⟩ := octalDigit_bounds h₂
  have hb := b.toNat_lt
  unfold octalNumber at h
  have hhigh : mulU8 true (o₀ - 48) 64 = some (UInt8.ofNat ((o₀.toNat - 48) * 64)) := by
    refine mulU8_some ?_
    rw [digit_toNat h₀, UInt8.toNat_ofNat', show (64 : UInt8).toNat = 64 from rfl]
    omega
  have hmiddle : mulU8 true (o₁ - 48) 8 = some (UInt8.ofNat ((o₁.toNat - 48) * 8)) := by
    refine mulU8_some ?_
    rw [digit_toNat h₁, UInt8.toNat_ofNat', show (8 : UInt8).toNat = 8 from rfl]
    omega
  have hsum : addU8 true (UInt8.ofNat ((o₀.toNat - 48) * 64)) (UInt8.ofNat ((o₁.toNat - 48) * 8)) =
      some (UInt8.ofNat ((o₀.toNat - 48) * 64 + (o₁.toNat - 48) * 8)) := by
    refine addU8_some ?_
    simp only [UInt8.toNat_ofNat']
    omega
  have hbyte : addU8 true (UInt8.ofNat ((o₀.toNat - 48) * 64 + (o₁.toNat - 48) * 8)) (o₂ - 48) =
      some b := by
    refine addU8_some ?_
    rw [digit_toNat h₂, UInt8.toNat_ofNat']
    omega
  simp only [octalByte, hhigh, hmiddle, hsum, hbyte, Option.bind_eq_bind, Option.bind_some]

/-! ## What the decoder returns -/

variable {encoded decoded start rest d bytes : List UInt8}

theorem decodeFrom_byte {b : UInt8} (hb : b ≠ 92) :
    decodeFrom true decoded (b :: rest) = decodeFrom true (decoded ++ [b]) rest := by
  rw [decodeFrom.eq_def]
  exact if_pos hb

theorem decodeFrom_backslash :
    decodeFrom true decoded (92 :: 92 :: rest) = decodeFrom true (decoded ++ [92]) rest := by
  rw [decodeFrom.eq_def]
  rfl

theorem decodeFrom_octal {o₀ o₁ o₂ : UInt8} (h₀ : isOctalDigit o₀ = true)
    (h₁ : isOctalDigit o₁ = true) (h₂ : isOctalDigit o₂ = true) :
    decodeFrom true decoded (92 :: o₀ :: o₁ :: o₂ :: rest) =
      (octalByte true o₀ o₁ o₂).bind fun b => decodeFrom true (decoded ++ [b]) rest := by
  rw [decodeFrom.eq_def]
  exact (if_neg (octalDigit_ne h₀)).trans (if_pos ⟨h₀, h₁, h₂⟩)

/-- A well-formed start is decoded, and then the rest. -/
theorem decodeFrom_append (h : Denotes start d) :
    decodeFrom true decoded (start ++ rest) = decodeFrom true (decoded ++ d) rest := by
  induction h generalizing decoded with
  | nil => rw [List.append_nil, List.nil_append]
  | byte hb _ ih =>
    rw [List.cons_append, decodeFrom_byte hb, ih, List.append_assoc]
    rfl
  | backslash _ ih =>
    rw [List.cons_append, List.cons_append, decodeFrom_backslash, ih, List.append_assoc]
    rfl
  | octal h₀ h₁ h₂ hb _ ih =>
    simp only [List.cons_append]
    rw [decodeFrom_octal h₀ h₁ h₂, octalByte_some h₀ h₁ h₂ hb, Option.bind_some, ih,
      List.append_assoc]
    rfl

theorem Denotes.append {e e' d' : List UInt8} (h : Denotes e d) (h' : Denotes e' d') :
    Denotes (e ++ e') (d ++ d') := by
  induction h with
  | nil => exact h'
  | byte hb _ ih => exact .byte hb ih
  | backslash _ ih => exact .backslash ih
  | octal h₀ h₁ h₂ hb _ ih => exact .octal h₀ h₁ h₂ hb ih

/-- What the loop makes of an encoding: it overflows at an escape that is over range, or ends in an
error, or decodes what the encoding stands for. -/
def Decoded (decoded encoded : List UInt8) : Prop :=
  (decodeFrom true decoded encoded = none ∧ OverRange encoded) ∨
    (∃ e, decodeFrom true decoded encoded = some (.error e)) ∨
    ∃ d, decodeFrom true decoded encoded = some (.ok (decoded ++ d)) ∧ Denotes encoded d

theorem Decoded.after (hstart : Denotes start d) (h : Decoded (decoded ++ d) rest) :
    Decoded decoded (start ++ rest) := by
  unfold Decoded
  rw [decodeFrom_append hstart]
  rcases h with ⟨hnone, start', d', o₀, o₁, o₂, rest', rfl, hd', hover⟩ | herror | ⟨d', hok, hd'⟩
  · refine .inl ⟨hnone, start ++ start', d ++ d', o₀, o₁, o₂, rest', ?_, hstart.append hd', hover⟩
    rw [List.append_assoc]
  · exact .inr (.inl herror)
  · refine .inr (.inr ⟨d ++ d', ?_, hstart.append hd'⟩)
    rw [hok, List.append_assoc]

theorem decodeFrom_cases : Decoded decoded encoded := by
  induction decoded, encoded using decodeFrom.induct with
  | case1 decoded => exact .inr (.inr ⟨[], by rw [decodeFrom, List.append_nil], .nil⟩)
  | case2 decoded b rest hb ih => exact Decoded.after (.byte hb .nil) ih
  | case3 decoded b hb =>
    obtain rfl := not_not.mp hb
    exact .inr (.inl ⟨.malformedControlRecord, by rw [decodeFrom.eq_def]; rfl⟩)
  | case4 decoded b hb rest ih =>
    obtain rfl := not_not.mp hb
    exact Decoded.after (.backslash .nil) ih
  | case5 decoded b hb o₀ hne o₁ o₂ rest hdigits ih =>
    obtain rfl := not_not.mp hb
    obtain ⟨h₀, h₁, h₂⟩ := hdigits
    by_cases hrange : 255 < octalNumber o₀ o₁ o₂
    · refine .inl ⟨?_, [], [], o₀, o₁, o₂, rest, rfl, .nil, h₀, h₁, h₂, hrange⟩
      rw [decodeFrom_octal h₀ h₁ h₂, octalByte_none h₀ h₁ h₂ hrange, Option.bind_none]
    · have hb : (UInt8.ofNat (octalNumber o₀ o₁ o₂)).toNat = octalNumber o₀ o₁ o₂ := by
        rw [UInt8.toNat_ofNat']
        exact Nat.mod_eq_of_lt (by omega)
      exact Decoded.after (.octal h₀ h₁ h₂ hb .nil) (ih _)
  | case6 decoded b hb o₀ hne o₁ o₂ rest hdigits =>
    obtain rfl := not_not.mp hb
    refine .inr (.inl ⟨.malformedControlRecord, ?_⟩)
    rw [decodeFrom.eq_def]
    exact (if_neg hne).trans (if_neg hdigits)
  | case7 decoded b hb o₀ rest hne hrest =>
    obtain rfl := not_not.mp hb
    refine .inr (.inl ⟨.malformedControlRecord, ?_⟩)
    rw [decodeFrom.eq_def]
    refine (if_neg hne).trans ?_
    split
    · exact absurd rfl (hrest _ _ _)
    · rfl

theorem Denotes.decode (h : Denotes encoded d) :
    decodeControlBytes true encoded = some (.ok d) := by
  have happ : decodeFrom true [] (encoded ++ []) = decodeFrom true ([] ++ d) [] :=
    decodeFrom_append h
  rwa [List.append_nil, decodeFrom] at happ

theorem OverRange.decode (h : OverRange encoded) : decodeControlBytes true encoded = none := by
  obtain ⟨start, d, o₀, o₁, o₂, rest, rfl, hd, h₀, h₁, h₂, hrange⟩ := h
  rw [decodeControlBytes, decodeFrom_append hd, decodeFrom_octal h₀ h₁ h₂,
    octalByte_none h₀ h₁ h₂ hrange, Option.bind_none]

/-! ## What tmux writes -/

theorem digit_of_lt {b : UInt8} (h : b.toNat < 8) :
    (b + 48).toNat = b.toNat + 48 ∧ isOctalDigit (b + 48) = true := by
  have heq : (b + 48).toNat = b.toNat + 48 := by
    rw [UInt8.toNat_add, show (48 : UInt8).toNat = 48 from rfl]
    omega
  refine ⟨heq, decide_eq_true ⟨UInt8.le_iff_toNat_le.mpr ?_, UInt8.le_iff_toNat_le.mpr ?_⟩⟩
  · rw [heq]
    exact Nat.le_add_left ..
  · rw [heq]
    exact Nat.add_le_add_right (Nat.le_of_lt_succ h) 48

theorem denotes_encode : Denotes (encodeControlBytes bytes) bytes := by
  induction bytes with
  | nil => exact .nil
  | cons b rest ih =>
    rw [encodeControlBytes]
    by_cases hb : escaped b = true
    · have hlt := b.toNat_lt
      have e₀ : (b / 64).toNat = b.toNat / 64 := rfl
      have e₁ : (b / 8 % 8).toNat = b.toNat / 8 % 8 := rfl
      have e₂ : (b % 8).toNat = b.toNat % 8 := rfl
      obtain ⟨n₀, h₀⟩ := digit_of_lt (b := b / 64) (by omega)
      obtain ⟨n₁, h₁⟩ := digit_of_lt (b := b / 8 % 8) (by omega)
      obtain ⟨n₂, h₂⟩ := digit_of_lt (b := b % 8) (by omega)
      rw [if_pos hb]
      refine .octal h₀ h₁ h₂ ?_ ih
      rw [octalNumber, n₀, n₁, n₂]
      omega
    · rw [if_neg hb]
      exact .byte (fun he => hb (by rw [he]; rfl)) ih

/-! ## Exactness -/

/-- The decoder does not overflow, and returns what the encoding stands for where it returns bytes,
exactly where no escape is over range; and it returns what tmux encoded. -/
theorem control_law (encoded bytes : List UInt8) :
    ((∃ r, decodeControlBytes true encoded = some r ∧ ∀ d, r = .ok d → Denotes encoded d) ↔
      ¬OverRange encoded) ∧
    decodeControlBytes true (encodeControlBytes bytes) = some (.ok bytes) := by
  refine ⟨⟨?_, fun h => ?_⟩, denotes_encode.decode⟩
  · rintro ⟨r, hr, -⟩ hover
    rw [hover.decode] at hr
    cases hr
  · have hcases : Decoded [] encoded := decodeFrom_cases
    rcases hcases with ⟨-, hover⟩ | ⟨e, herror⟩ | ⟨d, hok, hd⟩
    · exact absurd hover h
    · exact ⟨_, herror, fun d hd => by cases hd⟩
    · exact ⟨_, hok, fun d' hd' => by cases hd'; exact hd⟩

/-- `\400` overflows. -/
theorem escape_overflows :
    ¬∃ r, decodeControlBytes true [92, 52, 48, 48] = some r ∧
      ∀ d, r = .ok d → Denotes [92, 52, 48, 48] d := by
  rintro ⟨r, hr, -⟩
  exact absurd hr (by rw [show decodeControlBytes true [92, 52, 48, 48] = none from rfl]; simp)

end Strukt.Remote
