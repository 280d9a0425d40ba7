import Strukt.Bytes
import Strukt.Language.Client
import Strukt.Lib.Split

/-!
# Positions

* **Columns**: the editor counts the characters of a line (`ScalarPosition`), a server its UTF-8
  bytes or UTF-16 units (`LspPosition`). `Corresponds` relates the two.
* **Conversions**: `toLspPosition` gives the corresponding position wherever its column fits a
  `u32`, `fromLspPosition` wherever there is one (`toLspPosition_eq_ok`, `fromLspPosition_eq_ok`).
* **Round trip**: so each undoes the other, and both are strictly monotone in the column
  (`position_law`).
-/

namespace Strukt.Language

structure ScalarPosition where
  line : UInt32
  character : UInt32
  deriving DecidableEq

inductive PositionError where
  | invalidLine
  | invalidCharacter
  deriving DecidableEq

/-! ## The texts -/

/-- `char::len_utf16`. -/
def lenUtf16 (c : Char) : Nat := if c.toNat < 0x10000 then 1 else 2

/-- `str::char_indices`, of a text that begins at the byte `start`. -/
def charIndices (start : Nat) : List Char → List (Nat × Char)
  | [] => []
  | c :: text => (start, c) :: charIndices (start + c.utf8Size) text

/-- `str::is_char_boundary`. -/
def isCharBoundary (text : List Char) (index : Nat) : Bool := byteLen (takeBytes index text) = index

/-- `str::strip_suffix('\r')`, or else the line. -/
def stripReturn (line : List Char) : List Char :=
  if line.getLast? = some '\r' then line.dropLast else line

/-! ## The conversions -/

def lineAt (text : String) (target : UInt32) : Except PositionError (List Char) :=
  match (text.toList.splitOn '\n')[target.toNat]? with
  | some line => .ok (stripReturn line)
  | none => .error .invalidLine

def scalarToByte (line : List Char) (scalarColumn : Nat) : Except PositionError Nat :=
  if scalarColumn = line.length then .ok (byteLen line)
  else
    match (charIndices 0 line)[scalarColumn]? with
    | some (index, _) => .ok index
    | none => .error .invalidCharacter

/-- The loop of `utf16_to_byte`. -/
def utf16Scan (target len : Nat) : Nat → List (Nat × Char) → Except PositionError Nat
  | units, [] => if target = units then .ok len else .error .invalidCharacter
  | units, (byteIndex, character) :: rest =>
    if target = units then .ok byteIndex
    else if target < units + lenUtf16 character then .error .invalidCharacter
    else utf16Scan target len (units + lenUtf16 character) rest

def utf16ToByte (line : List Char) (target : Nat) : Except PositionError Nat :=
  if target = 0 then .ok 0 else utf16Scan target (byteLen line) 0 (charIndices 0 line)

/-- `u32::try_from`. -/
def u32TryFrom (n : Nat) : Except PositionError UInt32 :=
  if n < 2 ^ 32 then .ok (UInt32.ofNat n) else .error .invalidCharacter

/-- The match of `to_lsp_position`. -/
def encodedColumn (encoding : PositionEncoding) (line : List Char) (byteColumn : Nat) : Nat :=
  match encoding with
  | .utf8 => byteColumn
  | .utf16 => ((takeBytes byteColumn line).map lenUtf16).sum

def toLspPosition (text : String) (position : ScalarPosition) (encoding : PositionEncoding) :
    Except PositionError LspPosition := do
  let line ← lineAt text position.line
  let byteColumn ← scalarToByte line position.character.toNat
  return ⟨position.line, ← u32TryFrom (encodedColumn encoding line byteColumn)⟩

/-- The match of `from_lsp_position`. -/
def targetToByte (encoding : PositionEncoding) (line : List Char) (target : Nat) :
    Except PositionError Nat :=
  match encoding with
  | .utf8 =>
    if target > byteLen line ∨ ¬isCharBoundary line target then .error .invalidCharacter
    else .ok target
  | .utf16 => utf16ToByte line target

def fromLspPosition (text : String) (position : LspPosition) (encoding : PositionEncoding) :
    Except PositionError ScalarPosition := do
  let line ← lineAt text position.line
  let byteColumn ← targetToByte encoding line position.character.toNat
  return ⟨position.line, ← u32TryFrom (takeBytes byteColumn line).length⟩

/-! ## Characters and their units -/

/-- The units of a character. -/
def PositionEncoding.width : PositionEncoding → Char → Nat
  | .utf8 => Char.utf8Size
  | .utf16 => lenUtf16

theorem lenUtf16_pos (c : Char) : 0 < lenUtf16 c := by
  unfold lenUtf16
  split <;> omega

theorem PositionEncoding.width_pos (encoding : PositionEncoding) (c : Char) :
    0 < encoding.width c := by
  cases encoding with
  | utf8 => exact Char.utf8Size_pos c
  | utf16 => exact lenUtf16_pos c

theorem getElem?_charIndices (start : Nat) (text : List Char) (n : Nat) :
    (charIndices start text)[n]? =
      text[n]?.map fun c => (start + column Char.utf8Size text n, c) := by
  induction text generalizing start n with
  | nil => rfl
  | cons c text ih =>
    cases n with
    | zero => rfl
    | succ n =>
      rw [charIndices, List.getElem?_cons_succ, List.getElem?_cons_succ, ih, column_cons_succ,
        Nat.add_assoc]

/-- A boundary is the byte column of a character, or of the end. -/
theorem isCharBoundary_iff {text : List Char} {index : Nat} :
    isCharBoundary text index ↔ ∃ n ≤ text.length, column Char.utf8Size text n = index := by
  unfold isCharBoundary
  rw [decide_eq_true_iff]
  constructor
  · intro h
    have hprefix := takeBytes_isPrefix index text
    refine ⟨(takeBytes index text).length, hprefix.length_le, ?_⟩
    rw [column, ← List.prefix_iff_eq_take.mp hprefix]
    exact h
  · rintro ⟨n, -, rfl⟩
    rw [takeBytes_column]
    rfl

theorem scalarToByte_eq_ok {line : List Char} {n index : Nat} :
    scalarToByte line n = .ok index ↔ n ≤ line.length ∧ index = column Char.utf8Size line n := by
  unfold scalarToByte
  split
  · next heq =>
    subst heq
    rw [byteLen_eq_column]
    exact ⟨fun h => ⟨Nat.le_refl _, (Except.ok.inj h).symm⟩, fun h => h.2 ▸ rfl⟩
  · next hne =>
    rw [getElem?_charIndices]
    by_cases hlt : n < line.length
    · rw [List.getElem?_eq_getElem hlt, Option.map_some, Nat.zero_add]
      exact ⟨fun h => ⟨Nat.le_of_lt hlt, (Except.ok.inj h).symm⟩, fun h => h.2 ▸ rfl⟩
    · rw [List.getElem?_eq_none (Nat.le_of_not_lt hlt)]
      exact ⟨nofun, fun h => absurd h.1 (by omega)⟩

/-- The scan finds the character at which the target is. -/
theorem utf16Scan_eq_ok {target units start index : Nat} {line : List Char} :
    utf16Scan target (start + byteLen line) units (charIndices start line) = .ok index ↔
      ∃ n ≤ line.length, units + column lenUtf16 line n = target ∧
        index = start + column Char.utf8Size line n := by
  induction line generalizing units start with
  | nil =>
    rw [charIndices, utf16Scan]
    split
    · next heq => exact ⟨fun h => ⟨0, Nat.le_refl _, heq.symm, (Except.ok.inj h).symm⟩,
        fun ⟨n, _, _, h⟩ => h ▸ by rw [column_nil]; rfl⟩
    · next hne => exact ⟨nofun, fun ⟨n, _, h, _⟩ => absurd h.symm (by rwa [column_nil])⟩
  | cons c line ih =>
    have hc := lenUtf16_pos c
    rw [charIndices, utf16Scan]
    split
    · next heq =>
      constructor
      · exact fun h => ⟨0, Nat.zero_le _, heq.symm, (Except.ok.inj h).symm⟩
      · rintro ⟨n, hn, h, rfl⟩
        cases n with
        | zero => rfl
        | succ n =>
          rw [column_cons_succ] at h
          omega
    · next hne =>
      split
      · next hlt =>
        refine ⟨nofun, ?_⟩
        rintro ⟨n, hn, h, -⟩
        cases n with
        | zero => exact absurd h.symm hne
        | succ n =>
          rw [column_cons_succ] at h
          omega
      · rw [show start + byteLen (c :: line) = start + c.utf8Size + byteLen line from
          (Nat.add_assoc ..).symm, ih]
        constructor
        · rintro ⟨n, hn, h, rfl⟩
          exact ⟨n + 1, Nat.succ_le_succ hn, by rw [column_cons_succ]; omega,
            by rw [column_cons_succ]; omega⟩
        · rintro ⟨n, hn, h, rfl⟩
          cases n with
          | zero => exact absurd h.symm hne
          | succ n =>
            rw [column_cons_succ] at h
            exact ⟨n, Nat.le_of_succ_le_succ hn, by omega, by rw [column_cons_succ]; omega⟩

theorem utf16Scan_error {target len units : Nat} {indices : List (Nat × Char)} {e : PositionError}
    (h : utf16Scan target len units indices = .error e) : e = .invalidCharacter := by
  induction indices generalizing units with
  | nil =>
    rw [utf16Scan] at h
    split at h
    · cases h
    · exact (Except.error.inj h).symm
  | cons item rest ih =>
    rw [utf16Scan] at h
    split at h
    · cases h
    · split at h
      · exact (Except.error.inj h).symm
      · exact ih h

theorem utf16ToByte_eq_ok {line : List Char} {target index : Nat} :
    utf16ToByte line target = .ok index ↔ ∃ n ≤ line.length, column lenUtf16 line n = target ∧
      index = column Char.utf8Size line n := by
  unfold utf16ToByte
  split
  · next heq =>
    subst heq
    constructor
    · exact fun h => ⟨0, Nat.zero_le _, rfl, (Except.ok.inj h).symm⟩
    · rintro ⟨n, hn, h, rfl⟩
      have := le_column lenUtf16_pos hn
      obtain rfl : n = 0 := by omega
      rfl
  · have := @utf16Scan_eq_ok target 0 0 index line
    simpa only [Nat.zero_add] using this

theorem u32TryFrom_eq_ok {n : Nat} {c : UInt32} : u32TryFrom n = .ok c ↔ c.toNat = n := by
  unfold u32TryFrom
  split
  · next hlt =>
    constructor
    · intro h
      rw [← Except.ok.inj h, UInt32.toNat_ofNat_of_lt' hlt]
    · rintro rfl
      rw [UInt32.ofNat_toNat]
  · next hle => exact ⟨nofun, fun h => absurd (h ▸ c.toNat_lt) hle⟩

/-! ## The conversions, by columns -/

/-- The two positions are on one line, before the same of its characters. -/
def Corresponds (text : String) (encoding : PositionEncoding) (scalar : ScalarPosition)
    (lsp : LspPosition) : Prop :=
  scalar.line = lsp.line ∧ ∃ line, lineAt text scalar.line = .ok line ∧
    scalar.character.toNat ≤ line.length ∧
    column encoding.width line scalar.character.toNat = lsp.character.toNat

theorem encodedColumn_column (encoding : PositionEncoding) (line : List Char) (n : Nat) :
    encodedColumn encoding line (column Char.utf8Size line n) = column encoding.width line n := by
  cases encoding with
  | utf8 => rfl
  | utf16 =>
    rw [encodedColumn, takeBytes_column]
    rfl

theorem toLspPosition_eq_ok {text : String} {encoding : PositionEncoding} {scalar : ScalarPosition}
    {lsp : LspPosition} :
    toLspPosition text scalar encoding = .ok lsp ↔ Corresponds text encoding scalar lsp := by
  unfold toLspPosition
  simp only [bind_eq_ok, scalarToByte_eq_ok, u32TryFrom_eq_ok]
  constructor
  · rintro ⟨line, hline, index, ⟨hn, rfl⟩, c, hc, hlsp⟩
    obtain rfl := Except.ok.inj hlsp
    exact ⟨rfl, line, hline, hn, by rw [← encodedColumn_column]; exact hc.symm⟩
  · rintro ⟨heq, line, hline, hn, hc⟩
    refine ⟨line, hline, _, ⟨hn, rfl⟩, lsp.character, ?_, ?_⟩
    · rw [← hc, ← encodedColumn_column]
    · rw [heq]
      rfl

theorem targetToByte_eq_ok {encoding : PositionEncoding} {line : List Char} {target index : Nat} :
    targetToByte encoding line target = .ok index ↔ ∃ n ≤ line.length,
      column encoding.width line n = target ∧ index = column Char.utf8Size line n := by
  cases encoding with
  | utf16 => exact utf16ToByte_eq_ok
  | utf8 =>
    dsimp only [targetToByte, PositionEncoding.width]
    split
    · next hbad =>
      refine ⟨nofun, ?_⟩
      rintro ⟨n, hn, rfl, -⟩
      rw [byteLen_eq_column] at hbad
      have hle := (column_lt_iff Char.utf8Size_pos (Nat.le_refl _) hn).not.mpr (Nat.not_lt.mpr hn)
      exact (hbad.resolve_left hle (isCharBoundary_iff.mpr ⟨n, hn, rfl⟩)).elim
    · next hgood =>
      obtain ⟨n, hn, hc⟩ := isCharBoundary_iff.mp (not_not.mp (not_or.mp hgood).2)
      constructor
      · exact fun h => ⟨n, hn, hc, by rw [← Except.ok.inj h, hc]⟩
      · rintro ⟨m, -, hm, rfl⟩
        rw [hm]

theorem targetToByte_error {encoding : PositionEncoding} {line : List Char} {target : Nat}
    {e : PositionError} (h : targetToByte encoding line target = .error e) :
    e = .invalidCharacter := by
  cases encoding with
  | utf8 =>
    dsimp only [targetToByte] at h
    split at h
    · exact (Except.error.inj h).symm
    · cases h
  | utf16 =>
    dsimp only [targetToByte, utf16ToByte] at h
    split at h
    · cases h
    · exact utf16Scan_error h

theorem fromLspPosition_eq_ok {text : String} {encoding : PositionEncoding}
    {scalar : ScalarPosition} {lsp : LspPosition} :
    fromLspPosition text lsp encoding = .ok scalar ↔ Corresponds text encoding scalar lsp := by
  unfold fromLspPosition
  simp only [bind_eq_ok, targetToByte_eq_ok, u32TryFrom_eq_ok]
  constructor
  · rintro ⟨line, hline, index, ⟨n, hn, hcolumn, rfl⟩, c, hc, hscalar⟩
    obtain rfl := Except.ok.inj hscalar
    rw [takeBytes_column, List.length_take_of_le hn] at hc
    exact ⟨rfl, line, hline, hc ▸ hn, hc ▸ hcolumn⟩
  · rintro ⟨heq, line, hline, hn, hc⟩
    refine ⟨line, heq ▸ hline, _, ⟨scalar.character.toNat, hn, hc, rfl⟩, scalar.character, ?_, ?_⟩
    · rw [takeBytes_column, List.length_take_of_le hn]
    · rw [← heq]
      rfl

/-- On a line of the text, a target that is at no character is refused as a character. -/
theorem fromLspPosition_error {text : String} {encoding : PositionEncoding} {lsp : LspPosition}
    {line : List Char} (hline : lineAt text lsp.line = .ok line)
    (hno : ∀ n ≤ line.length, column encoding.width line n ≠ lsp.character.toNat) :
    fromLspPosition text lsp encoding = .error .invalidCharacter := by
  unfold fromLspPosition
  rw [hline]
  dsimp only [bind, Except.bind]
  cases htarget : targetToByte encoding line lsp.character.toNat with
  | error e => rw [targetToByte_error htarget]
  | ok index =>
    obtain ⟨n, hn, hc, -⟩ := targetToByte_eq_ok.mp htarget
    exact absurd hc (hno n hn)

/-! ## The law -/

theorem Corresponds.lt_iff {text : String} {encoding : PositionEncoding}
    {scalar scalar' : ScalarPosition} {lsp lsp' : LspPosition}
    (h : Corresponds text encoding scalar lsp) (h' : Corresponds text encoding scalar' lsp')
    (hline : scalar.line = scalar'.line) :
    scalar.character < scalar'.character ↔ lsp.character < lsp'.character := by
  obtain ⟨-, line, hat, hn, hc⟩ := h
  obtain ⟨-, line', hat', hn', hc'⟩ := h'
  rw [hline, hat'] at hat
  obtain rfl := Except.ok.inj hat
  rw [UInt32.lt_iff_toNat_lt, UInt32.lt_iff_toNat_lt, ← hc, ← hc',
    column_lt_iff encoding.width_pos hn hn']

/-- Both conversions relate the corresponding positions, which are as many as fit a `u32`. -/
theorem position_law (text : String) (encoding : PositionEncoding) :
    (∀ scalar lsp, toLspPosition text scalar encoding = .ok lsp →
      fromLspPosition text lsp encoding = .ok scalar) ∧
    (∀ scalar line, lineAt text scalar.line = .ok line → scalar.character.toNat ≤ line.length →
      ((∃ lsp, toLspPosition text scalar encoding = .ok lsp) ↔
        column encoding.width line scalar.character.toNat < 2 ^ 32)) ∧
    (∀ scalar lsp, fromLspPosition text lsp encoding = .ok scalar →
      toLspPosition text scalar encoding = .ok lsp) ∧
    (∀ lsp line n, lineAt text lsp.line = .ok line → n < line.length →
      column encoding.width line n < lsp.character.toNat →
      lsp.character.toNat < column encoding.width line (n + 1) →
      fromLspPosition text lsp encoding = .error .invalidCharacter) ∧
    (∀ scalar scalar' lsp lsp', toLspPosition text scalar encoding = .ok lsp →
      toLspPosition text scalar' encoding = .ok lsp' → scalar.line = scalar'.line →
      scalar.character < scalar'.character → lsp.character < lsp'.character) ∧
    (∀ lsp lsp' scalar scalar', fromLspPosition text lsp encoding = .ok scalar →
      fromLspPosition text lsp' encoding = .ok scalar' → lsp.line = lsp'.line →
      lsp.character < lsp'.character → scalar.character < scalar'.character) := by
  simp only [toLspPosition_eq_ok, fromLspPosition_eq_ok]
  refine ⟨fun _ _ h => h, fun scalar line hline hn => ⟨?_, fun hlt => ?_⟩, fun _ _ h => h,
    fun lsp line n hline hn hlo hhi => ?_, fun _ _ _ _ h h' hline hlt => ?_,
    fun _ _ _ _ h h' hline hlt => ?_⟩
  · rintro ⟨lsp, -, line', hline', -, hc⟩
    obtain rfl := Except.ok.inj (hline.symm.trans hline')
    exact hc ▸ lsp.character.toNat_lt
  · refine ⟨⟨scalar.line, UInt32.ofNat (column encoding.width line scalar.character.toNat)⟩, rfl,
      line, hline, hn, ?_⟩
    rw [UInt32.toNat_ofNat_of_lt' hlt]
  · exact fromLspPosition_error hline (column_ne_of_between encoding.width_pos hn hlo hhi)
  · exact (h.lt_iff h' hline).mp hlt
  · exact (h.lt_iff h' (h.1.trans (hline.trans h'.1.symm))).mpr hlt

theorem lineAt_ofList {line : List Char} (hnewline : '\n' ∉ line) (hreturn : '\r' ∉ line) :
    lineAt (String.ofList line) 0 = .ok line := by
  unfold lineAt
  rw [String.toList_ofList, List.splitOn_eq_singleton hnewline,
    show (0 : UInt32).toNat = 0 from rfl, List.getElem?_cons_zero]
  dsimp only
  rw [stripReturn, if_neg fun h => hreturn (List.mem_of_getLast? h)]

/-- Behind 2 ^ 30 characters of four bytes, a position inside its line is none that a server could
be told. -/
theorem column_past_u32 : ¬ ∀ (text : String) (encoding : PositionEncoding)
    (scalar : ScalarPosition) (line : List Char), lineAt text scalar.line = .ok line →
      scalar.character.toNat ≤ line.length →
      ∃ lsp, toLspPosition text scalar encoding = .ok lsp ∧
        fromLspPosition text lsp encoding = .ok scalar := by
  intro h
  -- The line stays a variable, so that nothing evaluates it.
  obtain ⟨column, hcolumn⟩ : ∃ column : UInt32, column.toNat = 2 ^ 30 :=
    ⟨UInt32.ofNat (2 ^ 30), rfl⟩
  have hat : lineAt (String.ofList (List.replicate column.toNat '😀')) 0 =
      .ok (List.replicate column.toNat '😀') :=
    lineAt_ofList (fun h => absurd (List.eq_of_mem_replicate h) (by decide))
      (fun h => absurd (List.eq_of_mem_replicate h) (by decide))
  obtain ⟨lsp, hlsp, -⟩ := h _ .utf8 ⟨0, column⟩ _ hat (by rw [List.length_replicate])
  obtain ⟨-, line, hline, -, hc⟩ := toLspPosition_eq_ok.mp hlsp
  obtain rfl := Except.ok.inj (hat.symm.trans hline)
  have hwidth : PositionEncoding.utf8.width '😀' = 4 := rfl
  rw [column_replicate _ (Nat.le_refl _), hcolumn, hwidth] at hc
  have := lsp.character.toNat_lt
  omega

end Strukt.Language
