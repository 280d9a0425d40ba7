import Strukt.Editor.Buffer
import Strukt.Language.Position

/-!
# The range of a completion

* **Offsets**: `scalarOffsetForLsp` walks the lines with their line ends, `fromLspPosition` the
  lines without them. `Precede` says which offset is right: the characters up to it have as many
  line ends as the position's line, and its column behind the last of them.
* **Agreement**: on every text but the empty one each accepted position has its offset, and each
  range of them its `CharRange` (`completion_law`).
-/

namespace Strukt

open Strukt.Language

/-- The errors of the conversion (`EditorSurfaceError`). -/
inductive EditorSurfaceError where
  | invalidCursor
  | transaction (e : TransactionError)
  deriving DecidableEq

/-- The loop over the lines: where the target line begins (`inl`), or else the end (`inr`). -/
def lineOffset (targetLine : Nat) : Nat → Nat → List (List Char) → Nat ⊕ Nat
  | _, offset, [] => .inr offset
  | lineIndex, offset, line :: rest =>
    if lineIndex = targetLine then .inl offset
    else lineOffset targetLine (lineIndex + 1) (offset + line.length) rest

def scalarOffsetForLsp (text : String) (position : LspPosition) (encoding : PositionEncoding) :
    Except EditorSurfaceError Nat :=
  match fromLspPosition text position encoding with
  | .error _ => .error .invalidCursor
  | .ok scalar =>
    -- `lines` leaves out the line ends, of the same lines.
    let lines := splitInclusive '\n' text.toList
    match lineOffset scalar.line.toNat 0 0 lines with
    | .inl offset => .ok (offset + scalar.character.toNat)
    | .inr offset =>
      if scalar.line.toNat = lines.length ∧ text.toList.getLast? = some '\n' then .ok offset
      else .error .invalidCursor

/-- The range of the document that `insert_completion` replaces. -/
def completionRange (text : String) (range : LspPosition × LspPosition)
    (encoding : PositionEncoding) : Except EditorSurfaceError CharRange := do
  let start ← scalarOffsetForLsp text range.1 encoding
  let stop ← scalarOffsetForLsp text range.2 encoding
  (CharRange.new start stop).mapError .transaction

/-! ## Offsets -/

/-- The first `n` characters end `character` behind the last of their `line` line ends. -/
structure Precede (text : List Char) (line character n : Nat) : Prop where
  le_length : n ≤ text.length
  line_eq : (text.take n).count '\n' = line
  character_eq : ((text.take n).reverse.takeWhile (· ≠ '\n')).length = character

variable {text l rest : List Char} {line character n : Nat}

theorem precede_of_not_mem (h : '\n' ∉ l) (hc : character ≤ l.length) (rest : List Char) :
    Precede (l ++ rest) 0 character character := by
  have htake : (l ++ rest).take character = l.take character := List.take_append_of_le_length hc
  have hno : '\n' ∉ l.take character := fun hmem => h (List.mem_of_mem_take hmem)
  refine ⟨by rw [List.length_append]; omega, ?_, ?_⟩
  · rw [htake, List.count_eq_zero]
    exact hno
  · rw [htake, List.takeWhile_eq_self_iff.mpr, List.length_reverse, List.length_take_of_le hc]
    intro c hmem
    exact decide_eq_true fun hc => hno (hc ▸ List.mem_reverse.mp hmem)

theorem takeWhile_append_cons (p : Char → Bool) {c : Char} (hc : p c = false) (l rest : List Char) :
    (l ++ c :: rest).takeWhile p = l.takeWhile p := by
  induction l with
  | nil => exact List.takeWhile_cons_of_neg (by simp [hc])
  | cons d l ih =>
    rw [List.cons_append, List.takeWhile_cons, List.takeWhile_cons, ih]

theorem Precede.cons_line (h : Precede rest line character n) (hl : '\n' ∉ l) :
    Precede (l ++ '\n' :: rest) (line + 1) character (l.length + 1 + n) := by
  have htake : (l ++ '\n' :: rest).take (l.length + 1 + n) = l ++ '\n' :: rest.take n := by
    rw [List.take_append, List.take_of_length_le (by omega),
      show l.length + 1 + n - l.length = n + 1 by omega, List.take_succ_cons]
  refine ⟨?_, ?_, ?_⟩
  · have := h.le_length
    rw [List.length_append, List.length_cons]
    omega
  · rw [htake, List.count_append, List.count_cons_self, List.count_eq_zero.mpr hl, h.line_eq,
      Nat.zero_add]
  · rw [htake, List.reverse_append, List.reverse_cons, List.append_assoc, List.singleton_append,
      takeWhile_append_cons _ (by decide), h.character_eq]

/-- An earlier position has no later offset. -/
theorem Precede.le {line' character' n' : Nat} (h : Precede text line character n)
    (h' : Precede text line' character' n')
    (hle : line < line' ∨ line = line' ∧ character ≤ character') : n ≤ n' := by
  by_contra hlt
  have hsplit : text.take n = text.take n' ++ (text.drop n').take (n - n') := by
    rw [← List.take_add, Nat.add_sub_cancel' (by omega)]
  have hcount := h.line_eq
  rw [hsplit, List.count_append, h'.line_eq] at hcount
  obtain hlt' | ⟨rfl, hc⟩ := hle
  · omega
  · have hno : '\n' ∉ (text.drop n').take (n - n') := List.count_eq_zero.mp (by omega)
    have hcolumn := h.character_eq
    rw [hsplit, List.reverse_append, List.takeWhile_append_of_pos, List.length_append,
      List.length_reverse, h'.character_eq, List.length_take, List.length_drop] at hcolumn
    · have := h.le_length
      omega
    · exact fun c hmem => decide_eq_true fun hc => hno (hc ▸ List.mem_reverse.mp hmem)

/-! ## Lines with and without their ends -/

/-- The characters of the first `n` lines, with their ends. -/
def linesLength (text : List Char) (n : Nat) : Nat :=
  (((splitInclusive '\n' text).take n).map List.length).sum

theorem linesLength_zero (text : List Char) : linesLength text 0 = 0 := rfl

theorem lineOffset_inl (k : Nat) {lines : List (List Char)} {i offset : Nat}
    (h : k < lines.length) :
    lineOffset (i + k) i offset lines = .inl (offset + ((lines.take k).map List.length).sum) := by
  induction lines generalizing k i offset with
  | nil => exact absurd h (Nat.not_lt_zero _)
  | cons line lines ih =>
    cases k with
    | zero => exact if_pos rfl
    | succ k =>
      rw [lineOffset, if_neg (by omega), show i + (k + 1) = i + 1 + k by omega,
        ih k (Nat.lt_of_succ_lt_succ h), List.take_succ_cons, List.map_cons, List.sum_cons,
        Nat.add_assoc]

theorem lineOffset_inr {lines : List (List Char)} {i offset target : Nat}
    (h : i + lines.length ≤ target) :
    lineOffset target i offset lines = .inr (offset + (lines.map List.length).sum) := by
  induction lines generalizing i offset with
  | nil => rfl
  | cons line lines ih =>
    rw [List.length_cons] at h
    rw [lineOffset, if_neg (by omega), ih (by omega), List.map_cons, List.sum_cons, Nat.add_assoc]

/-- The line of a position is there with its end, or it is the empty one behind the last. -/
theorem line_cases (h : (text.splitOn '\n')[n]? = some l) :
    n < (splitInclusive '\n' text).length ∨
    n = (splitInclusive '\n' text).length ∧ l = [] ∧ (text = [] ∨ text.getLast? = some '\n') := by
  induction text using split_induction '\n' generalizing n with
  | last line hno =>
    rw [List.splitOn_eq_singleton hno] at h
    obtain ⟨rfl, rfl⟩ : n = 0 ∧ line = l := by
      cases n with
      | zero => exact ⟨rfl, Option.some.inj h⟩
      | succ n => cases h
    by_cases hline : line = []
    · subst hline
      exact .inr ⟨rfl, rfl, .inl rfl⟩
    · rw [splitInclusive_last hno hline]
      exact .inl Nat.one_pos
  | piece line rest hno ih =>
    rw [List.splitOn_append_cons_self_of_not_mem hno] at h
    rw [splitInclusive_cons hno, List.length_cons]
    cases n with
    | zero => exact .inl (Nat.succ_pos _)
    | succ n =>
      rw [List.getElem?_cons_succ] at h
      obtain hlt | ⟨rfl, rfl, hend⟩ := ih h
      · exact .inl (Nat.succ_lt_succ hlt)
      · refine .inr ⟨rfl, rfl, .inr ?_⟩
        obtain rfl | hend := hend
        · exact List.getLast?_concat
        · rw [List.getLast?_append, List.getLast?_cons, hend]
          rfl

/-- The offset that the loop counts is right. -/
theorem precede_linesLength (h : (text.splitOn '\n')[n]? = some l) (hc : character ≤ l.length) :
    Precede text n character (linesLength text n + character) := by
  induction text using split_induction '\n' generalizing n with
  | last line hno =>
    rw [List.splitOn_eq_singleton hno] at h
    obtain ⟨rfl, rfl⟩ : n = 0 ∧ line = l := by
      cases n with
      | zero => exact ⟨rfl, Option.some.inj h⟩
      | succ n => cases h
    have := precede_of_not_mem hno hc []
    rw [List.append_nil] at this
    rwa [linesLength_zero, Nat.zero_add]
  | piece line rest hno ih =>
    rw [List.splitOn_append_cons_self_of_not_mem hno] at h
    cases n with
    | zero =>
      obtain rfl := Option.some.inj h
      rw [linesLength_zero, Nat.zero_add]
      exact precede_of_not_mem hno hc ('\n' :: rest)
    | succ n =>
      rw [List.getElem?_cons_succ] at h
      have hlength : linesLength (line ++ '\n' :: rest) (n + 1) =
          line.length + 1 + linesLength rest n := by
        unfold linesLength
        rw [splitInclusive_cons hno, List.take_succ_cons, List.map_cons, List.sum_cons,
          List.length_append, List.length_singleton]
      rw [hlength, Nat.add_assoc]
      exact (ih h).cons_line hno

/-! ## The law -/

theorem stripReturn_length_le (line : List Char) : (stripReturn line).length ≤ line.length := by
  unfold stripReturn
  split
  · rw [List.length_dropLast]
    exact Nat.sub_le ..
  · exact Nat.le_refl _

/-- An accepted position is on a line of the text. -/
theorem line_of_fromLspPosition {text : String} {position : LspPosition}
    {encoding : PositionEncoding} {scalar : ScalarPosition}
    (h : fromLspPosition text position encoding = .ok scalar) :
    ∃ l, (text.toList.splitOn '\n')[scalar.line.toNat]? = some l ∧
      scalar.character.toNat ≤ l.length := by
  obtain ⟨-, line, hline, hle, -⟩ := fromLspPosition_eq_ok.mp h
  unfold lineAt at hline
  split at hline
  · next l hl =>
    obtain rfl := Except.ok.inj hline
    exact ⟨l, hl, hle.trans (stripReturn_length_le l)⟩
  · cases hline

theorem scalarOffsetForLsp_of_accepted {text : String} {position : LspPosition}
    {encoding : PositionEncoding} {scalar : ScalarPosition}
    (h : fromLspPosition text position encoding = .ok scalar) (htext : text ≠ "") :
    ∃ n, scalarOffsetForLsp text position encoding = .ok n ∧
      Precede text.toList scalar.line.toNat scalar.character.toNat n := by
  obtain ⟨l, hl, hle⟩ := line_of_fromLspPosition h
  have hprecede := precede_linesLength hl hle
  unfold scalarOffsetForLsp
  rw [h]
  dsimp only
  obtain hlt | ⟨heq, rfl, hend⟩ := line_cases hl
  · rw [← Nat.zero_add scalar.line.toNat, lineOffset_inl _ hlt]
    refine ⟨_, rfl, ?_⟩
    rwa [Nat.zero_add, Nat.zero_add]
  · rw [lineOffset_inr (by omega)]
    dsimp only
    have hnonempty : text.toList ≠ [] := fun hnil => htext (String.toList_inj.mp hnil)
    rw [if_pos ⟨heq, hend.resolve_left hnonempty⟩]
    refine ⟨_, rfl, ?_⟩
    rw [linesLength, List.take_of_length_le (Nat.le_of_eq heq.symm)] at hprecede
    rw [Nat.zero_add]
    have hzero : scalar.character.toNat = 0 := Nat.le_zero.mp hle
    rwa [hzero, Nat.add_zero, ← hzero] at hprecede

theorem scalarOffsetForLsp_empty (position : LspPosition) (encoding : PositionEncoding) :
    scalarOffsetForLsp "" position encoding = .error .invalidCursor := by
  unfold scalarOffsetForLsp
  split
  · rfl
  · exact if_neg fun h => nomatch h.2

/-- Where the offsets are to be right, for one position and for a range. -/
theorem completion_law (text : String) (encoding : PositionEncoding) :
    (∀ position scalar, fromLspPosition text position encoding = .ok scalar →
      ((∃ n, scalarOffsetForLsp text position encoding = .ok n ∧
        Precede text.toList scalar.line.toNat scalar.character.toNat n) ↔ text ≠ "")) ∧
    (∀ range start stop, fromLspPosition text range.1 encoding = .ok start →
      fromLspPosition text range.2 encoding = .ok stop →
      (start.line < stop.line ∨ start.line = stop.line ∧ start.character ≤ stop.character) →
      ((∃ r, completionRange text range encoding = .ok r ∧
        Precede text.toList start.line.toNat start.character.toNat r.start ∧
        Precede text.toList stop.line.toNat stop.character.toNat r.stop) ↔ text ≠ "")) := by
  refine ⟨fun position scalar h => ⟨?_, scalarOffsetForLsp_of_accepted h⟩,
    fun range start stop hstart hstop hle => ⟨?_, fun htext => ?_⟩⟩
  · rintro ⟨n, hn, -⟩ rfl
    rw [scalarOffsetForLsp_empty] at hn
    cases hn
  · rintro ⟨r, hr, -⟩ rfl
    unfold completionRange at hr
    rw [scalarOffsetForLsp_empty] at hr
    cases hr
  · obtain ⟨a, ha, hpa⟩ := scalarOffsetForLsp_of_accepted hstart htext
    obtain ⟨b, hb, hpb⟩ := scalarOffsetForLsp_of_accepted hstop htext
    have hab : a ≤ b := hpa.le hpb (hle.imp UInt32.lt_iff_toNat_lt.mp fun h =>
      ⟨congrArg UInt32.toNat h.1, UInt32.le_iff_toNat_le.mp h.2⟩)
    refine ⟨⟨a, b⟩, ?_, hpa, hpb⟩
    unfold completionRange
    rw [ha, hb]
    dsimp only [bind, Except.bind]
    rw [CharRange.new, if_neg (by omega)]
    rfl

/-- In an empty document the position at its start is accepted, and has no offset. -/
theorem completion_empty : ¬ ∀ (text : String) (position : LspPosition)
    (encoding : PositionEncoding) (scalar : ScalarPosition),
    fromLspPosition text position encoding = .ok scalar →
      ∃ n, scalarOffsetForLsp text position encoding = .ok n ∧
        Precede text.toList scalar.line.toNat scalar.character.toNat n := by
  intro h
  obtain ⟨n, hn, -⟩ := h "" ⟨0, 0⟩ .utf16 ⟨0, 0⟩ (by decide)
  rw [scalarOffsetForLsp_empty] at hn
  cases hn

end Strukt
