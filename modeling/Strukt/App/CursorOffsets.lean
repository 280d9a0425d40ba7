import Strukt.App.CompletionRange

/-!
# Cursors and offsets

The editor widget keeps lines with their endings, and a cursor by its line and its byte in it. The
document counts the characters of the whole text.

* **Offsets** (`Content.before`): the characters before a cursor, whose number is its offset.
* **Steps** (`Content.Moves`): over one character of a line, or over a whole ending.
* **The law** (`cursor_law`): the conversions are inverse, no cursor is inside an ending, and the
  next and the previous offset are one step away.
-/

namespace Strukt.Cursor

open Strukt.Language

inductive LineEnding where
  | lf
  | crLf
  | cr
  | lfCr
  | none
  deriving DecidableEq

def LineEnding.asStr : LineEnding → List Char
  | lf => ['\n']
  | crLf => ['\r', '\n']
  | cr => ['\r']
  | lfCr => ['\n', '\r']
  | none => []

structure Line where
  text : List Char
  ending : LineEnding
  deriving DecidableEq

/-- The characters of the line, with its ending. -/
def Line.chars (line : Line) : List Char := line.text ++ line.ending.asStr

/-- The lines of the widget. The last one has no ending, and each other has one. -/
structure Content where
  front : List Line
  last : List Char
  broken : ∀ line ∈ front, line.ending ≠ .none

namespace Content

def lines (c : Content) : List Line := c.front ++ [⟨c.last, .none⟩]

def line (c : Content) (index : Nat) : Option Line := c.lines[index]?

def lineCount (c : Content) : Nat := c.lines.length

def fullText (c : Content) : List Char := c.lines.flatMap Line.chars

end Content

/-- `Position`: a line and a byte of it. -/
structure Position where
  line : Nat
  column : Nat
  deriving DecidableEq

/-! ## The conversions -/

/-- The loop over the lines before `lineIndex`. -/
def lineStartOffset (content : Content) : Nat → Except EditorSurfaceError Nat
  | 0 => .ok 0
  | index + 1 => do
    let offset ← lineStartOffset content index
    match content.line index with
    | none => .error .invalidCursor
    | some line => .ok (offset + (line.text.length + line.ending.asStr.length))

def offsetForPosition (content : Content) (position : Position) : Except EditorSurfaceError Nat := do
  let start ← lineStartOffset content position.line
  match content.line position.line with
  | none => .error .invalidCursor
  | some line =>
    if position.column > byteLen line.text ∨ ¬isCharBoundary line.text position.column then
      .error .invalidCursor
    else .ok (start + (takeBytes position.column line.text).length)

/-- The loop of `position_for_offset`, over the lines from `lineIndex` on. -/
def positionLoop (lineIndex offset : Nat) : List Line → Except EditorSurfaceError Position
  | [] => .error .invalidCursor
  | line :: rest =>
    let lineChars := line.text.length
    if offset ≤ lineChars then
      let column := ((charIndices 0 line.text)[offset]?.map Prod.fst).getD (byteLen line.text)
      .ok ⟨lineIndex, column⟩
    else
      let endingChars := line.ending.asStr.length
      if offset < lineChars + endingChars then .error .invalidCursor
      else positionLoop (lineIndex + 1) (offset - (lineChars + endingChars)) rest

def positionForOffset (content : Content) (offset : Nat) : Except EditorSurfaceError Position :=
  positionLoop 0 offset content.lines

def nextOffset (content : Content) (position : Position) (caret : Nat) :
    Except EditorSurfaceError Nat :=
  match content.line position.line with
  | none => .error .invalidCursor
  | some line =>
    if position.column < byteLen line.text then .ok (caret + 1)
    else if position.line + 1 < content.lineCount then .ok (caret + line.ending.asStr.length)
    else .ok caret

def previousOffset (content : Content) (position : Position) (caret : Nat) :
    Except EditorSurfaceError Nat :=
  if position.column > 0 ∨ position.line = 0 then .ok (caret - 1)
  else
    match content.line (position.line - 1) with
    | none => .error .invalidCursor
    | some previous => .ok (caret - previous.ending.asStr.length)

theorem LineEnding.length_pos {e : LineEnding} (h : e ≠ .none) : 0 < e.asStr.length := by
  cases e with
  | none => exact absurd rfl h
  | _ => exact Nat.succ_pos _

/-! ## Cursors -/

namespace Content

/-- The cursor is before a character of its line, or at the line's end. -/
def Valid (c : Content) (p : Position) : Prop :=
  ∃ line, c.line p.line = some line ∧
    ∃ front back, line.text = front ++ back ∧ p.column = byteLen front

/-- The text before the line. -/
def upTo (c : Content) (index : Nat) : List Char := (c.lines.take index).flatMap Line.chars

/-- The text before the cursor. -/
def before (c : Content) (p : Position) : List Char :=
  c.upTo p.line ++ (c.line p.line).elim [] fun line => takeBytes p.column line.text

/-- One step forward, over the characters `unit`. -/
inductive Moves (c : Content) : Position → List Char → Position → Prop
  | character {i : Nat} {line : Line} {front back : List Char} {ch : Char}
      (hline : c.line i = some line) (htext : line.text = front ++ ch :: back) :
      Moves c ⟨i, byteLen front⟩ [ch] ⟨i, byteLen (front ++ [ch])⟩
  | ending {i : Nat} {line : Line} (hline : c.line i = some line) (hne : line.ending ≠ .none) :
      Moves c ⟨i, byteLen line.text⟩ line.ending.asStr ⟨i + 1, 0⟩

/-! ## Lines -/

variable {c : Content} {l : Line} {i : Nat}

theorem lineCount_eq (c : Content) : c.lineCount = c.front.length + 1 := by
  unfold lineCount lines
  rw [List.length_append, List.length_singleton]

theorem line_lt (h : c.line i = some l) : i < c.lineCount := (List.getElem?_eq_some_iff.mp h).1

theorem exists_line (hi : i < c.lineCount) : ∃ l, c.line i = some l :=
  ⟨_, List.getElem?_eq_getElem hi⟩

theorem ending_ne_none_iff (h : c.line i = some l) : l.ending ≠ .none ↔ i + 1 < c.lineCount := by
  unfold line lines at h
  rw [lineCount_eq]
  by_cases hi : i < c.front.length
  · rw [List.getElem?_append_left hi] at h
    exact iff_of_true (c.broken l (List.mem_of_getElem? h)) (by omega)
  · rw [List.getElem?_append_right (Nat.le_of_not_lt hi)] at h
    obtain rfl := List.mem_singleton.mp (List.mem_of_getElem? h)
    exact iff_of_false (fun hne => hne rfl) (by omega)

theorem lines_eq (h : c.line i = some l) :
    c.lines = c.lines.take i ++ l :: c.lines.drop (i + 1) := by
  obtain ⟨hi, rfl⟩ := List.getElem?_eq_some_iff.mp h
  rw [List.getElem_cons_drop, List.take_append_drop]

theorem upTo_succ (h : c.line i = some l) : c.upTo (i + 1) = c.upTo i ++ l.chars := by
  unfold line at h
  unfold upTo
  rw [List.take_add_one, List.flatMap_append, h, Option.toList_some, List.flatMap_singleton]

theorem upTo_isPrefix (h : c.line i = some l) : c.upTo i ++ l.chars <+: c.fullText := by
  rw [← upTo_succ h]
  exact List.IsPrefix.flatMap (List.take_prefix _ _) _

theorem lineStartOffset_eq (hi : i ≤ c.lineCount) :
    lineStartOffset c i = .ok (c.upTo i).length := by
  induction i with
  | zero => rfl
  | succ i ih =>
    obtain ⟨l, hline⟩ := exists_line hi
    rw [lineStartOffset, ih (Nat.le_of_succ_le hi), upTo_succ hline, List.length_append, hline]
    simp only [Line.chars, List.length_append]
    rfl

/-- The loop goes on behind lines that have endings. -/
theorem positionLoop_append {front : List Line} (h : ∀ l ∈ front, l.ending ≠ .none)
    (start n : Nat) (rest : List Line) :
    positionLoop start ((front.flatMap Line.chars).length + n) (front ++ rest) =
      positionLoop (start + front.length) n rest := by
  induction front generalizing start with
  | nil => rw [List.flatMap_nil, List.length_nil, Nat.zero_add, List.nil_append]; rfl
  | cons l front ih =>
    have hpos := LineEnding.length_pos (h l List.mem_cons_self)
    have hchars : l.chars.length = l.text.length + l.ending.asStr.length := List.length_append
    rw [List.flatMap_cons, List.length_append, hchars, List.cons_append, positionLoop,
      if_neg (by omega), if_neg (by omega), List.length_cons]
    have hsub : l.text.length + l.ending.asStr.length + (front.flatMap Line.chars).length + n -
        (l.text.length + l.ending.asStr.length) = (front.flatMap Line.chars).length + n := by omega
    rw [hsub, ih fun l hl => h l (List.mem_cons_of_mem _ hl), Nat.add_right_comm, Nat.add_assoc]

/-- The loop comes to each line at its start. -/
theorem positionForOffset_line (h : c.line i = some l) (n : Nat) :
    positionForOffset c ((c.upTo i).length + n) =
      positionLoop i n (l :: c.lines.drop (i + 1)) := by
  have hfront : ∀ l' ∈ c.lines.take i, l'.ending ≠ .none := by
    intro l' hl'
    obtain ⟨j, hj, hget⟩ := List.mem_take_iff_getElem.mp hl'
    have hlt := line_lt h
    have hline : c.line j = some l' := hget ▸ List.getElem?_eq_getElem (by omega)
    rw [ending_ne_none_iff hline]
    omega
  have hlen : (c.lines.take i).length = i :=
    List.length_take_of_le (Nat.le_of_lt (line_lt h))
  unfold positionForOffset
  conv => lhs; rw [lines_eq h]
  unfold upTo
  rw [positionLoop_append hfront, hlen, Nat.zero_add]

theorem positionForOffset_text (h : c.line i = some l) {front back : List Char}
    (htext : l.text = front ++ back) :
    positionForOffset c ((c.upTo i).length + front.length) = .ok ⟨i, byteLen front⟩ := by
  have hle : front.length ≤ l.text.length := by
    rw [htext, List.length_append]
    exact Nat.le_add_right _ _
  have hcol : column Char.utf8Size l.text front.length = byteLen front := by
    unfold column
    rw [htext, List.take_left]
    rfl
  rw [positionForOffset_line h, positionLoop, if_pos hle, getElem?_charIndices]
  by_cases hlt : front.length < l.text.length
  · rw [List.getElem?_eq_getElem hlt, ← hcol]
    simp only [Option.map_some, Option.getD_some, Nat.zero_add]
  · have heq : front.length = l.text.length := by omega
    rw [List.getElem?_eq_none (Nat.le_of_not_lt hlt), ← hcol, heq, ← byteLen_eq_column]
    rfl

/-- Inside an ending there is no cursor. -/
theorem positionForOffset_ending (h : c.line i = some l) {k : Nat} (hpos : 0 < k)
    (hlt : k < l.ending.asStr.length) :
    positionForOffset c ((c.upTo i).length + (l.text.length + k)) = .error .invalidCursor := by
  rw [positionForOffset_line h, positionLoop, if_neg (by omega)]
  exact if_pos (by omega)

/-! ## Cursors -/

variable {front back : List Char}

theorem before_eq (h : c.line i = some l) (htext : l.text = front ++ back) :
    c.before ⟨i, byteLen front⟩ = c.upTo i ++ front := by
  unfold before
  rw [h, Option.elim_some, htext, takeBytes_append (Nat.le_refl _), Nat.sub_self, takeBytes_zero,
    List.append_nil]

theorem offsetForPosition_eq (h : c.line i = some l) (htext : l.text = front ++ back) :
    offsetForPosition c ⟨i, byteLen front⟩ = .ok (c.upTo i ++ front).length := by
  have htake : takeBytes (byteLen front) l.text = front := by
    rw [htext, takeBytes_append (Nat.le_refl _), Nat.sub_self, takeBytes_zero, List.append_nil]
  have hboundary : isCharBoundary l.text (byteLen front) = true := by
    unfold isCharBoundary
    rw [htake]
    exact decide_eq_true rfl
  have hle : byteLen front ≤ byteLen l.text := by
    rw [htext, byteLen_append]
    exact Nat.le_add_right _ _
  have hno : ¬(byteLen front > byteLen l.text ∨ ¬isCharBoundary l.text (byteLen front)) := by
    rintro (hgt | hbad)
    · omega
    · exact hbad hboundary
  unfold offsetForPosition
  rw [lineStartOffset_eq (Nat.le_of_lt (line_lt h)), h]
  simp only [htake, List.length_append]
  exact if_neg hno

theorem Valid.before_isPrefix {p : Position} (h : c.Valid p) : c.before p <+: c.fullText := by
  obtain ⟨i, column⟩ := p
  obtain ⟨l, hline, front, back, htext, rfl⟩ := h
  rw [before_eq hline htext]
  refine List.IsPrefix.trans ?_ (upTo_isPrefix hline)
  rw [List.prefix_append_right_inj, Line.chars, htext, List.append_assoc]
  exact List.prefix_append _ _

/-- A step is over what stands between the two cursors. -/
theorem Moves.before_eq {p p' : Position} {unit : List Char} (h : c.Moves p unit p') :
    c.Valid p' ∧ c.before p' = c.before p ++ unit := by
  cases h with
  | @character i l front back ch hline htext =>
    have htext' : l.text = (front ++ [ch]) ++ back := by
      rw [htext, List.append_assoc, List.singleton_append]
    refine ⟨⟨l, hline, _, back, htext', rfl⟩, ?_⟩
    rw [Content.before_eq hline htext, Content.before_eq hline htext', List.append_assoc]
  | @ending i l hline hne =>
    have hlt : i + 1 < c.lineCount := (ending_ne_none_iff hline).mp hne
    obtain ⟨l', hnext⟩ := exists_line hlt
    have hstart : l'.text = [] ++ l'.text := rfl
    refine ⟨⟨l', hnext, [], _, hstart, rfl⟩, (Content.before_eq hnext hstart).trans ?_⟩
    rw [Content.before_eq hline (List.append_nil _).symm, List.append_assoc, List.append_nil,
      upTo_succ hline]
    rfl

/-- The cursor is at the end of the last line. -/
theorem before_end (h : c.line i = some l) (hend : l.ending = .none) :
    c.before ⟨i, byteLen l.text⟩ = c.fullText := by
  have hlt := line_lt h
  have hlast : ¬ i + 1 < c.lineCount := fun hi => (ending_ne_none_iff h).mpr hi hend
  have hchars : l.chars = l.text := by
    unfold Line.chars
    rw [hend]
    exact List.append_nil _
  rw [before_eq h (List.append_nil _).symm, ← hchars, ← upTo_succ h]
  unfold upTo fullText
  rw [List.take_of_length_le (Nat.le_of_not_lt hlast)]

/-! ## Steps -/

theorem nextOffset_eq {p : Position} (hp : c.Valid p) :
    (∃ unit p', c.Moves p unit p' ∧
      nextOffset c p (c.before p).length = .ok (c.before p').length) ∨
    c.before p = c.fullText ∧ nextOffset c p (c.before p).length = .ok (c.before p).length := by
  obtain ⟨i, column⟩ := p
  obtain ⟨l, hline, front, back, htext, rfl⟩ := hp
  change c.line i = some l at hline
  have hlen : byteLen l.text = byteLen front + byteLen back := by rw [htext, byteLen_append]
  cases back with
  | cons ch back =>
    have hmove : c.Moves ⟨i, byteLen front⟩ [ch] ⟨i, byteLen (front ++ [ch])⟩ :=
      .character hline htext
    refine .inl ⟨[ch], _, hmove, ?_⟩
    have hlt : byteLen front < byteLen l.text := by
      have hcons : byteLen (ch :: back) = ch.utf8Size + byteLen back := rfl
      have := ch.utf8Size_pos
      omega
    unfold nextOffset
    rw [hline, hmove.before_eq.2, List.length_append]
    exact if_pos hlt
  | nil =>
    rw [List.append_nil] at htext
    subst htext
    have hge : ¬ byteLen l.text < byteLen l.text := Nat.lt_irrefl _
    by_cases hne : l.ending = .none
    · refine .inr ⟨before_end hline hne, ?_⟩
      have hlast : ¬ i + 1 < c.lineCount := fun hi => (ending_ne_none_iff hline).mpr hi hne
      unfold nextOffset
      rw [hline]
      dsimp only
      rw [if_neg hge, if_neg hlast]
    · have hmove : c.Moves ⟨i, byteLen l.text⟩ l.ending.asStr ⟨i + 1, 0⟩ := .ending hline hne
      refine .inl ⟨l.ending.asStr, _, hmove, ?_⟩
      have hlt : i + 1 < c.lineCount := (ending_ne_none_iff hline).mp hne
      unfold nextOffset
      rw [hline, hmove.before_eq.2, List.length_append]
      dsimp only
      rw [if_neg hge, if_pos hlt]

theorem previousOffset_eq {p : Position} (hp : c.Valid p) :
    (∃ unit p', c.Valid p' ∧ c.Moves p' unit p ∧
      previousOffset c p (c.before p).length = .ok (c.before p').length) ∨
    c.before p = [] ∧ previousOffset c p (c.before p).length = .ok (c.before p).length := by
  obtain ⟨i, column⟩ := p
  obtain ⟨l, hline, front, back, htext, rfl⟩ := hp
  change c.line i = some l at hline
  obtain rfl | ⟨front, ch, rfl⟩ := List.eq_nil_or_concat front
  · cases i with
    | zero =>
      refine .inr ⟨before_eq hline htext, ?_⟩
      have hnil : c.before ⟨0, byteLen []⟩ = [] := before_eq hline htext
      unfold previousOffset
      rw [if_pos (.inr rfl), hnil]
      rfl
    | succ i =>
      obtain ⟨l', hline'⟩ := exists_line (Nat.lt_of_succ_lt (line_lt hline))
      have hne : l'.ending ≠ .none := (ending_ne_none_iff hline').mpr (line_lt hline)
      have hmove : c.Moves ⟨i, byteLen l'.text⟩ l'.ending.asStr ⟨i + 1, 0⟩ := .ending hline' hne
      refine .inl ⟨l'.ending.asStr, _, ⟨l', hline', l'.text, [], (List.append_nil _).symm, rfl⟩,
        hmove, ?_⟩
      have hno : ¬(byteLen [] > 0 ∨ i + 1 = 0) := by
        rintro (h | h)
        · exact absurd h (Nat.lt_irrefl 0)
        · omega
      have hbefore : c.before ⟨i + 1, byteLen []⟩ = c.before ⟨i, byteLen l'.text⟩ ++ l'.ending.asStr :=
        hmove.before_eq.2
      unfold previousOffset
      rw [if_neg hno, hbefore, List.length_append, Nat.add_sub_cancel, hline']
      dsimp only
      rw [Nat.add_sub_cancel]
  · rw [List.concat_eq_append, List.append_assoc] at htext
    rw [List.concat_eq_append]
    have hmove : c.Moves ⟨i, byteLen front⟩ [ch] ⟨i, byteLen (front ++ [ch])⟩ :=
      .character hline htext
    refine .inl ⟨[ch], _, ⟨l, hline, front, _, htext, rfl⟩, hmove, ?_⟩
    have hpos : byteLen (front ++ [ch]) > 0 := by
      have hone : byteLen [ch] = ch.utf8Size + 0 := rfl
      have := ch.utf8Size_pos
      rw [byteLen_append]
      omega
    unfold previousOffset
    rw [if_pos (.inl hpos), hmove.before_eq.2, List.length_append]
    rfl

end Content

/-- The offset of a cursor is the number of the characters before it, and the cursor is found again
at its offset; inside an ending there is none. The next and the previous offset are those of the
cursors one step away, or at the text's ends the offset itself. -/
theorem cursor_law {c : Content} {p : Position} (hp : c.Valid p) :
    (c.before p <+: c.fullText ∧ offsetForPosition c p = .ok (c.before p).length ∧
      positionForOffset c (c.before p).length = .ok p) ∧
    (∀ i l k, c.line i = some l → 0 < k → k < l.ending.asStr.length →
      positionForOffset c ((c.upTo i ++ l.text).length + k) = .error .invalidCursor) ∧
    ((∃ unit p', c.Moves p unit p' ∧ c.before p' = c.before p ++ unit ∧
        c.before p' <+: c.fullText ∧
        nextOffset c p (c.before p).length = .ok (c.before p').length) ∨
      c.before p = c.fullText ∧
        nextOffset c p (c.before p).length = .ok (c.before p).length) ∧
    ((∃ unit p', c.Moves p' unit p ∧ c.before p = c.before p' ++ unit ∧
        previousOffset c p (c.before p).length = .ok (c.before p').length) ∨
      c.before p = [] ∧ previousOffset c p (c.before p).length = .ok 0) := by
  refine ⟨⟨hp.before_isPrefix, ?_, ?_⟩, ?_, ?_, ?_⟩
  · obtain ⟨i, column⟩ := p
    obtain ⟨l, hline, front, back, htext, rfl⟩ := hp
    rw [Content.offsetForPosition_eq hline htext, Content.before_eq hline htext]
  · obtain ⟨i, column⟩ := p
    obtain ⟨l, hline, front, back, htext, rfl⟩ := hp
    rw [Content.before_eq hline htext, List.length_append,
      Content.positionForOffset_text hline htext]
  · intro i l k hline hpos hlt
    rw [List.length_append, Nat.add_assoc]
    exact Content.positionForOffset_ending hline hpos hlt
  · obtain ⟨unit, p', hmove, hnext⟩ | hend := Content.nextOffset_eq hp
    · obtain ⟨hvalid, hbefore⟩ := hmove.before_eq
      exact .inl ⟨unit, p', hmove, hbefore, hvalid.before_isPrefix, hnext⟩
    · exact .inr hend
  · obtain ⟨unit, p', -, hmove, hprevious⟩ | ⟨hstart, hprevious⟩ := Content.previousOffset_eq hp
    · exact .inl ⟨unit, p', hmove, hmove.before_eq.2, hprevious⟩
    · rw [hstart] at hprevious
      exact .inr ⟨hstart, by rw [hstart, hprevious]; rfl⟩

/-- Two lines, the first one with an ending of two characters. -/
def twoLines : Content where
  front := [⟨['a', 'é'], .crLf⟩]
  last := ['b']
  broken _ hline := List.mem_singleton.mp hline ▸ nofun

/-- The end of the first line, behind three bytes, is at offset 2; the next is the line below. -/
theorem cursor_law_crlf :
    positionForOffset twoLines 2 = .ok ⟨0, 3⟩ ∧ nextOffset twoLines ⟨0, 3⟩ 2 = .ok 4 ∧
      positionForOffset twoLines 3 = .error .invalidCursor := by
  have hvalid : twoLines.Valid ⟨0, 3⟩ := ⟨_, rfl, ['a', 'é'], [], rfl, rfl⟩
  obtain ⟨⟨-, -, hposition⟩, hending, -, -⟩ := cursor_law hvalid
  exact ⟨hposition, rfl, hending 0 _ 1 rfl (by decide) (by decide)⟩

end Strukt.Cursor
