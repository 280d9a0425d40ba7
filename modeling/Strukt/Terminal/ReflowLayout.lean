import Strukt.Lib.Wrap
import Strukt.Terminal.GridGeometry
import Strukt.Terminal.GridPairing

/-!
# The layout of a reflow

A reflow lays the glyphs of its source rows out on lines of the new width: each row without its
trailing blank cells, wrapped greedily, on lines of its own (`layout`). The first lines of the
layout are the new rows, blank cells behind them and blank rows below (`page`).

* **The loop** (`reflowRows_page`): `reflow_rows` draws this layout for every source, but not every
  glyph as it is (`Glyph.written`): it makes the continuation of a wide cell, and the character that
  stands for one in a single column, without colours, attributes and link.
* **The glyphs** (`Glyph.draw`): so it shows the glyphs themselves exactly if no visible one loses
  these (`reflow_law`). `write_character` gives both halves of a glyph the same style.
-/

namespace Strukt

/-- A cell, or a wide cell with its continuation. -/
inductive Glyph where
  | single (cell : Cell)
  | wide (cell continuation : Cell)

namespace Glyph

def head : Glyph → Cell
  | single cell => cell
  | wide cell _ => cell

/-- The cells of the source. -/
def cells : Glyph → Row
  | single cell => [cell]
  | wide cell continuation => [cell, continuation]

/-- The columns that a glyph takes on lines of `columns`. -/
def width (columns : Nat) : Glyph → Nat
  | single _ => 1
  | wide _ _ => if columns = 1 then 1 else 2

/-- A glyph on lines of `columns`: a wide one that no line can hold is replaced. -/
def draw (columns : Nat) : Glyph → Row
  | single cell => [cell]
  | wide cell continuation =>
    if columns = 1 then [{ cell with text := "\uFFFD", width := .single }]
    else [cell, continuation]

/-- What `reflow_rows` makes of it. -/
def written (columns : Nat) : Glyph → Row
  | single cell => [cell]
  | wide cell _ =>
    if columns = 1 then [{ Cell.blank with text := "\uFFFD", width := .single }]
    else [cell, { Cell.blank with text := "", width := .continuation }]

theorem length_draw (columns : Nat) (g : Glyph) : (g.draw columns).length = g.width columns := by
  cases g with
  | single cell => rfl
  | wide cell continuation => simp only [draw, width]; split <;> rfl

theorem length_written (columns : Nat) (g : Glyph) :
    (g.written columns).length = g.width columns := by
  cases g with
  | single cell => rfl
  | wide cell continuation => simp only [written, width]; split <;> rfl

theorem width_le {columns : Nat} (h : 0 < columns) (g : Glyph) : g.width columns ≤ columns := by
  cases g with
  | single cell => exact h
  | wide cell continuation => simp only [width]; split <;> omega

end Glyph

/-- The glyphs of a row. -/
def glyphs : Row → List Glyph
  | [] => []
  | [cell] => [.single cell]
  | cell :: next :: rest =>
    if cell.width = .wide then .wide cell next :: glyphs rest
    else .single cell :: glyphs (next :: rest)

/-- A row without its trailing blank cells. -/
def trimmed (row : Row) : Row := row.rdropWhile (·.isSemanticallyBlank)

/-- The lines of all rows. -/
def layout (source : List Row) (columns : Nat) : List (List Glyph) :=
  source.flatMap fun row => wrap (Glyph.width columns) columns [] (glyphs (trimmed row))

def padRow (columns : Nat) (row : Row) : Row :=
  row ++ List.replicate (columns - row.length) Cell.blank

/-- The first lines, with blank ones below them. -/
def page (size : GridSize) (draw : Glyph → Row) (lines : List (List Glyph)) : List Row :=
  (lines.take size.rows).map (fun line => padRow size.columns (line.flatMap draw)) ++
    List.replicate (size.rows - lines.length) (blankRow size.columns)

/-! ## The glyphs of a row -/

theorem glyphs_cells (row : Row) : (glyphs row).flatMap Glyph.cells = row := by
  fun_induction glyphs row with
  | case1 => rfl
  | case2 cell => rfl
  | case3 cell next rest hw ih => simp [Glyph.cells, ih]
  | case4 cell next rest hw ih => simp [Glyph.cells, ih]

theorem RowPaired.of_append {row blanks : Row} (h : RowPaired (row ++ blanks))
    (hb : ∀ c ∈ blanks, c.width = .single) : RowPaired row := by
  have hin : ∀ i < row.length, widthAt (row ++ blanks) i = widthAt row i := by
    intro i hi
    rw [widthAt, widthAt, List.getElem?_append_left hi]
  have hout : ∀ i, row.length ≤ i → ∀ w, widthAt (row ++ blanks) i = some w → w = .single := by
    intro i hi w hw
    rw [widthAt, List.getElem?_append_right hi] at hw
    obtain ⟨c, hc, rfl⟩ := Option.map_eq_some_iff.mp hw
    exact hb c (List.mem_of_getElem? hc)
  have hend : ∀ i, row.length ≤ i → widthAt row i = none := by
    intro i hi
    rw [widthAt, List.getElem?_eq_none hi]
    rfl
  refine ⟨fun h0 => ?_, fun i => ?_⟩
  · by_cases hlen : 0 < row.length
    · exact h.1 ((hin 0 hlen).trans h0)
    · rw [hend 0 (by omega)] at h0
      cases h0
  · by_cases hi : i + 1 < row.length
    · rw [← hin i (by omega), ← hin (i + 1) hi]
      exact h.2 i
    · rw [hend (i + 1) (by omega)]
      refine iff_of_false (fun hw => ?_) (by simp)
      by_cases hlast : i < row.length
      · -- The next cell would be a blank one.
        have hnext := (h.2 i).mp ((hin i hlast).trans hw)
        cases hout (i + 1) (by omega) _ hnext
      · rw [hend i (by omega)] at hw
        cases hw

theorem trimmed_append (row : Row) :
    ∃ blanks, row = trimmed row ++ blanks ∧ ∀ c ∈ blanks, c.isSemanticallyBlank = true := by
  refine ⟨row.rtakeWhile (·.isSemanticallyBlank), ?_, ?_⟩
  · rw [trimmed, List.rdropWhile, List.rtakeWhile, ← List.reverse_append,
      List.takeWhile_append_dropWhile, List.reverse_reverse]
  · intro c hc
    exact List.mem_rtakeWhile_imp hc

theorem trimmed_paired {row : Row} (h : RowPaired row) : RowPaired (trimmed row) := by
  obtain ⟨blanks, he, hb⟩ := trimmed_append row
  rw [he] at h
  refine h.of_append fun c hc => ?_
  have := hb c hc
  simp only [Cell.isSemanticallyBlank, Bool.and_eq_true, decide_eq_true_eq] at this
  tauto

theorem trimmed_subset (row : Row) : trimmed row ⊆ row := (List.rdropWhile_prefix _ _).subset

/-- A row that `repair_row` leaves as it is. -/
theorem RowPaired.of_repair {row : Row} (h : repairRow row = row) : RowPaired row :=
  h ▸ repairRow_paired row

theorem RowPaired.single {cell : Cell} {rest : Row} (h : RowPaired (cell :: rest))
    (hw : cell.width ≠ .wide) : cell.width = .single ∧ RowPaired rest := by
  have h0 := h.1
  have hnext := h.2 0
  rw [widthAt_cons_zero] at h0 hnext
  rw [widthAt_cons_succ] at hnext
  refine ⟨?_, fun hc => ?_, fun i => ?_⟩
  · cases hc : cell.width with
    | single => rfl
    | wide => exact absurd hc hw
    | continuation => exact absurd (congrArg some hc) h0
  · exact hw (Option.some.inj (hnext.mpr hc))
  · exact h.2 (i + 1)

theorem RowPaired.wide {cell next : Cell} {rest : Row} (h : RowPaired (cell :: next :: rest))
    (hw : cell.width = .wide) : next.width = .continuation ∧ RowPaired rest := by
  have hnext : next.width = .continuation := Option.some.inj ((h.2 0).mp (congrArg some hw))
  refine ⟨hnext, fun hc => ?_, fun i => h.2 (i + 2)⟩
  have hwide : next.width = .wide := Option.some.inj ((h.2 1).mpr hc)
  rw [hnext] at hwide
  cases hwide

theorem RowPaired.not_last {cell : Cell} (h : RowPaired [cell]) : cell.width ≠ .wide := by
  intro hw
  have := (h.2 0).mp (congrArg some hw)
  simp at this

/-- The cells of a glyph of a well-formed row. -/
def Glyph.Whole : Glyph → Prop
  | single cell => cell.width = .single
  | wide cell continuation => cell.width = .wide ∧ continuation.width = .continuation

theorem glyphs_whole {row : Row} (h : RowPaired row) : ∀ g ∈ glyphs row, g.Whole := by
  fun_induction glyphs row with
  | case1 => simp
  | case2 cell =>
    have hcell : (Glyph.single cell).Whole := (h.single h.not_last).1
    exact List.forall_mem_singleton.mpr hcell
  | case3 cell next rest hw ih =>
    obtain ⟨hnext, hrest⟩ := h.wide hw
    exact List.forall_mem_cons.mpr ⟨⟨hw, hnext⟩, ih hrest⟩
  | case4 cell next rest hw ih =>
    obtain ⟨hcell, hrest⟩ := h.single hw
    exact List.forall_mem_cons.mpr ⟨hcell, ih hrest⟩

/-- The loop reads the first cell of each glyph. -/
theorem contentCells_eq {row : Row} (h : RowPaired row) :
    contentCells row = (glyphs (trimmed row)).map Glyph.head := by
  have key : ∀ cells, RowPaired cells →
      cells.filter (·.width ≠ .continuation) = (glyphs cells).map Glyph.head := by
    intro cells hp
    fun_induction glyphs cells with
    | case1 => rfl
    | case2 cell => simp [(hp.single hp.not_last).1, Glyph.head]
    | case3 cell next rest hw ih =>
      obtain ⟨hnext, hrest⟩ := hp.wide hw
      simp [hw, hnext, Glyph.head, ← ih hrest]
    | case4 cell next rest hw ih =>
      obtain ⟨hcell, hrest⟩ := hp.single hw
      rw [List.filter_cons_of_pos (by simp [hcell]), ih hrest]
      rfl
  exact key _ (trimmed_paired h)

/-! ## The loop -/

theorem modifyCell_append {front back : List Row} {before after : Row} {c c' : Cell}
    {f : Cell → Except CellError Cell} (hf : f c = .ok c') :
    modifyCell (front ++ (before ++ c :: after) :: back) front.length before.length f =
      some (front ++ (before ++ c' :: after) :: back) := by
  have hrow : (front ++ (before ++ c :: after) :: back)[front.length]? =
      some (before ++ c :: after) := by simp
  have hcell : (before ++ c :: after)[before.length]? = some c := by simp
  simp only [modifyCell, hrow, hcell, hf, Except.toOption, Option.bind_eq_bind, Option.bind_some,
    Option.pure_def]
  simp

theorem padRow_append {columns : Nat} (row more : Row) :
    padRow columns (row ++ more) =
      row ++ more ++ List.replicate (columns - row.length - more.length) Cell.blank := by
  rw [padRow, List.length_append, Nat.sub_add_eq]

theorem padRow_room {columns n : Nat} {row : Row} (h : row.length + n ≤ columns) :
    padRow columns row =
      row ++ (List.replicate n Cell.blank ++
        List.replicate (columns - row.length - n) Cell.blank) := by
  rw [padRow, ← List.replicate_add]
  congr 2
  omega

section

variable {size : GridSize} {draw : Glyph → Row} {lines more : List (List Glyph)} {line : List Glyph}

/-- A blank last line. -/
theorem page_blank : page size draw (lines ++ [[]]) = page size draw lines := by
  have hb : padRow size.columns [] = blankRow size.columns := by simp [padRow, blankRow]
  unfold page
  by_cases hl : lines.length < size.rows
  · rw [List.take_of_length_le (by simp; omega), List.take_of_length_le (by omega),
      List.map_append, List.append_assoc, List.map_singleton, List.flatMap_nil, hb,
      List.singleton_append, ← List.replicate_succ, List.length_append, List.length_singleton]
    congr 2
    omega
  · rw [List.take_append_of_le_length (by omega), List.length_append, List.length_singleton,
      Nat.sub_eq_zero_of_le (by omega), Nat.sub_eq_zero_of_le (by omega)]

/-- Lines behind the last row. -/
theorem page_full (h : size.rows ≤ lines.length) :
    page size draw (lines ++ more) = page size draw lines := by
  rw [page, page, List.take_append_of_le_length h, List.length_append,
    Nat.sub_eq_zero_of_le (by omega), Nat.sub_eq_zero_of_le h]

/-- The page around its last line. -/
theorem page_last (h : lines.length < size.rows) :
    page size draw (lines ++ [line]) =
      lines.map (fun line => padRow size.columns (line.flatMap draw)) ++
        padRow size.columns (line.flatMap draw) ::
        List.replicate (size.rows - lines.length - 1) (blankRow size.columns) := by
  rw [page, List.take_of_length_le (by simp; omega), List.map_append, List.append_assoc,
    List.map_singleton, List.singleton_append, List.length_append, List.length_singleton,
    Nat.sub_add_eq]

theorem page_length : (page size draw lines).length = size.rows := by
  simp only [page, List.length_append, List.length_map, List.length_take, List.length_replicate]
  omega

end

variable {size : GridSize}

section

variable {front back : List Row} {row tail : Row} {cell : Cell}

theorem reflowPlace_single (hcell : cell.width = .single) :
    reflowPlace size cell (front ++ (row ++ .blank :: tail) :: back) front.length row.length 1 =
      some (front ++ (row ++ cell :: tail) :: back) := by
  have hw : ¬(cell.width = .wide ∧ size.columns = 1) := by simp [hcell]
  rw [reflowPlace, if_neg hw, modifyCell_append (f := fun _ => .ok cell) rfl, Option.bind_some,
    if_neg (by decide)]

theorem reflowPlace_replaced (hcell : cell.width = .wide) (hone : size.columns = 1) :
    reflowPlace size cell (front ++ (row ++ .blank :: tail) :: back) front.length row.length 1 =
      some (front ++ (row ++ { Cell.blank with text := "\uFFFD", width := .single } :: tail) ::
        back) := by
  have ht : Cell.blank.setText "\uFFFD" .single =
      .ok { Cell.blank with text := "\uFFFD", width := .single } := by decide
  rw [reflowPlace, if_pos ⟨hcell, hone⟩,
    modifyCell_append (f := fun c => c.setText "\uFFFD" .single) ht]

theorem reflowPlace_wide (hone : size.columns ≠ 1) :
    reflowPlace size cell (front ++ (row ++ .blank :: .blank :: tail) :: back) front.length
        row.length 2 =
      some (front ++ (row ++ cell :: { Cell.blank with text := "", width := .continuation } ::
        tail) :: back) := by
  have hw : ¬(cell.width = .wide ∧ size.columns = 1) := fun h => hone h.2
  have ht : Cell.blank.setText "" .continuation =
      .ok { Cell.blank with text := "", width := .continuation } := by decide
  -- The continuation stands behind the row up to the wide cell.
  have hnext : ∀ c : Cell, row ++ cell :: c :: tail = (row ++ [cell]) ++ c :: tail := by simp
  have hcolumn : row.length + 1 = (row ++ [cell]).length := by simp
  rw [reflowPlace, if_neg hw, modifyCell_append (f := fun _ => .ok cell) rfl, Option.bind_some,
    if_pos rfl, hnext, hnext, hcolumn,
    modifyCell_append (f := fun c => c.setText "" .continuation) ht]

end

/-- A glyph written behind the last line. -/
theorem reflowPlace_page (lines : List (List Glyph)) (line : List Glyph) {g : Glyph} (hg : g.Whole)
    (hrow : lines.length < size.rows)
    (hfit : lineWidth (Glyph.width size.columns) line + g.width size.columns ≤ size.columns) :
    reflowPlace size g.head (page size (Glyph.written size.columns) (lines ++ [line])) lines.length
        (lineWidth (Glyph.width size.columns) line) (g.width size.columns) =
      some (page size (Glyph.written size.columns) (lines ++ [line ++ [g]])) := by
  have hlen : (line.flatMap (Glyph.written size.columns)).length =
      lineWidth (Glyph.width size.columns) line :=
    length_flatMap_eq fun g _ => Glyph.length_written size.columns g
  have hfront : lines.length = (lines.map fun line : List Glyph =>
      padRow size.columns (line.flatMap (Glyph.written size.columns))).length := by simp
  rw [page_last hrow, page_last hrow, List.flatMap_append, List.flatMap_singleton, padRow_append,
    Glyph.length_written]
  rw [← hlen] at hfit ⊢
  rw [padRow_room hfit, hfront, List.append_assoc]
  generalize line.flatMap (Glyph.written size.columns) = row
  generalize lines.map _ = front
  generalize List.replicate (size.columns - row.length - g.width size.columns) Cell.blank = tail
  cases g with
  | single cell => exact reflowPlace_single hg
  | wide cell continuation =>
    by_cases hone : size.columns = 1
    · simp only [Glyph.width, Glyph.written, if_pos hone]
      exact reflowPlace_replaced hg.1 hone
    · simp only [Glyph.width, Glyph.written, if_neg hone]
      exact reflowPlace_wide hone

/-- The loop after the glyphs of `lines ++ [line]`. -/
structure Laid (size : GridSize) (lines : List (List Glyph)) (line : List Glyph) (r : Reflow) :
    Prop where
  destination : r.destination = page size (Glyph.written size.columns) (lines ++ [line])
  row : r.row = lines.length
  column : r.column = lineWidth (Glyph.width size.columns) line
  inside : lines.length < size.rows

/-- The columns that the loop counts. -/
theorem Glyph.Whole.width_eq {g : Glyph} (hg : g.Whole) :
    (if g.head.width = .wide ∧ size.columns > 1 then 2 else 1) = g.width size.columns := by
  have hpos := size.columns_pos
  cases g with
  | single cell =>
    have hcell : cell.width = .single := hg
    simp [Glyph.head, Glyph.width, hcell]
  | wide cell continuation =>
    simp only [Glyph.head, Glyph.width, hg.1, true_and]
    split_ifs <;> omega

variable {lines : List (List Glyph)}

/-- A glyph goes on the line, or on the next one; below the last row the loop ends. -/
theorem reflowCell_page {line : List Glyph} {g : Glyph} {r : Reflow}
    (hg : g.Whole) (hr : Laid size lines line r) : ∃ r', reflowCell size g.head r = some r' ∧
      if lineWidth (Glyph.width size.columns) line + g.width size.columns ≤ size.columns then
        r'.full = false ∧ Laid size lines (line ++ [g]) r'
      else if lines.length + 1 < size.rows then
        r'.full = false ∧ Laid size (lines ++ [line]) [g] r'
      else r'.full = true ∧ r'.destination = r.destination := by
  have hinside := hr.inside
  unfold reflowCell
  rw [hg.width_eq, hr.column, hr.row]
  by_cases hfit : lineWidth (Glyph.width size.columns) line + g.width size.columns ≤ size.columns
  · simp only [gt_iff_lt, if_pos hfit, not_lt.mpr hfit, if_false, ge_iff_le, not_le.mpr hinside]
    rw [hr.destination, reflowPlace_page lines line hg hinside hfit]
    exact ⟨_, rfl, rfl, rfl, rfl, by simp, hinside⟩
  · simp only [gt_iff_lt, if_neg hfit, not_le.mp hfit, if_true, ge_iff_le]
    by_cases hrow : lines.length + 1 < size.rows
    · have hp := reflowPlace_page (lines ++ [line]) [] hg (by simpa using hrow)
        (by simpa using g.width_le size.columns_pos)
      simp only [List.length_append, List.length_singleton, lineWidth_nil, List.nil_append] at hp
      simp only [not_le.mpr hrow, if_false, if_pos hrow]
      rw [hr.destination, ← page_blank, hp]
      exact ⟨_, rfl, rfl, rfl, by simp, by simp, by simpa using hrow⟩
    · simp only [not_lt.mp hrow, if_true, if_neg hrow]
      exact ⟨_, rfl, rfl, rfl⟩

/-- The glyphs of a row: the loop draws their lines, or the page is full with some of them. -/
theorem reflowCells_page {line items : List Glyph} {r : Reflow}
    (hitems : ∀ g ∈ items, g.Whole) (hr : Laid size lines line r) (hf : r.full = false) :
    ∃ r', reflowCells size (items.map Glyph.head) r = some r' ∧
      if r'.full then ∀ more, r'.destination = page size (Glyph.written size.columns)
        (lines ++ wrap (Glyph.width size.columns) size.columns line items ++ more)
      else ∃ lines' line', lines' ++ [line'] =
        lines ++ wrap (Glyph.width size.columns) size.columns line items ∧
          Laid size lines' line' r' := by
  induction items generalizing lines line r with
  | nil =>
    refine ⟨r, rfl, ?_⟩
    rw [if_neg (by simp [hf])]
    exact ⟨lines, line, rfl, hr⟩
  | cons g rest ih =>
    obtain ⟨hg, hrest⟩ := List.forall_mem_cons.mp hitems
    obtain ⟨mid, hm, hmid⟩ := reflowCell_page hg hr
    simp only [List.map_cons, reflowCells, hm, Option.bind_eq_bind, Option.bind_some,
      Option.pure_def, wrap]
    split at hmid
    · rename_i hfit
      simp only [hmid.1, Bool.false_eq_true, if_false, if_pos hfit]
      exact ih hrest hmid.2 hmid.1
    · rename_i hfit
      simp only [if_neg hfit]
      split at hmid
      · obtain ⟨r', hr', hcase⟩ := ih hrest hmid.2 hmid.1
        simp only [hmid.1, Bool.false_eq_true, if_false]
        rw [List.append_cons]
        exact ⟨r', hr', hcase⟩
      · rename_i hrow
        refine ⟨mid, by rw [if_pos hmid.1], ?_⟩
        rw [if_pos hmid.1]
        intro more
        -- No line behind the last row is seen.
        have hend : size.rows ≤ (lines ++ [line]).length := by
          rw [List.length_append, List.length_singleton]
          omega
        rw [hmid.2, hr.destination, List.append_cons lines line (wrap _ _ _ _),
          List.append_assoc (lines ++ [line]), page_full hend]

/-- The rows: each one starts a line. -/
theorem reflowLines_page {source : List Row} {r : Reflow}
    (hp : ∀ row ∈ source, RowPaired row) (hr : Laid size lines [] r) (hf : r.full = false) :
    ∃ r', reflowLines size source r = some r' ∧
      r'.destination = page size (Glyph.written size.columns)
        (lines ++ layout source size.columns) := by
  induction source generalizing lines r with
  | nil =>
    refine ⟨r, rfl, ?_⟩
    rw [hr.destination, page_blank, layout, List.flatMap_nil, List.append_nil]
  | cons row rest ih =>
    obtain ⟨hrow, hrest⟩ := List.forall_mem_cons.mp hp
    obtain ⟨mid, hm, hmid⟩ := reflowCells_page (glyphs_whole (trimmed_paired hrow)) hr hf
    have hlayout : lines ++ layout (row :: rest) size.columns = lines ++
        wrap (Glyph.width size.columns) size.columns [] (glyphs (trimmed row)) ++
        layout rest size.columns := by
      rw [layout, List.flatMap_cons, ← List.append_assoc, ← layout]
    simp only [reflowLines, contentCells_eq hrow, hm, Option.bind_eq_bind, Option.bind_some,
      Option.pure_def]
    split at hmid
    · rename_i hfull
      rw [if_pos hfull, hlayout]
      exact ⟨mid, rfl, hmid _⟩
    · rename_i hfull
      obtain ⟨lines', line', he, hlaid⟩ := hmid
      rw [if_neg hfull, hlayout, ← he, hlaid.row]
      split
      · rename_i hend
        have hend' : size.rows ≤ (lines' ++ [line']).length := by
          rw [List.length_append, List.length_singleton]
          exact hend
        exact ⟨_, rfl, by rw [page_full hend']; exact hlaid.destination⟩
      · rename_i hend
        refine ih hrest ⟨?_, ?_, rfl, ?_⟩ (by simpa using hfull)
        · dsimp only
          rw [hlaid.destination, page_blank]
        · simp
        · rw [List.length_append, List.length_singleton]
          exact Nat.lt_of_not_ge hend

/-- `reflow_rows` on well-formed rows. -/
theorem reflowRows_page {source : List Row} (size : GridSize) (hp : ∀ row ∈ source, RowPaired row) :
    reflowRows source size =
      some (page size (Glyph.written size.columns) (layout source size.columns)) := by
  have hstart : Laid size [] [] ⟨blankRows size, 0, 0, false⟩ := by
    refine ⟨?_, rfl, rfl, size.rows_pos⟩
    rw [page_blank]
    simp [page, blankRows]
  obtain ⟨r', hr', hd⟩ := reflowLines_page hp hstart rfl
  rw [reflowRows, hr', Option.map_some, hd, List.nil_append]

/-! ## The glyphs that a reflow keeps -/

/-- No colours, no attributes and no link. -/
def Cell.Unstyled (c : Cell) : Prop :=
  c.foreground = .default ∧ c.background = .default ∧ c.attributes = .plain ∧ c.hyperlink = none

instance (c : Cell) : Decidable c.Unstyled := by
  unfold Cell.Unstyled
  infer_instance

/-- A wide cell that is replaced has no style to lose, any other one a continuation without one. -/
def Glyph.Keeps (columns : Nat) : Glyph → Prop
  | single _ => True
  | wide cell continuation =>
    if columns = 1 then cell.Unstyled else continuation.Unstyled

instance (columns : Nat) : (g : Glyph) → Decidable (g.Keeps columns)
  | .single _ => .isTrue trivial
  | .wide cell continuation => inferInstanceAs
      (Decidable (if columns = 1 then cell.Unstyled else continuation.Unstyled))

theorem Glyph.Whole.draw_iff {columns : Nat} {g : Glyph} (hg : g.Whole)
    (hv : ∀ c ∈ g.cells, c.Valid) : g.draw columns = g.written columns ↔ g.Keeps columns := by
  cases g with
  | single cell => simp [Glyph.draw, Glyph.written, Glyph.Keeps]
  | wide cell continuation =>
    have ht := (hv continuation (by simp [Glyph.cells])).2 hg.2
    have hw := hg.2
    simp only [Glyph.draw, Glyph.written, Glyph.Keeps]
    split
    · simp [Cell.Unstyled, Cell.blank]
    · cases continuation
      simp_all [Cell.Unstyled, Cell.blank]

theorem page_eq_iff {size : GridSize} {draw draw' : Glyph → Row}
    (h : ∀ g, (draw g).length = (draw' g).length) :
    page size draw lines = page size draw' lines ↔
      ∀ line ∈ lines.take size.rows, ∀ g ∈ line, draw g = draw' g := by
  rw [page, page, List.append_left_inj, List.map_inj_left]
  refine forall₂_congr fun line _ => ?_
  rw [← flatMap_eq_iff fun g _ => h g]
  refine ⟨fun he => ?_, fun he => by rw [he]⟩
  refine (List.append_inj he ?_).1
  simp only [List.length_flatMap, h]

/-- The glyphs of the layout are those of the source, in their order. -/
theorem layout_flatten (source : List Row) (columns : Nat) :
    (layout source columns).flatten = source.flatMap fun row => glyphs (trimmed row) := by
  induction source with
  | nil => rfl
  | cons row rest ih =>
    rw [layout, List.flatMap_cons, List.flatten_append, wrap_flatten, List.nil_append,
      List.flatMap_cons, ← ih, layout]

theorem layout_cells (source : List Row) (columns : Nat) :
    (layout source columns).flatten.flatMap Glyph.cells = source.flatMap trimmed := by
  rw [layout_flatten, List.flatMap_assoc]
  simp only [glyphs_cells]

/-- What the layout shows of the source. -/
theorem layout_whole {source : List Row} {columns : Nat} (hp : ∀ row ∈ source, RowPaired row)
    (hv : ∀ row ∈ source, ∀ c ∈ row, c.Valid) :
    ∀ line ∈ layout source columns, ∀ g ∈ line, g.Whole ∧ ∀ c ∈ g.cells, c.Valid := by
  intro line hline g hg
  have hmem : g ∈ (layout source columns).flatten := List.mem_flatten_of_mem hline hg
  rw [layout_flatten] at hmem
  obtain ⟨row, hrow, hmem⟩ := List.mem_flatMap.mp hmem
  refine ⟨glyphs_whole (trimmed_paired (hp row hrow)) g hmem, fun c hc => ?_⟩
  refine hv row hrow c (trimmed_subset row ?_)
  rw [← glyphs_cells (trimmed row)]
  exact List.mem_flatMap.mpr ⟨g, hmem, hc⟩

theorem layout_fits (source : List Row) {columns : Nat} (h : 0 < columns) :
    ∀ line ∈ layout source columns, lineWidth (Glyph.width columns) line ≤ columns := by
  intro line hline
  obtain ⟨row, -, hline⟩ := List.mem_flatMap.mp hline
  exact wrap_fits (Nat.zero_le _) (fun g _ => g.width_le h) line hline

theorem page_columns {source : List Row} {size : GridSize} {draw : Glyph → Row}
    (hd : ∀ g, (draw g).length = g.width size.columns) :
    ∀ row ∈ page size draw (layout source size.columns), row.length = size.columns := by
  intro row hrow
  rcases List.mem_append.mp hrow with hrow | hrow
  · obtain ⟨line, hline, rfl⟩ := List.mem_map.mp hrow
    have hfit := layout_fits source size.columns_pos line (List.mem_of_mem_take hline)
    rw [padRow, List.length_append, List.length_replicate, length_flatMap_eq fun g _ => hd g]
    omega
  · rw [(List.mem_replicate.mp hrow).2, blankRow, List.length_replicate]

/-- The reflow of every list of well-formed rows to every size: rows of that size, and exactly
those of the layout, in which every glyph of the source without its trailing blank cells stands
once and in order, if every visible glyph keeps what the loop would drop. -/
theorem reflow_law (source : List Row) (size : GridSize) (hp : ∀ row ∈ source, RowPaired row)
    (hv : ∀ row ∈ source, ∀ c ∈ row, c.Valid) :
    (∃ rows, reflowRows source size = some rows ∧ rows.length = size.rows ∧
      ∀ row ∈ rows, row.length = size.columns) ∧
    (layout source size.columns).flatten.flatMap Glyph.cells = source.flatMap trimmed ∧
    (reflowRows source size =
        some (page size (Glyph.draw size.columns) (layout source size.columns)) ↔
      ∀ line ∈ (layout source size.columns).take size.rows, ∀ g ∈ line, g.Keeps size.columns) := by
  rw [reflowRows_page size hp]
  refine ⟨⟨_, rfl, page_length, page_columns (Glyph.length_written _)⟩, layout_cells _ _, ?_⟩
  have hlen : ∀ g, (Glyph.draw size.columns g).length = (Glyph.written size.columns g).length :=
    fun g => by rw [Glyph.length_draw, Glyph.length_written]
  rw [Option.some.injEq, eq_comm, page_eq_iff hlen]
  refine forall₂_congr fun line hline => forall₂_congr fun g hg => ?_
  obtain ⟨hw, hc⟩ := layout_whole hp hv line (List.mem_of_mem_take hline) g hg
  exact hw.draw_iff hc

/-- A wide cell at the end of a line of two, a blank row, a reflow to three columns. -/
theorem reflow_law_wide :
    let wide : Cell := { Cell.blank with text := "世", width := .wide }
    let next : Cell := { Cell.blank with text := "", width := .continuation }
    let a : Cell := { Cell.blank with text := "a" }
    let source : List Row := [[a, a, wide, next], blankRow 4, [a, .blank, .blank, .blank]]
    reflowRows source ⟨3, 3, by decide, by decide⟩ =
      some [[a, a, .blank], [wide, next, .blank], [.blank, .blank, .blank]] := by
  intro wide next a source
  have hrepair : ∀ row ∈ source, repairRow row = row := by decide
  have hvalid : ∀ row ∈ source, ∀ c ∈ row, c.isStructurallyValid := by decide
  have hkeeps : ∀ line ∈ (layout source 3).take 3, ∀ g ∈ line, g.Keeps 3 := by decide
  refine ((reflow_law source ⟨3, 3, by decide, by decide⟩
    (fun row hrow => .of_repair (hrepair row hrow))
    (fun row hrow c hc => Cell.isStructurallyValid_iff.mp (hvalid row hrow c hc))).2.2.mpr
      hkeeps).trans ?_
  decide

/-- A wide character printed on red, and the row made narrower: the half behind it loses its
colour. -/
theorem background_lost :
    let wide : Char → Option Nat := fun _ => some 2
    let g := ((Grid.new ⟨1, 3, by decide, by decide⟩ 0).writeCharacter wide '世' .default
      (.indexed 1) .plain none).getD (.new ⟨1, 3, by decide, by decide⟩ 0)
    let z : GridSize := ⟨1, 2, by decide, by decide⟩
    (∀ row ∈ g.primary.rows, RowPaired row ∧ ∀ c ∈ row, c.Valid) ∧
      reflowRows g.primary.rows z ≠
        some (page z (Glyph.draw z.columns) (layout g.primary.rows z.columns)) ∧
      ((g.resize z).map fun r => r.2.primary.rows.map fun row => row.map (·.background)) =
        some [[.indexed 1, .default]] := by
  intro wide g z
  have hrepair : ∀ row ∈ g.primary.rows, repairRow row = row := by decide
  have hvalid : ∀ row ∈ g.primary.rows, ∀ c ∈ row, c.isStructurallyValid := by decide
  refine ⟨fun row hrow => ⟨.of_repair (hrepair row hrow), fun c hc => ?_⟩, by decide,
    by decide⟩
  exact Cell.isStructurallyValid_iff.mp (hvalid row hrow c hc)

end Strukt
