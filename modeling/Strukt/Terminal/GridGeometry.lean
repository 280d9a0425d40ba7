import Strukt.Terminal.GridRuns
import Strukt.Terminal.GridShape

/-!
# The geometry of a grid

* **The invariant** (`Grid.Geometric`): both screens have the grid's shape, their cursors and scroll
  regions lie inside it, and the scrollback has rows of the grid's width and no more than its limit.
* **Operations** (`Geometric.print` and the others): from such a grid each of them is in bounds and
  leaves such a grid. The one exception is `restore_cursor`: a resize does not clamp the saved
  cursor, so `GridOp.Inside` asks that it lies inside the grid.
-/

namespace Strukt

/-! ## Rows in bounds -/

variable {size : GridSize} {rows : List Row}

theorem RowsShaped.row (h : RowsShaped size rows) {i : Nat} (hi : i < size.rows) :
    ∃ row, rows[i]? = some row ∧ row.length = size.columns ∧ ∀ c ∈ row, c.Valid := by
  have hlt : i < rows.length := h.1 ▸ hi
  exact ⟨rows[i], List.getElem?_eq_getElem hlt, h.2 _ (List.getElem_mem hlt)⟩

theorem modifyCell_inside (h : RowsShaped size rows) {i j : Nat} {f : Cell → Except CellError Cell}
    (hi : i < size.rows) (hj : j < size.columns) (hf : ∀ c, ∃ c', f c = .ok c') :
    ∃ rows', modifyCell rows i j f = some rows' := by
  obtain ⟨row, hrow, hl, -⟩ := h.row hi
  have hlt : j < row.length := hl ▸ hj
  obtain ⟨c', hc'⟩ := hf row[j]
  refine ⟨rows.set i (row.set j c'), ?_⟩
  simp only [modifyCell, hrow, List.getElem?_eq_getElem hlt, hc', Option.bind_eq_bind,
    Option.bind_some, Except.toOption, Option.pure_def]

theorem removeRow_inside (h : RowsShaped size rows) {i : Nat} (hi : i < size.rows) :
    ∃ row rest, removeRow rows i = some (row, rest) ∧ row.length = size.columns ∧
      rest.length = size.rows - 1 := by
  obtain ⟨row, hrow, hl, -⟩ := h.row hi
  have hlt : i < rows.length := h.1 ▸ hi
  refine ⟨row, rows.eraseIdx i, ?_, hl, ?_⟩
  · simp only [removeRow, hrow, Option.bind_eq_bind, Option.bind_some, Option.pure_def]
  · rw [List.length_eraseIdx_of_lt hlt, h.1]

theorem insertRow_inside {i : Nat} {row : Row} (hi : i ≤ rows.length) :
    insertRow rows i row = some (rows.take i ++ row :: rows.drop i) := if_pos hi

/-- A row taken out and a blank one put in, both inside. -/
theorem remove_insert_inside (h : RowsShaped size rows) {i j : Nat} (hi : i < size.rows)
    (hj : j < size.rows) : ∃ row mid rows', removeRow rows i = some (row, mid) ∧
      insertRow mid j (blankRow size.columns) = some rows' ∧ row.length = size.columns ∧
      RowsShaped size rows' := by
  obtain ⟨row, mid, hr, hl, hmid⟩ := removeRow_inside h hi
  have hins : insertRow mid j (blankRow size.columns) = some _ := insertRow_inside (by omega)
  exact ⟨row, mid, _, hr, hins, hl, h.edit (RowsEdit.remove_insert hr hins).1⟩

theorem insert_remove_inside (h : RowsShaped size rows) {i j : Nat} (hi : i < size.rows)
    (hj : j ≤ size.rows) : ∃ mid row rows', insertRow rows i (blankRow size.columns) = some mid ∧
      removeRow mid j = some (row, rows') ∧ RowsShaped size rows' := by
  have hins : insertRow rows i (blankRow size.columns) = some _ :=
    insertRow_inside (by rw [h.1]; omega)
  generalize rows.take i ++ blankRow size.columns :: rows.drop i = mid at hins
  have hlen : mid.length = size.rows + 1 := by
    rw [insertRow_inside (by rw [h.1]; omega), Option.some.injEq] at hins
    rw [← hins, ← h.1]
    simp only [List.length_append, List.length_take, List.length_cons, List.length_drop]
    have := h.1
    omega
  have hlt : j < mid.length := by omega
  have hrm : removeRow mid j = some (mid[j], mid.eraseIdx j) := by
    simp only [removeRow, List.getElem?_eq_getElem hlt, Option.bind_eq_bind, Option.bind_some,
      Option.pure_def]
  exact ⟨mid, _, _, hins, hrm, h.edit (.insert_remove hins hrm)⟩

theorem setText_character (ch : Char) (w : CellWidth) (hw : w ≠ .continuation) (c : Cell) :
    ∃ c', c.setText (String.singleton ch) w = .ok c' := by
  have hfit : ¬(String.singleton ch).utf8ByteSize > maxCellTextBytes := by
    have := ch.utf8Size_le_four
    simp only [String.utf8ByteSize_singleton, maxCellTextBytes]
    omega
  simp only [Cell.setText, hw, false_and, if_false, hfit]
  exact ⟨_, rfl⟩

theorem setText_continuation (c : Cell) : ∃ c', c.setText "" .continuation = .ok c' := by
  simp [Cell.setText, maxCellTextBytes]

theorem writeStyled_total {text : String} {w : CellWidth} {fg bg : Color} {a : CellAttributes}
    {l : Option HyperlinkId} (h : ∀ c : Cell, ∃ c', c.setText text w = .ok c') (c : Cell) :
    ∃ c', Grid.writeStyled text w fg bg a l c = .ok c' := by
  obtain ⟨c', hc⟩ := h c
  exact ⟨_, by rw [Grid.writeStyled, hc]; rfl⟩

/-- The loop of a function that keeps an invariant. -/
theorem iterate_total {α : Type} {I : α → Prop} {f : α → Option α}
    (hf : ∀ a, I a → ∃ a', f a = some a' ∧ I a') (n : Nat) {a : α} (ha : I a) :
    ∃ a', iterate f n a = some a' ∧ I a' := by
  induction n generalizing a with
  | zero => exact ⟨a, rfl, ha⟩
  | succ n ih =>
    obtain ⟨a₁, h₁, hI⟩ := hf a ha
    obtain ⟨a', h', hI'⟩ := ih hI
    exact ⟨a', by rw [iterate, h₁]; exact h', hI'⟩

/-! ## Reflow in bounds -/

theorem reflowCell_inside {cell : Cell} {r : Reflow} (hs : RowsShaped size r.destination)
    (hc : cell.Valid) (hcol : r.column ≤ size.columns) :
    ∃ r', reflowCell size cell r = some r' ∧ RowsShaped size r'.destination ∧
      (r'.full = false → r'.column ≤ size.columns) := by
  have hpos := size.columns_pos
  unfold reflowCell
  extract_lets w row column
  have hw : column + w ≤ size.columns := by
    simp only [w, column]
    split_ifs <;> omega
  have hpos_w : 0 < w := by simp only [w]; split <;> omega
  split_ifs with hrow
  · exact ⟨_, rfl, hs, by simp⟩
  have hi : row < size.rows := Nat.lt_of_not_ge hrow
  have hj : column < size.columns := by omega
  -- Both cells of the place lie inside.
  obtain ⟨d, hd⟩ : ∃ d, reflowPlace size cell r.destination row column w = some d := by
    unfold reflowPlace
    split_ifs with h₁ h₂
    · exact modifyCell_inside hs hi hj (setText_character '\uFFFD' .single (by decide))
    · obtain ⟨mid, hm⟩ := modifyCell_inside (f := fun _ => .ok cell) hs hi hj fun _ => ⟨cell, rfl⟩
      have hmid := hs.modifyCell (fun _ _ _ he => Except.ok.inj he ▸ hc) hm
      rw [hm, Option.bind_some]
      exact modifyCell_inside hmid hi (by omega) setText_continuation
    · obtain ⟨mid, hm⟩ := modifyCell_inside (f := fun _ => .ok cell) hs hi hj fun _ => ⟨cell, rfl⟩
      exact ⟨mid, by rw [hm, Option.bind_some]⟩
  rw [hd, Option.map_some]
  exact ⟨_, rfl, reflowPlace_shaped hc hs hd, fun _ => hw⟩

theorem reflowCells_inside {cells : List Cell} {r : Reflow} (hv : ∀ c ∈ cells, c.Valid)
    (hs : RowsShaped size r.destination) (hcol : r.column ≤ size.columns) :
    ∃ r', reflowCells size cells r = some r' ∧ RowsShaped size r'.destination := by
  induction cells generalizing r with
  | nil => exact ⟨r, rfl, hs⟩
  | cons cell rest ih =>
    obtain ⟨hc, hrest⟩ := List.forall_mem_cons.mp hv
    obtain ⟨r₁, h₁, hs₁, hcol₁⟩ := reflowCell_inside hs hc hcol
    simp only [reflowCells, h₁, Option.bind_eq_bind, Option.bind_some, Option.pure_def]
    split_ifs with hf
    · exact ⟨r₁, rfl, hs₁⟩
    · exact ih hrest hs₁ (hcol₁ (by simpa using hf))

theorem reflowLines_inside {source : List Row} {r : Reflow}
    (hv : ∀ row ∈ source, ∀ c ∈ row, c.Valid) (hs : RowsShaped size r.destination)
    (hcol : r.column ≤ size.columns) : ∃ r', reflowLines size source r = some r' := by
  induction source generalizing r with
  | nil => exact ⟨r, rfl⟩
  | cons row rest ih =>
    obtain ⟨hrow, hrest⟩ := List.forall_mem_cons.mp hv
    obtain ⟨r₁, h₁, hs₁⟩ :=
      reflowCells_inside (fun c hc => hrow c (contentCells_subset row hc)) hs hcol
    simp only [reflowLines, h₁, Option.bind_eq_bind, Option.bind_some, Option.pure_def]
    split_ifs
    · exact ⟨_, rfl⟩
    · exact ⟨_, rfl⟩
    · exact ih hrest hs₁ (Nat.zero_le _)

theorem length_resizeRow (row : Row) (columns : Nat) : (resizeRow row columns).length = columns := by
  simp only [resizeRow, repairRow, repairFrom_length, List.length_append, List.length_take,
    List.length_replicate]
  omega

/-! ## Screens -/

namespace Screen

/-- The cursor and the scroll region lie inside the size. -/
structure Placed (size : GridSize) (s : Screen) : Prop where
  row : s.cursor.row < size.rows
  column : s.cursor.column < size.columns
  ordered : s.scrollTop ≤ s.scrollBottom
  bottom : s.scrollBottom < size.rows

theorem placed_new (size : GridSize) : (Screen.new size).Placed size := by
  have := size.rows_pos
  exact ⟨this, size.columns_pos, Nat.zero_le _, show size.rows - 1 < size.rows by omega⟩

end Screen

theorem resizeScreen_inside {size size' : GridSize} {s : Screen} (hs : RowsShaped size s.rows) :
    ∃ s', resizeScreen s size' = some s' ∧ RowsShaped size' s'.rows ∧ s'.Placed size' := by
  have hr := size'.rows_pos
  have hc := size'.columns_pos
  have hv : ∀ row ∈ s.rows, ∀ c ∈ row, c.Valid := fun row hrow => (hs.2 row hrow).2
  have htotal : ∃ s', resizeScreen s size' = some s' := by
    simp only [resizeScreen, Option.bind_eq_bind, Option.pure_def]
    split_ifs
    · exact ⟨_, rfl⟩
    · obtain ⟨r, hr⟩ := reflowLines_inside (r := ⟨blankRows size', 0, 0, false⟩) hv (.blank size')
        (Nat.zero_le _)
      simp only [reflowRows, hr, Option.map_some, Option.bind_some]
      exact ⟨_, rfl⟩
  obtain ⟨s', h⟩ := htotal
  refine ⟨s', h, resizeScreen_shaped hs h, ?_⟩
  simp only [resizeScreen, Option.bind_eq_bind, Option.pure_def] at h
  obtain ⟨rows, -, h⟩ := Option.bind_eq_some_iff.mp h
  cases h
  refine ⟨?_, ?_, Nat.zero_le _, ?_⟩
  · show min _ _ < _
    omega
  · show min _ _ < _
    omega
  · show size'.rows - 1 < _
    omega

/-! ## The grid -/

namespace Grid

structure Geometric (g : Grid) : Prop where
  shaped : g.Shaped
  primary : g.primary.Placed g.size
  alternate : g.alternate.Placed g.size
  scrollbackRows : ∀ row ∈ g.scrollback, row.length = g.size.columns
  scrollbackLimit : g.scrollback.length ≤ g.scrollbackLimit

variable {g g' : Grid}

theorem geometric_new (size : GridSize) (limit : Nat) : (Grid.new size limit).Geometric :=
  ⟨shaped_new size limit, Screen.placed_new size, Screen.placed_new size, by simp [Grid.new],
    Nat.zero_le _⟩

@[simp] theorem screen_setScreen {s : Screen} : (g.setScreen s).screen = s := by
  cases h : g.active <;> simp only [setScreen, Grid.screen, h]

@[simp] theorem screen_bumpRevision : g.bumpRevision.screen = g.screen := rfl

theorem Geometric.screen (h : g.Geometric) : g.screen.Placed g.size := by
  unfold Grid.screen
  split
  exacts [h.primary, h.alternate]

/-- A write of the active screen that keeps the grid's shape. -/
theorem Geometric.setShaped (h : g.Geometric) {s : Screen} (hs : (g.setScreen s).Shaped)
    (hp : s.Placed g.size) : (g.setScreen s).Geometric := by
  cases hactive : g.active <;> simp only [Grid.setScreen, hactive] at hs ⊢
  · exact ⟨hs, hp, h.alternate, h.scrollbackRows, h.scrollbackLimit⟩
  · exact ⟨hs, h.primary, hp, h.scrollbackRows, h.scrollbackLimit⟩

theorem Geometric.setScreen (h : g.Geometric) {s : Screen} (hs : RowsShaped g.size s.rows)
    (hp : s.Placed g.size) : (g.setScreen s).Geometric :=
  h.setShaped ((kept_setScreen fun _ => hs).2 h.shaped) hp

theorem Geometric.bump (h : g.Geometric) : g.bumpRevision.Geometric :=
  ⟨kept_bump.2 h.shaped, h.primary, h.alternate, h.scrollbackRows, h.scrollbackLimit⟩

theorem Geometric.write (h : g.Geometric) {s : Screen} (hs : (g.setScreen s).bumpRevision.Shaped)
    (hp : s.Placed g.size) : (g.setScreen s).bumpRevision.Geometric :=
  (h.setShaped ⟨hs.primary, hs.alternate⟩ hp).bump

/-- A move of the cursor, or of the scroll region. -/
theorem Geometric.move (h : g.Geometric) {s : Screen} (hs : s.rows = g.screen.rows)
    (hp : s.Placed g.size) : (g.setScreen s).bumpRevision.Geometric :=
  (h.setScreen (hs ▸ h.shaped.screen) hp).bump

/-! ## Output -/

theorem Geometric.carriageReturn (h : g.Geometric) : g.carriageReturn.Geometric :=
  h.setScreen h.shaped.screen
    ⟨h.screen.row, g.size.columns_pos, h.screen.ordered, h.screen.bottom⟩

theorem Geometric.backspace (h : g.Geometric) : g.backspace.Geometric :=
  h.setScreen h.shaped.screen
    ⟨h.screen.row, (Nat.sub_le _ 1).trans_lt h.screen.column, h.screen.ordered, h.screen.bottom⟩

/-- A row that scrolls off pushes the oldest one out of a full scrollback. -/
theorem Geometric.scrollOff (h : g.Geometric) {row : Row} (hl : row.length = g.size.columns)
    (hpos : g.scrollbackLimit > 0) :
    { g with scrollback := (if g.scrollback.length = g.scrollbackLimit then g.scrollback.tail
      else g.scrollback) ++ [row] }.Geometric := by
  refine ⟨⟨h.shaped.primary, h.shaped.alternate⟩, h.primary, h.alternate, ?_, ?_⟩
  · intro line hline
    rcases List.mem_append.mp hline with hline | hline
    · refine h.scrollbackRows line ?_
      split at hline
      exacts [List.mem_of_mem_tail hline, hline]
    · rw [List.mem_singleton.mp hline, hl]
  · have hle := h.scrollbackLimit
    simp only [List.length_append, List.length_singleton]
    split
    · rw [List.length_tail]
      omega
    · omega

theorem Geometric.scrollRegionUpOne (h : g.Geometric) :
    ∃ g', g.scrollRegionUpOne = some g' ∧ g'.Geometric ∧ g'.screen.cursor = g.screen.cursor := by
  have hp := h.screen
  obtain ⟨row, mid, rows, hr, hi, hl, hs⟩ := remove_insert_inside h.shaped.screen
    (hp.ordered.trans_lt hp.bottom) hp.bottom
  have hg : (g.setScreen { g.screen with rows := rows }).Geometric :=
    h.setScreen hs ⟨hp.row, hp.column, hp.ordered, hp.bottom⟩
  have hcursor : (g.setScreen { g.screen with rows := rows }).screen.cursor = g.screen.cursor := by
    rw [screen_setScreen]
  simp only [Grid.scrollRegionUpOne, hr, hi, Option.bind_eq_bind, Option.bind_some,
    Option.pure_def]
  split
  · exact ⟨_, rfl, hg.scrollOff (by rw [hl, size_setScreen]) (by tauto), hcursor⟩
  · exact ⟨_, rfl, hg, hcursor⟩

theorem Geometric.lineFeed (h : g.Geometric) : ∃ g', g.lineFeed = some g' ∧ g'.Geometric ∧
    g'.screen.cursor.column = g.screen.cursor.column := by
  have hp := h.screen
  obtain ⟨g₁, h₁, hg, hcol⟩ : ∃ g₁, (if g.screen.cursor.row = g.screen.scrollBottom then
      g.scrollRegionUpOne
    else if g.screen.cursor.row < g.size.rows - 1 then
      some (g.setScreen { g.screen with
        cursor := { g.screen.cursor with row := g.screen.cursor.row + 1 } })
    else some g) = some g₁ ∧ g₁.Geometric ∧
      g₁.screen.cursor.column = g.screen.cursor.column := by
    split_ifs with hb hlast
    · obtain ⟨g₁, h₁, hg, hc⟩ := h.scrollRegionUpOne
      exact ⟨g₁, h₁, hg, congrArg Cursor.column hc⟩
    · refine ⟨_, rfl, h.setScreen h.shaped.screen ⟨?_, hp.column, hp.ordered, hp.bottom⟩, ?_⟩
      · show g.screen.cursor.row + 1 < g.size.rows
        omega
      · rw [screen_setScreen]
    · exact ⟨g, rfl, h, rfl⟩
  simp only [Grid.lineFeed, h₁, Option.bind_eq_bind, Option.bind_some, Option.pure_def]
  refine ⟨_, rfl, hg.move rfl ?_, ?_⟩
  · exact ⟨hg.screen.row, hg.screen.column, hg.screen.ordered, hg.screen.bottom⟩
  · rw [screen_bumpRevision, screen_setScreen, hcol]

theorem Geometric.appendCombining (h : g.Geometric) (ch : Char) :
    ∃ g', g.appendCombining ch = some g' ∧ g'.Geometric := by
  have hp := h.screen
  suffices htotal : ∃ g', g.appendCombining ch = some g' by
    obtain ⟨g', hg⟩ := htotal
    refine ⟨g', hg, ?_⟩
    have hk := (kept_appendCombining hg).2 h.shaped
    simp only [Grid.appendCombining, Option.bind_eq_bind, Option.pure_def] at hg
    obtain ⟨cells, hcells, hg⟩ := Option.bind_eq_some_iff.mp hg
    obtain ⟨t, -, hg⟩ := Option.bind_eq_some_iff.mp hg
    obtain ⟨target, -, hg⟩ := Option.bind_eq_some_iff.mp hg
    split at hg
    · cases hg
      exact h.write hk ⟨hp.row, hp.column, hp.ordered, hp.bottom⟩
    · cases hg; exact h
  obtain ⟨row, hrow, hl, -⟩ := h.shaped.screen.row hp.row
  have hcol : (if g.screen.wrapPending = true then g.screen.cursor.column
      else g.screen.cursor.column - 1) < row.length := by
    have := hp.column
    split <;> omega
  simp only [Grid.appendCombining, hrow, Option.bind_eq_bind, Option.bind_some, Option.pure_def,
    List.getElem?_eq_getElem hcol]
  generalize (if g.screen.wrapPending = true then g.screen.cursor.column
    else g.screen.cursor.column - 1) = column at hcol
  have hcol' : (if row[column].width = .continuation then column - 1 else column) < row.length := by
    split <;> omega
  rw [List.getElem?_eq_getElem hcol', Option.bind_some]
  split
  · exact ⟨_, rfl⟩
  · exact ⟨g, rfl⟩

/-- The line is left where `c` asks for it. -/
theorem Geometric.wrapped (h : g.Geometric) (c : Prop) [Decidable c] :
    ∃ g', (if c then g.carriageReturn.lineFeed else some g) = some g' ∧ g'.Geometric ∧
      g'.size = g.size ∧ (c → g'.screen.cursor.column = 0) ∧ (¬c → g' = g) := by
  by_cases hc : c
  · obtain ⟨g', hl, hg, hcol⟩ := h.carriageReturn.lineFeed
    refine ⟨g', by rw [if_pos hc, hl], hg, ?_, fun _ => ?_, fun hn => absurd hc hn⟩
    · exact (kept_carriageReturn.trans (kept_lineFeed hl)).1
    · rw [hcol, Grid.carriageReturn, screen_setScreen]
  · exact ⟨g, if_neg hc, h, rfl, fun h => absurd h hc, fun _ => rfl⟩

theorem writeCells_inside {size : GridSize} {rows : List Row} {row column w : Nat} {ch : Char}
    {fg bg : Color} {a : CellAttributes} {l : Option HyperlinkId} (hs : RowsShaped size rows)
    (hrow : row < size.rows) (hcol : column + w ≤ size.columns) (hw : 0 < w) :
    ∃ rows', writeCells rows row column w ch fg bg a l = some rows' := by
  have hwidth : (if w = 2 then CellWidth.wide else .single) ≠ .continuation := by
    split <;> decide
  obtain ⟨mid, hm⟩ := modifyCell_inside (j := column) hs hrow (by omega)
    (@writeStyled_total _ _ fg bg a l (setText_character ch _ hwidth))
  have hmid := hs.modifyCell writeStyled_keeps hm
  simp only [writeCells, hm, Option.bind_some]
  split_ifs with h2
  · exact modifyCell_inside hmid hrow (by omega) (writeStyled_total setText_continuation)
  · exact ⟨mid, rfl⟩

/-- After the wrap the character fits between the cursor and the end of the line. -/
theorem Geometric.fits (h : g.Geometric) {width : Nat} (hle : width ≤ 2)
    (hg : g'.size = g.size)
    (hwrap : (g.screen.wrapPending = true ∨
      (width = 2 ∧ g.screen.cursor.column + width > g.size.columns)) →
        g'.screen.cursor.column = 0)
    (hsame : ¬(g.screen.wrapPending = true ∨
      (width = 2 ∧ g.screen.cursor.column + width > g.size.columns)) → g' = g) :
    g'.screen.cursor.column + (if width = 2 ∧ g.size.columns = 1 then 1 else width) ≤
      g'.size.columns := by
  have hpos := g.size.columns_pos
  have hcol := h.screen.column
  rw [hg]
  by_cases hc : g.screen.wrapPending = true ∨
      (width = 2 ∧ g.screen.cursor.column + width > g.size.columns)
  · rw [hwrap hc]
    split <;> omega
  · rw [hsame hc]
    split <;> omega

theorem Geometric.writeCharacter (h : g.Geometric) (cw : Char → Option Nat) (ch : Char)
    (fg bg : Color) (a : CellAttributes) (l : Option HyperlinkId) :
    ∃ g', g.writeCharacter cw ch fg bg a l = some g' ∧ g'.Geometric := by
  simp only [Grid.writeCharacter, Option.bind_eq_bind, Option.pure_def]
  generalize hwidth : min ((cw ch).getD 0) 2 = width
  have hle : width ≤ 2 := hwidth ▸ Nat.min_le_right _ _
  split
  · exact h.appendCombining ch
  obtain ⟨g₁, h₁, hg, hsize, hwrap, hsame⟩ := h.wrapped (g.screen.wrapPending = true ∨
    (width = 2 ∧ g.screen.cursor.column + width > g.size.columns))
  have hfit := h.fits hle hsize hwrap hsame
  rw [h₁, Option.bind_some]
  have hw0 : 0 < (if width = 2 ∧ g.size.columns = 1 then 1 else width) := by split <;> omega
  generalize (if width = 2 ∧ g.size.columns = 1 then 1 else width) = w at hfit hw0 ⊢
  generalize (if w = 1 ∧ cw ch = some 2 then '\uFFFD' else ch) = rendered
  obtain ⟨rows, hrows⟩ := @writeCells_inside _ _ _ _ _ rendered fg bg a l hg.shaped.screen
    hg.screen.row hfit hw0
  rw [hrows, Option.bind_some]
  have hs : RowsShaped g₁.size rows := writeCells_shaped hg.shaped.screen hrows
  refine ⟨_, rfl, hg.write ((kept_write fun _ => hs).2 hg.shaped) ?_⟩
  refine ⟨hg.screen.row, ?_, hg.screen.ordered, hg.screen.bottom⟩
  show (if g₁.screen.cursor.column + w = g.size.columns then g.size.columns - 1
    else g₁.screen.cursor.column + w) < g₁.size.columns
  rw [hsize] at hfit ⊢
  have := g.size.columns_pos
  split <;> omega

theorem Geometric.printCharacter (h : g.Geometric) (cw : Char → Option Nat) (ch : Char) :
    ∃ g', g.printCharacter cw ch = some g' ∧ g'.Geometric := by
  unfold Grid.printCharacter
  split_ifs
  · exact ⟨_, rfl, h.carriageReturn⟩
  · obtain ⟨g', hl, hg, -⟩ := h.lineFeed
    exact ⟨g', hl, hg⟩
  · exact ⟨_, rfl, h.backspace⟩
  · exact iterate_total (fun g hg => hg.writeCharacter cw ' ' _ _ _ _) _ h
  · exact h.writeCharacter cw ch _ _ _ _

theorem Geometric.print (h : g.Geometric) (cw : Char → Option Nat) (text : String) :
    ∃ g', g.print cw text = some g' ∧ g'.Geometric :=
  foldlM_total h fun _ ch _ hg => hg.printCharacter cw ch

/-! ## Moves, erasure and line editing -/

theorem Geometric.setCursor (h : g.Geometric) (row column : Nat) :
    (g.setCursor row column).Geometric := by
  have hr := g.size.rows_pos
  have hc := g.size.columns_pos
  refine h.move rfl ⟨?_, ?_, h.screen.ordered, h.screen.bottom⟩
  · show min _ _ < _
    omega
  · show min _ _ < _
    omega

theorem Geometric.setScrollRegion (h : g.Geometric) (top bottom : Nat) :
    ((g.setScrollRegion top bottom).toOption.getD g).Geometric := by
  unfold Grid.setScrollRegion
  split_ifs with hr
  · exact h
  · rw [not_or, not_lt, ge_iff_le, not_le] at hr
    exact h.move rfl ⟨hr.1.trans_lt hr.2, g.size.columns_pos, hr.1, hr.2⟩

theorem eraseRange_inside {row : Row} {start stop : Nat} (h : start ≤ stop) (h' : stop ≤ row.length) :
    ∃ row', eraseRange row start stop = some row' := ⟨_, if_pos ⟨h, h'⟩⟩

theorem Geometric.modifyCursorRow (h : g.Geometric) {f : Row → Option Row}
    (hf : ∀ row, row.length = g.size.columns → ∃ row', f row = some row')
    (hk : ∀ g', g.modifyCursorRow f = some g' → Kept g g') :
    ∃ g', g.modifyCursorRow f = some g' ∧ g'.Geometric := by
  obtain ⟨row, hrow, hl, -⟩ := h.shaped.screen.row h.screen.row
  obtain ⟨row', hrow'⟩ := hf row hl
  have hg : g.modifyCursorRow f = some (g.setScreen { g.screen with
      rows := g.screen.rows.set g.screen.cursor.row row'
      wrapPending := false }).bumpRevision := by
    simp only [Grid.modifyCursorRow, hrow, hrow', Option.bind_eq_bind, Option.bind_some,
      Option.pure_def]
  refine ⟨_, hg, h.write ((hk _ hg).2 h.shaped) ?_⟩
  exact ⟨h.screen.row, h.screen.column, h.screen.ordered, h.screen.bottom⟩

theorem Geometric.eraseInLine (h : g.Geometric) (mode : EraseLine) :
    ∃ g', g.eraseInLine mode = some g' ∧ g'.Geometric := by
  have hcol := h.screen.column
  refine h.modifyCursorRow (fun row hl => ?_) fun _ hg => .of_touches (.eraseInLine hg)
  cases mode <;> exact eraseRange_inside (by omega) (by omega)

theorem Geometric.insertBlankCharacters (h : g.Geometric) (count : Nat) :
    ∃ g', g.insertBlankCharacters count = some g' ∧ g'.Geometric := by
  have hcol := h.screen.column
  refine h.modifyCursorRow (fun row hl => ?_) fun _ hg => .of_touches (.insertBlankCharacters hg)
  exact ⟨_, if_pos ⟨by omega, by omega⟩⟩

theorem Geometric.deleteCharacters (h : g.Geometric) (count : Nat) :
    ∃ g', g.deleteCharacters count = some g' ∧ g'.Geometric := by
  have hcol := h.screen.column
  refine h.modifyCursorRow (fun row hl => ?_) fun _ hg => .of_touches (.deleteCharacters hg)
  exact ⟨_, if_pos ⟨by omega, by omega⟩⟩

theorem Geometric.eraseInDisplay (h : g.Geometric) (mode : EraseDisplay) :
    ∃ g', g.eraseInDisplay mode = some g' ∧ g'.Geometric := by
  have hcol := h.screen.column
  suffices htotal : ∃ g', g.eraseInDisplay mode = some g' by
    obtain ⟨g', hg⟩ := htotal
    refine ⟨g', hg, ?_⟩
    have hs := (Kept.of_touches (.eraseInDisplay hg)).2 h.shaped
    simp only [Grid.eraseInDisplay, Option.bind_eq_bind, Option.pure_def] at hg
    obtain ⟨rows, -, hg⟩ := Option.bind_eq_some_iff.mp hg
    cases hg
    exact h.write hs ⟨h.screen.row, h.screen.column, h.screen.ordered, h.screen.bottom⟩
  obtain ⟨row, hrow, hl, -⟩ := h.shaped.screen.row h.screen.row
  simp only [Grid.eraseInDisplay, Option.bind_eq_bind, Option.pure_def]
  cases mode with
  | below =>
    obtain ⟨row', he⟩ : ∃ row', eraseRange row g.screen.cursor.column g.size.columns = some row' :=
      eraseRange_inside (by omega) (by omega)
    exact ⟨_, by simp only [hrow, he, Option.bind_some]; rfl⟩
  | above =>
    obtain ⟨row', he⟩ : ∃ row', eraseRange row 0 (g.screen.cursor.column + 1) = some row' :=
      eraseRange_inside (by omega) (by omega)
    exact ⟨_, by simp only [hrow, he, Option.bind_some]; rfl⟩
  | all => exact ⟨_, rfl⟩

theorem Geometric.moveLines (h : g.Geometric) (count : Nat) {f : List Row → Option (List Row)}
    (hf : g.screen.scrollTop ≤ g.screen.cursor.row → g.screen.cursor.row ≤ g.screen.scrollBottom →
      ∀ rows, RowsShaped g.size rows → ∃ rows', f rows = some rows' ∧ RowsShaped g.size rows') :
    ∃ g', g.moveLines count f = some g' ∧ g'.Geometric := by
  unfold Grid.moveLines
  dsimp only
  split
  · exact ⟨g, rfl, h⟩
  · rename_i hregion
    obtain ⟨rows, hrows, hs⟩ := iterate_total (hf (by omega) (by omega))
      (min (max count 1) (g.screen.scrollBottom - g.screen.cursor.row + 1)) h.shaped.screen
    simp only [hrows, Option.bind_eq_bind, Option.bind_some, Option.pure_def]
    refine ⟨_, rfl, h.write ((kept_write fun _ => hs).2 h.shaped) ?_⟩
    exact ⟨h.screen.row, h.screen.column, h.screen.ordered, h.screen.bottom⟩

theorem Geometric.insertBlankLines (h : g.Geometric) (count : Nat) :
    ∃ g', g.insertBlankLines count = some g' ∧ g'.Geometric := by
  refine h.moveLines count fun _ _ rows hs => ?_
  obtain ⟨mid, row, rows', hi, hr, hs'⟩ := insert_remove_inside hs h.screen.row
    (Nat.succ_le_of_lt h.screen.bottom)
  exact ⟨rows', by simp only [hi, hr, Option.bind_eq_bind, Option.bind_some, Option.pure_def], hs'⟩

theorem Geometric.deleteLines (h : g.Geometric) (count : Nat) :
    ∃ g', g.deleteLines count = some g' ∧ g'.Geometric := by
  refine h.moveLines count fun _ _ rows hs => ?_
  obtain ⟨row, mid, rows', hr, hi, -, hs'⟩ := remove_insert_inside hs h.screen.row h.screen.bottom
  exact ⟨rows', by simp only [hr, hi, Option.bind_eq_bind, Option.bind_some], hs'⟩

theorem Geometric.scrollUp (h : g.Geometric) (lines : Nat) :
    ∃ g', g.scrollUp lines = some g' ∧ g'.Geometric := by
  obtain ⟨g', hg, hgeo⟩ := iterate_total (f := Grid.scrollRegionUpOne) (I := Geometric)
    (fun g hg => by
      obtain ⟨g', hs, hgeo, -⟩ := hg.scrollRegionUpOne
      exact ⟨g', hs, hgeo⟩) (max lines 1) h
  refine ⟨g'.bumpRevision, ?_, hgeo.bump⟩
  simp only [Grid.scrollUp, hg, Option.bind_eq_bind, Option.bind_some, Option.pure_def]

theorem Geometric.reverseIndex (h : g.Geometric) :
    ∃ g', g.reverseIndex = some g' ∧ g'.Geometric := by
  have hp := h.screen
  unfold Grid.reverseIndex
  simp only [Option.bind_eq_bind, Option.pure_def]
  split
  · obtain ⟨row, mid, rows, hr, hi, -, hs⟩ := remove_insert_inside h.shaped.screen hp.bottom
      (hp.ordered.trans_lt hp.bottom)
    simp only [hr, hi, Option.bind_some]
    refine ⟨_, rfl, h.write ((kept_write fun _ => hs).2 h.shaped) ?_⟩
    exact ⟨hp.row, hp.column, hp.ordered, hp.bottom⟩
  · exact ⟨_, rfl, h.move rfl ⟨(Nat.sub_le _ 1).trans_lt hp.row, hp.column, hp.ordered, hp.bottom⟩⟩

theorem Geometric.enterAlternateScreen (h : g.Geometric) : g.enterAlternateScreen.Geometric :=
  ⟨kept_enterAlternateScreen.2 h.shaped, h.primary, Screen.placed_new g.size, h.scrollbackRows,
    h.scrollbackLimit⟩

theorem Geometric.leaveAlternateScreen (h : g.Geometric) : g.leaveAlternateScreen.Geometric :=
  ⟨kept_leaveAlternateScreen.2 h.shaped, h.primary, h.alternate, h.scrollbackRows,
    h.scrollbackLimit⟩

theorem Geometric.resize (h : g.Geometric) (size : GridSize) :
    ∃ g', (g.resize size).map (·.2) = some g' ∧ g'.Geometric := by
  unfold Grid.resize
  split
  · exact ⟨g, rfl, h⟩
  · obtain ⟨primary, hp, hps, hpp⟩ := @resizeScreen_inside _ size _ h.shaped.primary
    obtain ⟨alternate, ha, has, hap⟩ := @resizeScreen_inside _ size _ h.shaped.alternate
    simp only [hp, ha, Option.bind_eq_bind, Option.bind_some, Option.pure_def, Option.map_some]
    refine ⟨_, rfl, ⟨hps, has⟩, hpp, hap, fun row hrow => ?_, ?_⟩
    · obtain ⟨row, -, rfl⟩ := List.mem_map.mp hrow
      exact length_resizeRow row size.columns
    · simpa [bumpRevision] using h.scrollbackLimit

/-! ## Every operation -/

/-- A saved cursor that is restored lies inside the grid. -/
def RestoresInside (g : Grid) (op : GridOp) : Prop :=
  op = .restoreCursor → ∀ cursor ∈ g.screen.savedCursor,
    cursor.row < g.size.rows ∧ cursor.column < g.size.columns

theorem Geometric.restoreCursor (h : g.Geometric) :
    g.restoreCursor.Geometric ↔ g.RestoresInside .restoreCursor := by
  unfold Grid.restoreCursor RestoresInside
  cases hs : g.screen.savedCursor with
  | none => simpa using h
  | some cursor =>
    simp only [forall_const, Option.mem_def, Option.some.injEq, forall_eq']
    refine ⟨fun hg => ?_, fun hc => h.move rfl ⟨hc.1, hc.2, h.screen.ordered, h.screen.bottom⟩⟩
    have hp := hg.screen
    rw [screen_bumpRevision, screen_setScreen] at hp
    exact ⟨by simpa [bumpRevision] using hp.row, by simpa [bumpRevision] using hp.column⟩

/-- From a grid of good geometry an operation is in bounds and leaves one of good geometry, exactly
if a saved cursor that it restores lies inside. -/
theorem Geometric.step (h : g.Geometric) (cw : Char → Option Nat) (op : GridOp) :
    (∃ g', g.step cw op = some g' ∧ g'.Geometric) ↔ g.RestoresInside op := by
  by_cases hop : op = .restoreCursor
  · subst hop
    rw [← h.restoreCursor]
    simp [Grid.step]
  · refine iff_of_true ?_ fun he => absurd he hop
    cases op with
    | print text => exact h.print cw text
    | printStyled ch fg bg a l => exact h.writeCharacter cw ch fg bg a l
    | setCursor row column => exact ⟨_, rfl, h.setCursor row column⟩
    | moveCursor dr dc => exact ⟨_, rfl, h.setCursor _ _⟩
    | saveCursor =>
      exact ⟨_, rfl, h.setScreen h.shaped.screen
        ⟨h.screen.row, h.screen.column, h.screen.ordered, h.screen.bottom⟩⟩
    | restoreCursor => exact absurd rfl hop
    | setCursorVisible visible =>
      exact ⟨_, rfl, h.move rfl ⟨h.screen.row, h.screen.column, h.screen.ordered, h.screen.bottom⟩⟩
    | setScrollRegion top bottom => exact ⟨_, rfl, h.setScrollRegion top bottom⟩
    | eraseInDisplay mode => exact h.eraseInDisplay mode
    | eraseInLine mode => exact h.eraseInLine mode
    | insertBlankCharacters count => exact h.insertBlankCharacters count
    | deleteCharacters count => exact h.deleteCharacters count
    | insertBlankLines count => exact h.insertBlankLines count
    | deleteLines count => exact h.deleteLines count
    | scrollUp lines => exact h.scrollUp lines
    | reverseIndex => exact h.reverseIndex
    | enterAlternateScreen => exact ⟨_, rfl, h.enterAlternateScreen⟩
    | leaveAlternateScreen => exact ⟨_, rfl, h.leaveAlternateScreen⟩
    | resize size => exact h.resize size

/-- Any sequence of operations on a new grid runs through grids of good geometry, exactly if every
saved cursor that it restores lies inside the grid of that moment. -/
theorem geometric_runs (cw : Char → Option Nat) (size : GridSize) (limit : Nat)
    (ops : List GridOp) : RunsIn (step cw) Geometric ops (.new size limit) ↔
      Along (step cw) RestoresInside ops (.new size limit) :=
  runsIn_iff (fun _ op h => h.step cw op) (geometric_new size limit)

/-- A cursor saved before the grid shrank is restored outside of it, and the next character is
written out of bounds. -/
theorem restore_after_shrink :
    let ops : List GridOp := [.setCursor 1 3, .saveCursor, .resize ⟨1, 1, by decide, by decide⟩,
      .restoreCursor, .print "x"]
    let g := Grid.new ⟨2, 4, by decide, by decide⟩ 0
    ¬RunsIn (step fun _ => some 1) Geometric ops g ∧
      ops.foldlM (step fun _ => some 1) g = none := by
  refine ⟨?_, by decide⟩
  rintro ⟨-, g₁, h₁, -, g₂, h₂, -, g₃, h₃, -, g₄, h₄, hg, -⟩
  cases h₁
  cases h₂
  cases h₃
  cases h₄
  exact absurd hg.primary.row (by decide)

end Grid
end Strukt
