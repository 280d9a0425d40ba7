import Strukt.Terminal.GridRuns

/-!
# Wide cells and their continuations

* **A row** (`RowPaired`): a cell is wide exactly if the next one is its continuation.
  `repair_row` establishes this for any row, and the reflow of a resize for any source.
* **A character** (`writeCharacter_paired`): it overwrites one or two cells and repairs nothing, so
  it keeps the pairing exactly if it does not cut another glyph in half (`Grid.CutsGlyph`).
* **Runs** (`paired_runs`): the other operations move rows, or repair the one they edit.
-/

namespace Strukt

/-! ## Rows -/

def widthAt (row : Row) (i : Nat) : Option CellWidth := row[i]?.map (·.width)

/-- Each wide cell is followed by a continuation, each continuation preceded by a wide cell. -/
def RowPaired (row : Row) : Prop :=
  widthAt row 0 ≠ some .continuation ∧
    ∀ i, widthAt row i = some .wide ↔ widthAt row (i + 1) = some .continuation

@[simp] theorem widthAt_nil (i : Nat) : widthAt [] i = none := rfl

@[simp] theorem widthAt_cons_zero (c : Cell) (row : Row) :
    widthAt (c :: row) 0 = some c.width := rfl

@[simp] theorem widthAt_cons_succ (c : Cell) (row : Row) (i : Nat) :
    widthAt (c :: row) (i + 1) = widthAt row i := rfl

theorem rowPaired_congr {row row' : Row} (h : ∀ i, widthAt row i = widthAt row' i) :
    RowPaired row ↔ RowPaired row' := by
  simp only [RowPaired, h]

theorem rowPaired_blank (columns : Nat) : RowPaired (blankRow columns) := by
  have h : ∀ i w, widthAt (blankRow columns) i = some w → w = .single := by
    intro i w hw
    obtain ⟨c, hc, rfl⟩ := Option.map_eq_some_iff.mp hw
    rw [List.eq_of_mem_replicate (List.mem_of_getElem? hc)]
    rfl
  refine ⟨fun h0 => ?_, fun i => ⟨fun hw => ?_, fun hw => ?_⟩⟩
  · cases h _ _ h0
  · cases h _ _ hw
  · cases h _ _ hw

/-- After the walk a continuation stands first only behind a wide cell, and a wide cell that lost
its continuation is gone. -/
theorem repairFrom_paired (before : Option CellWidth) (row : Row) :
    (widthAt (repairFrom before row) 0 = some .continuation ↔
      widthAt row 0 = some .continuation ∧ before = some .wide) ∧
      ∀ i, widthAt (repairFrom before row) i = some .wide ↔
        widthAt (repairFrom before row) (i + 1) = some .continuation := by
  induction row generalizing before with
  | nil => simp [repairFrom]
  | cons cell rest ih =>
    have hhead : (rest.head?.map (·.width) = some .continuation) ↔
        widthAt rest 0 = some .continuation := by
      cases rest <;> rfl
    simp only [repairFrom, widthAt_cons_zero, widthAt_cons_succ, Option.some.injEq]
    refine ⟨?_, fun i => ?_⟩
    · cases hw : cell.width with
      | single => simp [hw]
      | wide => dsimp only; split <;> simp [hw, Cell.blank]
      | continuation => dsimp only; split <;> simp [Cell.blank, *]
    · cases i with
      | succ i => exact (ih _).2 i
      | zero =>
        rw [(ih _).1, Option.some.injEq]
        cases hw : cell.width with
        | single => simp [hw]
        | wide =>
          simp only [hhead]
          split
          · simp [*]
          · simp [Cell.blank]
        | continuation => dsimp only; split <;> simp [Cell.blank, *]

theorem repairRow_paired (row : Row) : RowPaired (repairRow row) := by
  obtain ⟨h0, h⟩ := repairFrom_paired none row
  exact ⟨fun hc => by simpa using h0.mp hc, h⟩

/-! ## A write -/

/-- The widths of a row after a character of `w` columns was written at `column`. -/
def WrittenAt (column w : Nat) (row row' : Row) : Prop :=
  ∀ i, widthAt row' i =
    if i = column then some (if w = 2 then .wide else .single)
    else if w = 2 ∧ i = column + 1 then some .continuation
    else widthAt row i

/-- A character of `w` columns at `column` overwrites half of a wide glyph. -/
def Cuts (row : Row) (column w : Nat) : Prop :=
  if w = 2 then widthAt row column = some .continuation ∨ widthAt row (column + 1) = some .wide
  else widthAt row column ≠ some .single

instance (row : Row) (column w : Nat) : Decidable (Cuts row column w) := by
  unfold Cuts
  infer_instance

variable {row row' : Row} {column w : Nat}

/-- A narrow character keeps the pairing exactly if it overwrites a narrow one. -/
theorem WrittenAt.paired_narrow (h : WrittenAt column w row row') (hw : w ≠ 2)
    (hin : column < row.length) (hp : RowPaired row) :
    RowPaired row' ↔ widthAt row column = some .single := by
  have hat : widthAt row' column = some .single := by rw [h, if_pos rfl, if_neg hw]
  have hother : ∀ i, i ≠ column → widthAt row' i = widthAt row i := by
    intro i hi
    rw [h, if_neg hi, if_neg fun hc => hw hc.1]
  constructor
  · intro hp'
    cases hold : row[column].width with
    | single => rw [widthAt, List.getElem?_eq_getElem hin, Option.map_some, hold]
    | wide =>
      have hnext := (hp.2 column).mp (by rw [widthAt, List.getElem?_eq_getElem hin, Option.map_some, hold])
      rw [← hother _ (by omega), ← hp'.2, hat] at hnext
      cases hnext
    | continuation =>
      have hold : widthAt row column = some .continuation := by
        rw [widthAt, List.getElem?_eq_getElem hin, Option.map_some, hold]
      cases column with
      | zero => exact absurd hold hp.1
      | succ k =>
        rw [← hp.2, ← hother _ (by omega), hp'.2, hat] at hold
        cases hold
  · intro hold
    refine (rowPaired_congr fun i => ?_).mpr hp
    by_cases hi : i = column
    · rw [hi, hat, hold]
    · exact hother i hi

/-- A wide character keeps the pairing exactly if it starts at no continuation and ends at no wide
cell. -/
theorem WrittenAt.paired_wide (h : WrittenAt column 2 row row') (hp : RowPaired row) :
    RowPaired row' ↔ ¬(widthAt row column = some .continuation ∨
      widthAt row (column + 1) = some .wide) := by
  have hat : widthAt row' column = some .wide := by rw [h, if_pos rfl, if_pos rfl]
  have hnext : widthAt row' (column + 1) = some .continuation := by
    rw [h, if_neg (by omega), if_pos ⟨rfl, rfl⟩]
  have hother : ∀ i, i ≠ column → i ≠ column + 1 → widthAt row' i = widthAt row i := by
    intro i hi hi'
    rw [h, if_neg hi, if_neg fun hc => hi' hc.2]
  constructor
  · rintro hp' (hc | hc)
    · -- The wide cell before it would be followed by the new wide cell.
      cases column with
      | zero => exact hp.1 hc
      | succ k =>
        rw [← hp.2, ← hother _ (by omega) (by omega), hp'.2, hat] at hc
        cases hc
    · -- The continuation behind it would be preceded by the new continuation.
      rw [hp.2, ← hother _ (by omega) (by omega), ← hp'.2, hnext] at hc
      cases hc
  · intro hc
    rw [not_or] at hc
    refine ⟨?_, fun i => ?_⟩
    · by_cases h0 : column = 0
      · rw [← h0, hat]
        simp
      · rw [hother 0 (by omega) (by omega)]
        exact hp.1
    · by_cases hi : i = column
      · simp only [hi, hat, hnext]
      by_cases hi' : i = column + 1
      · -- Neither side: the new continuation is not wide, and what follows was not one's.
        rw [hi', hnext, hother _ (by omega) (by omega), ← hp.2]
        simp [hc.2]
      by_cases hi'' : i + 1 = column
      · rw [hi'', hat, hother i hi hi', hp.2, hi'']
        simp [hc.1]
      · rw [hother i hi hi', hother (i + 1) hi'' (by omega)]
        exact hp.2 i

theorem WrittenAt.paired (h : WrittenAt column w row row') (hin : column < row.length)
    (hp : RowPaired row) : RowPaired row' ↔ ¬Cuts row column w := by
  unfold Cuts
  split
  · rename_i hw
    subst hw
    exact h.paired_wide hp
  · rename_i hw
    rw [not_not]
    exact h.paired_narrow hw hin hp

/-- `modify_cell` on the row that it changes. -/
theorem modifyCell_eq {rows rows' : List Row} {i j : Nat} {f : Cell → Except CellError Cell}
    (h : modifyCell rows i j f = some rows') : ∃ row cell cell', rows[i]? = some row ∧
      row[j]? = some cell ∧ f cell = .ok cell' ∧ rows' = rows.set i (row.set j cell') := by
  simp only [modifyCell, Option.bind_eq_bind, Option.bind_eq_some_iff, Option.pure_def,
    Option.some.injEq] at h
  obtain ⟨row, hrow, cell, hcell, cell', hcell', rfl⟩ := h
  refine ⟨row, cell, cell', hrow, hcell, ?_, rfl⟩
  cases hf : f cell with
  | error e => simp [hf, Except.toOption] at hcell'
  | ok d => simpa [hf, Except.toOption] using hcell'

theorem width_setText {c c' : Cell} {text : String} {width : CellWidth}
    (h : c.setText text width = .ok c') : c'.width = width := by
  unfold Cell.setText at h
  split at h
  · cases h
  split at h
  · cases h
  · cases h; rfl

theorem width_writeStyled {c c' : Cell} {text : String} {width : CellWidth} {fg bg : Color}
    {a : CellAttributes} {l : Option HyperlinkId}
    (h : Grid.writeStyled text width fg bg a l c = .ok c') : c'.width = width := by
  unfold Grid.writeStyled at h
  cases hs : c.setText text width with
  | error e => simp [hs, Except.map] at h
  | ok d =>
    simp only [hs, Except.map, Except.ok.injEq] at h
    subst h
    exact (width_setText hs : d.width = width)

theorem widthAt_set {c : Cell} {i j : Nat} (hj : j < row.length) :
    widthAt (row.set j c) i = if i = j then some c.width else widthAt row i := by
  by_cases hi : i = j
  · rw [if_pos hi, hi, widthAt, List.getElem?_set_self hj]
    rfl
  · rw [if_neg hi, widthAt, List.getElem?_set_ne (Ne.symm hi)]
    rfl

/-- A cell changed, and for a wide one the next cell. -/
def modifyCells (rows : List Row) (i column w : Nat) (f f' : Cell → Except CellError Cell) :
    Option (List Row) :=
  (modifyCell rows i column f).bind fun rows =>
    if w = 2 then modifyCell rows i (column + 1) f' else some rows

/-- The row that a character is written into. -/
theorem modifyCells_written {rows rows' : List Row} {i column w : Nat}
    {f g : Cell → Except CellError Cell}
    (hf : ∀ c c', f c = .ok c' → c'.width = if w = 2 then .wide else .single)
    (hg : ∀ c c', g c = .ok c' → c'.width = .continuation)
    (h : modifyCells rows i column w f g = some rows') :
    ∃ row row', rows[i]? = some row ∧ column < row.length ∧ rows' = rows.set i row' ∧
      WrittenAt column w row row' := by
  obtain ⟨mid, hm, h⟩ := Option.bind_eq_some_iff.mp h
  obtain ⟨row, cell, c₁, hrow, hcell, hc₁, rfl⟩ := modifyCell_eq hm
  obtain ⟨hin, -⟩ := List.getElem?_eq_some_iff.mp hcell
  have hw₁ := hf _ _ hc₁
  split at h
  · rename_i hw
    obtain ⟨row₁, cell₂, c₂, hrow₁, hcell₂, hc₂, rfl⟩ := modifyCell_eq h
    obtain ⟨hlt, -⟩ := List.getElem?_eq_some_iff.mp hrow
    rw [List.getElem?_set_self hlt, Option.some.injEq] at hrow₁
    subst hrow₁
    obtain ⟨hin₂, -⟩ := List.getElem?_eq_some_iff.mp hcell₂
    refine ⟨row, _, hrow, hin, by rw [List.set_set], fun j => ?_⟩
    rw [widthAt_set hin₂, widthAt_set hin, hg _ _ hc₂, hw₁, if_pos hw]
    by_cases hj : j = column
    · rw [if_neg (by omega), if_pos hj, if_pos hj]
    · rw [if_neg hj, if_neg hj]
      simp only [hw, true_and]
  · rename_i hw
    cases h
    refine ⟨row, _, hrow, hin, rfl, fun j => ?_⟩
    rw [widthAt_set hin, hw₁, if_neg hw]
    simp only [hw, false_and, if_false]

theorem writeCells_written {rows rows' : List Row} {i column w : Nat} {ch : Char} {fg bg : Color}
    {a : CellAttributes} {l : Option HyperlinkId}
    (h : Grid.writeCells rows i column w ch fg bg a l = some rows') :
    ∃ row row', rows[i]? = some row ∧ column < row.length ∧ rows' = rows.set i row' ∧
      WrittenAt column w row row' :=
  modifyCells_written (fun _ _ => width_writeStyled) (fun _ _ => width_writeStyled) h

/-! ## Reflow -/

/-- No glyph stands at the position or behind it. -/
def BlankFrom (rows : List Row) (i j : Nat) : Prop :=
  ∀ k line, rows[k]? = some line → ∀ column, (i < k ∨ (k = i ∧ j ≤ column)) →
    ∀ width, widthAt line column = some width → width = .single

/-- What `reflow_rows` keeps. -/
structure ReflowPaired (r : Reflow) : Prop where
  paired : ∀ row ∈ r.destination, RowPaired row
  blank : r.full = false → BlankFrom r.destination r.row r.column

theorem paired_set {rows : List Row} {i : Nat} {row : Row} (h : ∀ row ∈ rows, RowPaired row)
    (hr : RowPaired row) : ∀ line ∈ rows.set i row, RowPaired line := by
  intro line hline
  rcases List.mem_or_eq_of_mem_set hline with hline | rfl
  exacts [h line hline, hr]

variable {size : GridSize}

theorem reflowPlace_written {cell : Cell} {rows rows' : List Row}
    {i column : Nat} (hcell : cell.width ≠ .continuation)
    (h : reflowPlace size cell rows i column
      (if cell.width = .wide ∧ size.columns > 1 then 2 else 1) = some rows') :
    ∃ row row', rows[i]? = some row ∧ column < row.length ∧ rows' = rows.set i row' ∧
      WrittenAt column (if cell.width = .wide ∧ size.columns > 1 then 2 else 1) row row' := by
  have hpos := size.columns_pos
  unfold reflowPlace at h
  split at h
  · rename_i hc
    rw [if_neg (by omega)]
    refine modifyCells_written (g := fun c => c.setText "" .continuation)
      (fun c c' hs => ?_) (fun c c' => width_setText)
      (h := (congrArg (Option.bind · _) h).trans rfl)
    exact width_setText hs
  · rename_i hc
    refine modifyCells_written (f := fun _ => .ok cell) (fun c c' hs => ?_)
      (fun c c' => width_setText) h
    cases hs
    cases hw : cell.width with
    | single => simp
    | wide =>
      have : size.columns > 1 := by
        rw [hw] at hc
        simp only [true_and] at hc
        omega
      simp [this]
    | continuation => exact absurd hw hcell

theorem reflowCell_paired {cell : Cell} {r r' : Reflow}
    (hcell : cell.width ≠ .continuation) (hr : ReflowPaired r) (hfull : r.full = false)
    (h : reflowCell size cell r = some r') : ReflowPaired r' := by
  have hblank := hr.blank hfull
  unfold reflowCell at h
  extract_lets w row column at h
  -- The next position is not before the last one.
  have hblank' : BlankFrom r.destination row column := by
    intro k old hk j hj
    refine hblank k old hk j ?_
    simp only [row, column] at hj
    split at hj <;> omega
  split at h
  · cases h
    exact ⟨hr.paired, by simp⟩
  · obtain ⟨d, hd, rfl⟩ := Option.map_eq_some_iff.mp h
    obtain ⟨old, new, hold, hin, rfl, hwritten⟩ := reflowPlace_written hcell hd
    have hlt : row < r.destination.length := (List.getElem?_eq_some_iff.mp hold).1
    have hsingle : ∀ j, column ≤ j → ∀ width, widthAt old j = some width → width = .single :=
      fun j hj => hblank' row old hold j (.inr ⟨rfl, hj⟩)
    refine ⟨paired_set hr.paired ((hwritten.paired hin (hr.paired _ (List.mem_of_getElem? hold))).mpr
      ?_), fun _ => ?_⟩
    · -- Blank cells are no halves of a glyph.
      have hat : widthAt old column = some .single := by
        have hs : widthAt old column = some old[column].width := by
          rw [widthAt, List.getElem?_eq_getElem hin]
          rfl
        rw [hs, hsingle column le_rfl _ hs]
      unfold Cuts
      split
      · rintro (hc | hc)
        · rw [hat] at hc
          cases hc
        · cases hsingle _ (Nat.le_succ _) _ hc
      · exact fun hc => hc hat
    · intro k line₁ hk j hj width hwidth
      dsimp only at hj
      by_cases hkr : k = row
      · subst hkr
        rw [List.getElem?_set_self hlt, Option.some.injEq] at hk
        subst hk
        have hj' : column + w ≤ j := by
          rcases hj with hj | hj
          · exact absurd hj (lt_irrefl _)
          · exact hj.2
        have hw : 1 ≤ w := by simp only [w]; split <;> omega
        rw [hwritten, if_neg (by omega), if_neg] at hwidth
        · exact hsingle j (by omega) width hwidth
        · rintro ⟨h2, hj2⟩
          have : w = 2 := h2
          omega
      · rw [List.getElem?_set_ne (Ne.symm hkr)] at hk
        exact hblank' k line₁ hk j (by omega) width hwidth

theorem reflowCells_paired {cells : List Cell} {r r' : Reflow}
    (hcells : ∀ c ∈ cells, c.width ≠ .continuation) (hr : ReflowPaired r) (hfull : r.full = false)
    (h : reflowCells size cells r = some r') : ReflowPaired r' := by
  induction cells generalizing r with
  | nil => cases h; exact hr
  | cons cell rest ih =>
    obtain ⟨hcell, hrest⟩ := List.forall_mem_cons.mp hcells
    simp only [reflowCells, Option.bind_eq_bind, Option.pure_def] at h
    obtain ⟨mid, hm, h⟩ := Option.bind_eq_some_iff.mp h
    have hmid := reflowCell_paired hcell hr hfull hm
    split at h
    · cases h; exact hmid
    · rename_i hf
      exact ih hrest hmid (by simpa using hf) h

theorem contentCells_width (row : Row) : ∀ c ∈ contentCells row, c.width ≠ .continuation := by
  intro c hc
  simpa using (List.mem_filter.mp hc).2

theorem reflowLines_paired {source : List Row} {r r' : Reflow}
    (hr : ReflowPaired r) (hfull : r.full = false) (h : reflowLines size source r = some r') :
    ReflowPaired r' := by
  induction source generalizing r with
  | nil => cases h; exact hr
  | cons row rest ih =>
    simp only [reflowLines, Option.bind_eq_bind, Option.pure_def] at h
    obtain ⟨mid, hm, h⟩ := Option.bind_eq_some_iff.mp h
    have hmid := reflowCells_paired (contentCells_width row) hr hfull hm
    split at h
    · cases h; exact hmid
    · rename_i hf
      have hf : mid.full = false := by simpa using hf
      have hnext : ReflowPaired { mid with row := mid.row + 1, column := 0 } := by
        refine ⟨hmid.paired, fun _ k line hk j hj => hmid.blank hf k line hk j ?_⟩
        dsimp only at hj
        omega
      split at h
      · cases h; exact hnext
      · exact ih hnext hf h

/-- A reflow pairs the cells whatever the source's rows are. -/
theorem reflowRows_paired {source rows : List Row}
    (h : reflowRows source size = some rows) : ∀ row ∈ rows, RowPaired row := by
  obtain ⟨r, hr, rfl⟩ := Option.map_eq_some_iff.mp h
  refine (reflowLines_paired ⟨fun row hrow => ?_, fun _ => ?_⟩ rfl hr).paired
  · rw [(List.mem_replicate.mp hrow).2]
    exact rowPaired_blank _
  · intro k line hk j _ width hwidth
    have hline := List.eq_of_mem_replicate (List.mem_of_getElem? hk)
    subst hline
    obtain ⟨c, hc, rfl⟩ := Option.map_eq_some_iff.mp hwidth
    rw [List.eq_of_mem_replicate (List.mem_of_getElem? hc)]
    rfl

theorem resizeScreen_paired {s s' : Screen} (h : resizeScreen s size = some s') :
    ∀ row ∈ s'.rows, RowPaired row := by
  simp only [resizeScreen, Option.bind_eq_bind, Option.pure_def] at h
  obtain ⟨rows, hr, h⟩ := Option.bind_eq_some_iff.mp h
  cases h
  split at hr
  · cases hr
    intro row hrow
    obtain ⟨line, -, rfl⟩ := List.mem_map.mp hrow
    exact repairRow_paired _
  · exact reflowRows_paired hr

/-! ## The grid -/

namespace Grid

/-- In every row of both screens and of the scrollback. -/
structure Paired (g : Grid) : Prop where
  primary : ∀ row ∈ g.primary.rows, RowPaired row
  alternate : ∀ row ∈ g.alternate.rows, RowPaired row
  scrollback : ∀ row ∈ g.scrollback, RowPaired row

variable {g g' : Grid} {cw : Char → Option Nat}

theorem blankRows_paired (size : GridSize) : ∀ row ∈ blankRows size, RowPaired row := by
  intro row hrow
  rw [(List.mem_replicate.mp hrow).2]
  exact rowPaired_blank _

theorem paired_new (size : GridSize) (limit : Nat) : (Grid.new size limit).Paired :=
  ⟨blankRows_paired size, blankRows_paired size, by simp [Grid.new]⟩

theorem Paired.screen (h : g.Paired) : ∀ row ∈ g.screen.rows, RowPaired row := by
  unfold Grid.screen
  split
  exacts [h.primary, h.alternate]

theorem Paired.setScreen (h : g.Paired) {s : Screen} :
    (g.setScreen s).Paired ↔ ∀ row ∈ s.rows, RowPaired row := by
  cases hactive : g.active <;> simp only [Grid.setScreen, hactive]
  · exact ⟨fun h' => h'.primary, fun hs => ⟨hs, h.alternate, h.scrollback⟩⟩
  · exact ⟨fun h' => h'.alternate, fun hs => ⟨h.primary, hs, h.scrollback⟩⟩

theorem paired_bump : g.bumpRevision.Paired ↔ g.Paired :=
  ⟨fun h => ⟨h.primary, h.alternate, h.scrollback⟩, fun h => ⟨h.primary, h.alternate, h.scrollback⟩⟩

/-- An edit moves rows, or repairs the one it changes, or adds a combining character. -/
theorem RowsEdit.paired {columns : Nat} {rows rows' : List Row} (h : RowsEdit columns rows rows')
    (hp : ∀ row ∈ rows, RowPaired row) : ∀ row ∈ rows', RowPaired row := by
  induction h with
  | refl rows => exact hp
  | trans _ _ ih₁ ih₂ => exact ih₂ (ih₁ hp)
  | moved _ hm =>
    intro row hrow
    rcases hm row hrow with hrow | rfl
    exacts [hp row hrow, rowPaired_blank _]
  | repaired _ _ _ => exact paired_set hp (repairRow_paired _)
  | combined hrow hcell hc =>
    refine paired_set hp ((rowPaired_congr fun i => ?_).mpr (hp _ (List.mem_of_getElem? hrow)))
    obtain ⟨hlt, heq⟩ := List.getElem?_eq_some_iff.mp hcell
    rw [widthAt_set hlt]
    split
    · rename_i hi
      rw [hi, widthAt, hcell, Option.map_some]
      unfold Cell.appendCombining at hc
      split at hc
      · cases hc
      split at hc
      · cases hc
      · cases hc; rfl
    · rfl

theorem Paired.of_touches (h : Touches g g') (hg : g.Paired) : g'.Paired := by
  induction h with
  | refl g => exact hg
  | trans _ _ ih₁ ih₂ => exact ih₂ (ih₁ hg)
  | bump g => exact paired_bump.mpr hg
  | screen g he => exact hg.setScreen.mpr (RowsEdit.paired he hg.screen)
  | scrollOff _ he hmem hk =>
    have hs := hg.setScreen.mpr (RowsEdit.paired he hg.screen)
    refine ⟨hs.primary, hs.alternate, fun row hrow => ?_⟩
    rcases List.mem_append.mp hrow with hrow | hrow
    · exact hg.scrollback row (hk hrow)
    · rw [List.mem_singleton.mp hrow]
      exact hg.screen _ hmem

/-! ## Characters -/

/-- The character is written over half of a wide glyph. -/
def CutsGlyph (cw : Char → Option Nat) (g : Grid) (ch : Char) : Prop :=
  let width := min ((cw ch).getD 0) 2
  width ≠ 0 ∧ ∃ mid ∈ g.wrapFor width, ∃ row ∈ mid.screen.rows[mid.screen.cursor.row]?,
    Cuts row mid.screen.cursor.column (g.columnsOf width)

instance (cw : Char → Option Nat) (g : Grid) (ch : Char) : Decidable (g.CutsGlyph cw ch) := by
  unfold CutsGlyph
  infer_instance

/-- A written character keeps the pairing exactly if it cuts no glyph. -/
theorem writeCharacter_paired {ch : Char} {fg bg : Color} {a : CellAttributes}
    {l : Option HyperlinkId} (hg : g.Paired) (h : g.writeCharacter cw ch fg bg a l = some g') :
    g'.Paired ↔ ¬g.CutsGlyph cw ch := by
  rcases writeCharacter_cases h with ⟨h0, h⟩ | ⟨mid, rows, rendered, s, h0, hm, hr, hs, rfl⟩
  · exact iff_of_true (Paired.of_touches (.appendCombining h) hg) fun hc => hc.1 h0
  · have hmid := Paired.of_touches (.wrapFor hm) hg
    obtain ⟨row, row', hrow, hin, hset, hwritten⟩ := writeCells_written hr
    have hkey := hwritten.paired hin (hmid.screen _ (List.mem_of_getElem? hrow))
    have hcut : g.CutsGlyph cw ch ↔ Cuts row mid.screen.cursor.column
        (g.columnsOf (min ((cw ch).getD 0) 2)) := by
      simp only [CutsGlyph, hm, Option.mem_some_iff, exists_eq_left', hrow, ne_eq, h0,
        not_false_eq_true, true_and]
    have hlt : mid.screen.cursor.row < mid.screen.rows.length :=
      (List.getElem?_eq_some_iff.mp hrow).1
    rw [paired_bump, hmid.setScreen, hs, hset, hcut, ← hkey]
    exact ⟨fun hall => hall row' (List.mem_of_getElem? (List.getElem?_set_self hlt)),
      paired_set hmid.screen⟩

/-- `print` of a character writes over no half of a glyph; a tab writes blanks. -/
def CharacterWhole (cw : Char → Option Nat) (g : Grid) (ch : Char) : Prop :=
  if ch = '\r' ∨ ch = '\n' ∨ ch = '\x08' then True
  else if ch = '\t' then
    Along (fun g (_ : Unit) => g.writeCharacter cw ' ' .default .default .plain none)
      (fun g _ => ¬g.CutsGlyph cw ' ')
      (List.replicate (8 - g.screen.cursor.column % 8) ()) g
  else ¬g.CutsGlyph cw ch

instance (cw : Char → Option Nat) (g : Grid) (ch : Char) : Decidable (g.CharacterWhole cw ch) := by
  unfold CharacterWhole
  infer_instance

/-- The characters that the operation writes cut no glyph. -/
def WritesWhole (cw : Char → Option Nat) (g : Grid) : GridOp → Prop
  | .print text => Along (printCharacter cw) (CharacterWhole cw) text.toList g
  | .printStyled ch _ _ _ _ => ¬g.CutsGlyph cw ch
  | _ => True

instance (cw : Char → Option Nat) (g : Grid) (op : GridOp) : Decidable (g.WritesWhole cw op) := by
  cases op <;> dsimp only [WritesWhole] <;> infer_instance

theorem iterate_eq_foldlM {α : Type} (f : α → Option α) (n : Nat) (a : α) :
    iterate f n a = (List.replicate n ()).foldlM (fun a _ => f a) a := by
  induction n generalizing a with
  | zero => rfl
  | succ n ih =>
    rw [iterate, List.replicate_succ, List.foldlM_cons]
    exact congrArg _ (funext ih)

theorem printCharacter_paired {ch : Char} (hg : g.Paired) (hch : g.CharacterWhole cw ch)
    (h : g.printCharacter cw ch = some g') : g'.Paired := by
  unfold printCharacter at h
  unfold CharacterWhole at hch
  split at h
  · cases h; exact hg.of_touches (.carriageReturn g)
  split at h
  · exact hg.of_touches (.lineFeed h)
  split at h
  · cases h; exact hg.of_touches (.backspace g)
  rename_i hr hn hb
  rw [if_neg (by tauto)] at hch
  split at h
  · rename_i ht
    rw [if_pos ht] at hch
    rw [iterate_eq_foldlM] at h
    exact hch.invariant hg (fun g _ g' hg hc hw => (writeCharacter_paired hg hw).mpr hc) h
  · rename_i ht
    rw [if_neg ht] at hch
    exact (writeCharacter_paired hg h).mpr hch

/-! ## Every operation -/

theorem Paired.step {op : GridOp} (hg : g.Paired) (hop : g.WritesWhole cw op)
    (h : g.step cw op = some g') : g'.Paired := by
  cases op with
  | print text =>
    exact Along.invariant hop hg (fun g ch g' hg hc hp => printCharacter_paired hg hc hp) h
  | printStyled ch fg bg a l => exact (writeCharacter_paired hg h).mpr hop
  | enterAlternateScreen => cases h; exact ⟨hg.primary, blankRows_paired g.size, hg.scrollback⟩
  | leaveAlternateScreen => cases h; exact ⟨hg.primary, hg.alternate, hg.scrollback⟩
  | resize size =>
    obtain ⟨⟨changed, g₁⟩, hr, rfl⟩ := Option.map_eq_some_iff.mp h
    unfold Grid.resize at hr
    split at hr
    · cases hr; exact hg
    · simp only [Option.bind_eq_bind, Option.pure_def] at hr
      obtain ⟨primary, hp, hr⟩ := Option.bind_eq_some_iff.mp hr
      obtain ⟨alternate, ha, hr⟩ := Option.bind_eq_some_iff.mp hr
      cases hr
      refine ⟨resizeScreen_paired hp, resizeScreen_paired ha, fun row hrow => ?_⟩
      obtain ⟨line, -, rfl⟩ := List.mem_map.mp hrow
      exact repairRow_paired _
  | _ => exact hg.of_touches (Touches.step (by trivial) h)

/-- Sequences whose characters cut no glyph keep every row paired, and a single character keeps it
only so. -/
theorem paired_runs (cw : Char → Option Nat) :
    (∀ (size : GridSize) (limit : Nat) (ops : List GridOp) (g' : Grid),
      Along (Grid.step cw) (WritesWhole cw) ops (.new size limit) →
        ops.foldlM (Grid.step cw) (.new size limit) = some g' → g'.Paired) ∧
    (∀ (g g' : Grid) (ch : Char) (fg bg : Color) (a : CellAttributes) (l : Option HyperlinkId),
      g.Paired → g.step cw (.printStyled ch fg bg a l) = some g' →
        (g'.Paired ↔ g.WritesWhole cw (.printStyled ch fg bg a l))) := by
  refine ⟨fun size limit ops g' hops h => ?_, fun g g' ch fg bg a l hg h => ?_⟩
  · exact hops.invariant (paired_new size limit) (fun g op g' hg hop hs => hg.step hop hs) h
  · exact writeCharacter_paired hg h

/-- A display width for examples: only this character is wide. -/
def oneWide (ch : Char) : Option Nat := some (if ch = '界' then 2 else 1)

/-- A wide character written over itself, and a letter after it. -/
theorem paired_runs_rewrite :
    let ops : List GridOp := [.print "a界", .setCursor 0 1, .print "界"]
    ∃ g g', ops.foldlM (Grid.step oneWide) (.new ⟨1, 4, by decide, by decide⟩ 0) = some g ∧
      g.step oneWide (.printStyled 'b' .default .default .plain none) = some g' ∧ g'.Paired := by
  intro ops
  have hruns : (ops.foldlM (Grid.step oneWide) (.new ⟨1, 4, by decide, by decide⟩ 0)).any
      fun g => (g.step oneWide (.printStyled 'b' .default .default .plain none)).isSome ∧
        g.WritesWhole oneWide (.printStyled 'b' .default .default .plain none) := by
    decide
  obtain ⟨g, h, hnext⟩ := (Option.any_eq_true _ _).mp hruns
  obtain ⟨hsome, hwhole⟩ := of_decide_eq_true hnext
  obtain ⟨g', h'⟩ := Option.isSome_iff_exists.mp hsome
  have hg := (paired_runs oneWide).1 _ _ ops g (by decide) h
  exact ⟨g, g', h, h', ((paired_runs oneWide).2 _ _ _ _ _ _ _ hg h').mpr hwhole⟩

/-- A letter over the left half of a wide glyph leaves the right half alone. -/
theorem overwrite_orphans : ∃ g' : Grid,
    [.print "界", .setCursor 0 0, .print "x"].foldlM (Grid.step oneWide)
      (.new ⟨1, 4, by decide, by decide⟩ 0) = some g' ∧ ¬g'.Paired := by
  have hcell : ([.print "界", .setCursor 0 0, .print "x"].foldlM (Grid.step oneWide)
      (.new ⟨1, 4, by decide, by decide⟩ 0)).any (fun g => g.primary.rows.any fun row =>
        widthAt row 0 = some .single ∧ widthAt row 1 = some .continuation) := by
    decide
  obtain ⟨g', h, hrow⟩ := (Option.any_eq_true _ _).mp hcell
  refine ⟨g', h, fun hp => ?_⟩
  obtain ⟨row, hmem, hrow⟩ := List.any_eq_true.mp hrow
  obtain ⟨h0, h1⟩ := of_decide_eq_true hrow
  rw [← (hp.primary row hmem).2 0, h0] at h1
  cases h1

end Grid
end Strukt
