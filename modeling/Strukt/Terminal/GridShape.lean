import Strukt.Terminal.GridEffects
import Strukt.Terminal.Parser

/-!
# The shape of a grid

Whatever output a terminal model takes, its grid keeps its size: each screen has the size's rows,
each row the size's columns, and each cell is structurally valid (`Grid.Shaped`). A resize moves to
the new size's shape. So the size bounds what a snapshot holds (`TerminalModel.Shaped.snapshot`).
-/

namespace Strukt

/-- `rows` rows of `columns` valid cells. -/
def RowsShaped (size : GridSize) (rows : List Row) : Prop :=
  rows.length = size.rows ∧ ∀ row ∈ rows, row.length = size.columns ∧ ∀ c ∈ row, c.Valid

theorem RowsShaped.blank (size : GridSize) : RowsShaped size (blankRows size) := by
  refine ⟨by simp [blankRows], fun row hrow => ?_⟩
  obtain rfl := (List.mem_replicate.mp hrow).2
  refine ⟨by simp [blankRow], fun c hc => ?_⟩
  obtain rfl := (List.mem_replicate.mp hc).2
  exact Cell.valid_blank

theorem blankRow_shaped (size : GridSize) :
    (blankRow size.columns).length = size.columns ∧ ∀ c ∈ blankRow size.columns, c.Valid :=
  (RowsShaped.blank size).2 _ (List.mem_replicate.mpr ⟨size.rows_pos.ne', rfl⟩)

/-! ## Rows -/

theorem repairFrom_length (before : Option CellWidth) (row : Row) :
    (repairFrom before row).length = row.length := by
  induction row generalizing before with
  | nil => rfl
  | cons cell rest ih => simp [repairFrom, ih]

theorem repairFrom_valid {before : Option CellWidth} {row : Row} (h : ∀ c ∈ row, c.Valid) :
    ∀ c ∈ repairFrom before row, c.Valid := by
  induction row generalizing before with
  | nil => simp [repairFrom]
  | cons cell rest ih =>
    obtain ⟨hc, hrest⟩ := List.forall_mem_cons.mp h
    simp only [repairFrom]
    refine List.forall_mem_cons.mpr ⟨?_, ih hrest⟩
    split
    · split
      exacts [hc, Cell.valid_blank]
    · split
      exacts [hc, Cell.valid_blank]
    · exact hc

theorem repairRow_valid {row : Row} (h : ∀ c ∈ row, c.Valid) : ∀ c ∈ repairRow row, c.Valid :=
  repairFrom_valid h

theorem replicate_valid (n : Nat) : ∀ c ∈ List.replicate n Cell.blank, c.Valid := by
  intro c hc
  obtain rfl := (List.mem_replicate.mp hc).2
  exact Cell.valid_blank

theorem append_valid {a b : Row} (ha : ∀ c ∈ a, c.Valid) (hb : ∀ c ∈ b, c.Valid) :
    ∀ c ∈ a ++ b, c.Valid := by
  intro c hc
  rcases List.mem_append.mp hc with h | h
  exacts [ha c h, hb c h]

theorem resizeRow_shaped {row : Row} (columns : Nat) (hv : ∀ c ∈ row, c.Valid) :
    (resizeRow row columns).length = columns ∧ ∀ c ∈ resizeRow row columns, c.Valid := by
  refine ⟨?_, repairRow_valid (append_valid (fun c hc => hv c (List.mem_of_mem_take hc))
    (replicate_valid _))⟩
  simp only [resizeRow, repairRow, repairFrom_length, List.length_append, List.length_take,
    List.length_replicate]
  omega

namespace RowsShaped

variable {size : GridSize} {rows rows' : List Row}

theorem set (h : RowsShaped size rows) {i : Nat} {row : Row} (hl : row.length = size.columns)
    (hv : ∀ c ∈ row, c.Valid) : RowsShaped size (rows.set i row) := by
  refine ⟨by simpa using h.1, fun r hr => ?_⟩
  rcases List.mem_or_eq_of_mem_set hr with hr | rfl
  exacts [h.2 r hr, ⟨hl, hv⟩]

theorem modifyCell (h : RowsShaped size rows) {i j : Nat} {f : Cell → Except CellError Cell}
    (hf : ∀ c c', c.Valid → f c = .ok c' → c'.Valid)
    (hm : Strukt.modifyCell rows i j f = some rows') : RowsShaped size rows' := by
  simp only [Strukt.modifyCell, Option.bind_eq_bind, Option.bind_eq_some_iff, Option.pure_def,
    Option.some.injEq] at hm
  obtain ⟨row, hrow, cell, hcell, cell', hcell', rfl⟩ := hm
  obtain ⟨hl, hv⟩ := h.2 row (List.mem_of_getElem? hrow)
  refine h.set (by simpa using hl) fun c hc => ?_
  rcases List.mem_or_eq_of_mem_set hc with hc | rfl
  · exact hv c hc
  · refine hf cell c (hv cell (List.mem_of_getElem? hcell)) ?_
    cases hfc : f cell with
    | error e => simp [hfc, Except.toOption] at hcell'
    | ok d => simpa [hfc, Except.toOption] using hcell'

/-- Every edit of the rows keeps their shape. -/
theorem edit (h : RowsShaped size rows) (he : RowsEdit size.columns rows rows') :
    RowsShaped size rows' := by
  induction he with
  | refl rows => exact h
  | trans _ _ ih₁ ih₂ => exact ih₂ (ih₁ h)
  | moved hl hm =>
    refine ⟨hl.trans h.1, fun row hrow => ?_⟩
    rcases hm row hrow with hrow | rfl
    exacts [h.2 row hrow, blankRow_shaped size]
  | repaired hrow hl hm =>
    obtain ⟨hlen, hv⟩ := h.2 _ (List.mem_of_getElem? hrow)
    refine h.set ?_ (repairRow_valid fun c hc => ?_)
    · rw [repairRow, repairFrom_length, hl hlen]
    · rcases hm c hc with hc | rfl
      exacts [hv c hc, Cell.valid_blank]
  | combined hrow hcell hc =>
    obtain ⟨hlen, hv⟩ := h.2 _ (List.mem_of_getElem? hrow)
    refine h.set (by simpa using hlen) fun c hmem => ?_
    rcases List.mem_or_eq_of_mem_set hmem with hmem | rfl
    exacts [hv c hmem, Cell.appendCombining_valid hc]

end RowsShaped

/-! ## Reflow -/

theorem setText_keeps {text : String} {w : CellWidth} :
    ∀ c c' : Cell, c.Valid → c.setText text w = .ok c' → c'.Valid :=
  fun _ _ _ h => Cell.setText_valid h

theorem reflowPlace_shaped {size : GridSize} {cell : Cell} {rows rows' : List Row}
    {row column w : Nat} (hc : cell.Valid) (hr : RowsShaped size rows)
    (h : reflowPlace size cell rows row column w = some rows') : RowsShaped size rows' := by
  unfold reflowPlace at h
  split at h
  · exact hr.modifyCell setText_keeps h
  · obtain ⟨mid, hm, h⟩ := Option.bind_eq_some_iff.mp h
    have hmid := hr.modifyCell (fun _ _ _ he => Except.ok.inj he ▸ hc) hm
    split at h
    · exact hmid.modifyCell setText_keeps h
    · cases h; exact hmid

theorem reflowCell_shaped {size : GridSize} {cell : Cell} {r r' : Reflow} (hc : cell.Valid)
    (hr : RowsShaped size r.destination) (h : reflowCell size cell r = some r') :
    RowsShaped size r'.destination := by
  unfold reflowCell at h
  extract_lets w row column at h
  split at h
  · cases h; exact hr
  · obtain ⟨d, hd, rfl⟩ := Option.map_eq_some_iff.mp h
    exact reflowPlace_shaped hc hr hd

theorem reflowCells_shaped {size : GridSize} {cells : List Cell} {r r' : Reflow}
    (hc : ∀ c ∈ cells, c.Valid) (hr : RowsShaped size r.destination)
    (h : reflowCells size cells r = some r') : RowsShaped size r'.destination := by
  induction cells generalizing r with
  | nil => cases h; exact hr
  | cons cell rest ih =>
    obtain ⟨hcell, hrest⟩ := List.forall_mem_cons.mp hc
    simp only [reflowCells, Option.bind_eq_bind, Option.pure_def] at h
    obtain ⟨mid, hm, h⟩ := Option.bind_eq_some_iff.mp h
    have hmid := reflowCell_shaped hcell hr hm
    split at h
    · cases h; exact hmid
    · exact ih hrest hmid h

theorem contentCells_subset (row : Row) : contentCells row ⊆ row := by
  intro c hc
  have := List.mem_of_mem_filter hc
  rw [List.mem_reverse] at this
  exact List.mem_reverse.mp ((List.dropWhile_suffix _).subset this)

theorem reflowLines_shaped {size : GridSize} {source : List Row} {r r' : Reflow}
    (hv : ∀ row ∈ source, ∀ c ∈ row, c.Valid) (hr : RowsShaped size r.destination)
    (h : reflowLines size source r = some r') : RowsShaped size r'.destination := by
  induction source generalizing r with
  | nil => cases h; exact hr
  | cons row rest ih =>
    obtain ⟨hrow, hrest⟩ := List.forall_mem_cons.mp hv
    simp only [reflowLines, Option.bind_eq_bind, Option.pure_def] at h
    obtain ⟨mid, hm, h⟩ := Option.bind_eq_some_iff.mp h
    have hmid := reflowCells_shaped (fun c hc => hrow c (contentCells_subset row hc)) hr hm
    split at h
    · cases h; exact hmid
    split at h
    · cases h; exact hmid
    · exact ih hrest (r := { mid with row := mid.row + 1, column := 0 }) hmid h

theorem reflowRows_shaped {size : GridSize} {source rows : List Row}
    (hv : ∀ row ∈ source, ∀ c ∈ row, c.Valid) (h : reflowRows source size = some rows) :
    RowsShaped size rows := by
  obtain ⟨r, hr, rfl⟩ := Option.map_eq_some_iff.mp h
  exact reflowLines_shaped hv (.blank size) hr

theorem resizeScreen_shaped {size size' : GridSize} {s s' : Screen} (hs : RowsShaped size s.rows)
    (h : resizeScreen s size' = some s') : RowsShaped size' s'.rows := by
  simp only [resizeScreen, Option.bind_eq_bind, Option.pure_def] at h
  obtain ⟨rows, hr, h⟩ := Option.bind_eq_some_iff.mp h
  cases h
  split at hr
  · cases hr
    refine ⟨?_, fun row hrow => ?_⟩
    · simp only [List.length_map, List.length_append, List.length_take, List.length_replicate]
      omega
    · obtain ⟨r, hr, rfl⟩ := List.mem_map.mp hrow
      refine resizeRow_shaped _ fun c hc => ?_
      rcases List.mem_append.mp hr with hr | hr
      · exact (hs.2 r (List.mem_of_mem_take hr)).2 c hc
      · obtain rfl := (List.mem_replicate.mp hr).2
        exact (blankRow_shaped size').2 c hc
  · exact reflowRows_shaped (fun row hrow => (hs.2 row hrow).2) hr

/-! ## The grid -/

namespace Grid

/-- Both screens have the grid's size. -/
structure Shaped (g : Grid) : Prop where
  primary : RowsShaped g.size g.primary.rows
  alternate : RowsShaped g.size g.alternate.rows

/-- The grid kept its size and, if it had it, its shape. -/
def Kept (g g' : Grid) : Prop := g'.size = g.size ∧ (g.Shaped → g'.Shaped)

variable {g g' g'' : Grid}

theorem Kept.refl (g : Grid) : Kept g g := ⟨rfl, id⟩

theorem Kept.trans (h : Kept g g') (h' : Kept g' g'') : Kept g g'' :=
  ⟨h'.1.trans h.1, fun hg => h'.2 (h.2 hg)⟩

theorem Shaped.screen (h : g.Shaped) : RowsShaped g.size g.screen.rows := by
  unfold Grid.screen
  split
  exacts [h.primary, h.alternate]

theorem shaped_new (size : GridSize) (limit : Nat) : (Grid.new size limit).Shaped :=
  ⟨.blank size, .blank size⟩

@[simp] theorem size_setScreen {s : Screen} : (g.setScreen s).size = g.size := by
  unfold setScreen; split <;> rfl

theorem kept_setScreen {s : Screen} (hs : RowsShaped g.size g.screen.rows → RowsShaped g.size s.rows) :
    Kept g (g.setScreen s) := by
  refine ⟨size_setScreen, fun h => ?_⟩
  have hs := hs h.screen
  unfold setScreen
  split
  · exact ⟨hs, h.alternate⟩
  · exact ⟨h.primary, hs⟩

theorem kept_bump : Kept g g.bumpRevision := ⟨rfl, fun h => ⟨h.primary, h.alternate⟩⟩

/-- A write of the rows of the active screen, and the bump after it. -/
theorem kept_write {s : Screen} (hs : RowsShaped g.size g.screen.rows → RowsShaped g.size s.rows) :
    Kept g (g.setScreen s).bumpRevision :=
  (kept_setScreen hs).trans kept_bump

theorem Kept.of_touches (h : Touches g g') : Kept g g' := by
  induction h with
  | refl g => exact .refl g
  | trans _ _ ih₁ ih₂ => exact ih₁.trans ih₂
  | bump g => exact kept_bump
  | screen g he => exact kept_setScreen fun hs => hs.edit he
  | scrollOff _ he _ _ =>
    have hk := kept_setScreen fun hs => hs.edit he
    exact ⟨hk.1, fun hg => ⟨(hk.2 hg).primary, (hk.2 hg).alternate⟩⟩

theorem kept_lineFeed (h : g.lineFeed = some g') : Kept g g' := .of_touches (.lineFeed h)

theorem kept_carriageReturn : Kept g g.carriageReturn := .of_touches (.carriageReturn g)

theorem kept_appendCombining {ch : Char} (h : g.appendCombining ch = some g') : Kept g g' :=
  .of_touches (.appendCombining h)

theorem writeStyled_keeps {text : String} {w : CellWidth} {fg bg : Color} {a : CellAttributes}
    {l : Option HyperlinkId} (c c' : Cell) (_ : c.Valid)
    (h : writeStyled text w fg bg a l c = .ok c') : c'.Valid := by
  unfold writeStyled at h
  cases hs : c.setText text w with
  | error e => simp [hs, Except.map] at h
  | ok d =>
    simp only [hs, Except.map, Except.ok.injEq] at h
    subst h
    exact (Cell.setText_valid hs).styled

theorem writeCells_shaped {size : GridSize} {rows rows' : List Row} {row column w : Nat} {ch : Char}
    {fg bg : Color} {a : CellAttributes} {l : Option HyperlinkId} (hs : RowsShaped size rows)
    (h : writeCells rows row column w ch fg bg a l = some rows') : RowsShaped size rows' := by
  obtain ⟨mid, hm, h⟩ := Option.bind_eq_some_iff.mp h
  have hmid := hs.modifyCell writeStyled_keeps hm
  split at h
  · exact hmid.modifyCell writeStyled_keeps h
  · cases h; exact hmid

theorem kept_writeCharacter {cw : Char → Option Nat} {ch : Char} {fg bg : Color}
    {a : CellAttributes} {l : Option HyperlinkId}
    (h : g.writeCharacter cw ch fg bg a l = some g') : Kept g g' := by
  rcases writeCharacter_cases h with ⟨-, h⟩ | ⟨mid, rows, rendered, s, -, hm, hr, rfl, rfl⟩
  · exact kept_appendCombining h
  · exact (Kept.of_touches (.wrapFor hm)).trans (kept_write fun hs => writeCells_shaped hs hr)

theorem kept_print {cw : Char → Option Nat} {text : String} (h : g.print cw text = some g') :
    Kept g g' :=
  print_related .refl (fun _ _ _ => .trans) (fun _ _ => .of_touches)
    (fun _ _ _ => kept_writeCharacter) h

theorem kept_enterAlternateScreen : Kept g g.enterAlternateScreen :=
  ⟨rfl, fun h => ⟨h.primary, .blank g.size⟩⟩

theorem kept_leaveAlternateScreen : Kept g g.leaveAlternateScreen :=
  ⟨rfl, fun h => ⟨h.primary, h.alternate⟩⟩

/-- A resize moves to the new size. -/
theorem resize_shaped {size : GridSize} {changed : Bool} (hg : g.Shaped)
    (h : g.resize size = some (changed, g')) : g'.size = size ∧ g'.Shaped := by
  unfold resize at h
  split at h
  · rename_i he
    cases h
    exact ⟨he.symm, hg⟩
  · simp only [Option.bind_eq_bind, Option.pure_def] at h
    obtain ⟨primary, hp, h⟩ := Option.bind_eq_some_iff.mp h
    obtain ⟨alternate, ha, h⟩ := Option.bind_eq_some_iff.mp h
    cases h
    exact ⟨rfl, ⟨resizeScreen_shaped hg.primary hp, resizeScreen_shaped hg.alternate ha⟩⟩

/-- What a snapshot of a shaped grid shows. -/
theorem Shaped.snapshot (h : g.Shaped) : RowsShaped g.size (g.snapshot 0).rows := by
  simpa [Grid.snapshot] using h.screen

end Grid

/-! ## The performer -/

namespace TerminalPerformer

variable {p p' : TerminalPerformer}

theorem kept_onGrid {f : Grid → Option Grid} (hf : ∀ g g', f g = some g' → Grid.Kept g g')
    (h : p.onGrid f = some p') : Grid.Kept p.grid p'.grid := by
  obtain ⟨g, hg, rfl⟩ := Option.map_eq_some_iff.mp h
  exact hf _ _ hg

theorem grid_sgrLoop (params : List UInt16) (p : TerminalPerformer) :
    (sgrLoop params p).grid = p.grid := by
  fun_induction sgrLoop params p with
  | case1 p => rfl
  | case2 p n rest h color consumed hc ih =>
    rw [ih, setColor]
    split <;> rfl
  | case3 p n rest h hc ih => exact ih
  | case4 p n rest h ih =>
    rw [ih, sgr]
    split <;> rfl

theorem kept_setPrivateMode {enabled : Bool} {mode : UInt16} :
    Grid.Kept p.grid (p.setPrivateMode enabled mode).grid := by
  simp only [setPrivateMode]
  split_ifs
  all_goals first
    | exact Grid.kept_enterAlternateScreen
    | exact Grid.kept_leaveAlternateScreen
    | exact Grid.kept_write id
    | exact Grid.Kept.refl _

theorem grid_applyHyperlink {params : List (List UInt8)} : (p.applyHyperlink params).grid = p.grid := by
  unfold applyHyperlink
  repeat' split
  all_goals rfl

theorem grid_oscDispatch {params : List (List UInt8)} : (p.oscDispatch params).grid = p.grid := by
  unfold oscDispatch
  repeat' split
  all_goals first
    | rfl
    | exact grid_applyHyperlink

theorem kept_applyScrollRegion {values : List UInt16} :
    Grid.Kept p.grid (p.applyScrollRegion values).grid := by
  simp only [applyScrollRegion]
  split
  · exact .of_touches (.setScrollRegion ‹_›)
  · exact .refl _

theorem kept_csiAction {values : List UInt16} {action : Char}
    (h : p.csiAction values action = some p') : Grid.Kept p.grid p'.grid := by
  unfold csiAction at h
  split at h
  · cases h; exact grid_sgrLoop _ p ▸ .refl _
  all_goals first
    | (cases h; exact Grid.kept_write id)
    | (cases h; exact Grid.kept_setScreen id)
    | (cases h; exact Grid.Kept.of_touches .restoreCursor)
    | (cases h; exact kept_applyScrollRegion)
    | exact kept_onGrid (fun _ _ h => .of_touches (.eraseInDisplay h)) h
    | exact kept_onGrid (fun _ _ h => .of_touches (.eraseInLine h)) h
    | exact kept_onGrid (fun _ _ h => .of_touches (.insertBlankCharacters h)) h
    | exact kept_onGrid (fun _ _ h => .of_touches (.deleteCharacters h)) h
    | exact kept_onGrid (fun _ _ h => .of_touches (.insertBlankLines h)) h
    | exact kept_onGrid (fun _ _ h => .of_touches (.deleteLines h)) h
    | exact kept_onGrid (fun _ _ h => .of_touches (.scrollUp h)) h
    | (cases h; exact .refl _)

theorem kept_setPrivateModes {enabled : Bool} {modes : List UInt16} :
    Grid.Kept p.grid (modes.foldl (setPrivateMode enabled) p).grid := by
  induction modes generalizing p with
  | nil => exact .refl _
  | cons mode modes ih => exact kept_setPrivateMode.trans ih

theorem kept_csiDispatch {params : List (List UInt16)} {intermediates : List UInt8} {ignore : Bool}
    {action : Char} (h : p.csiDispatch params intermediates ignore action = some p') :
    Grid.Kept p.grid p'.grid := by
  simp only [csiDispatch] at h
  split at h
  · cases h; exact .refl _
  split at h
  · exact kept_csiAction h
  split at h
  · cases h; exact kept_setPrivateModes
  · cases h; exact .refl _

theorem kept_execute {cw : Char → Option Nat} {byte : UInt8} (h : p.execute cw byte = some p') :
    Grid.Kept p.grid p'.grid := by
  unfold execute at h
  split_ifs at h
  all_goals first
    | exact kept_onGrid (fun _ _ => Grid.kept_print) h
    | (cases h; exact .refl _)

theorem kept_escDispatch {cw : Char → Option Nat} {intermediates : List UInt8} {ignore : Bool}
    {byte : UInt8} (h : p.escDispatch cw intermediates ignore byte = some p') :
    Grid.Kept p.grid p'.grid := by
  unfold escDispatch at h
  split_ifs at h
  all_goals first
    | exact kept_onGrid (fun _ _ => Grid.kept_print) h
    | exact kept_onGrid (fun _ _ h => .of_touches (.reverseIndex h)) h
    | (cases h; exact Grid.kept_setScreen id)
    | (cases h; exact Grid.Kept.of_touches .restoreCursor)
    | (cases h; exact .refl _)

/-- Every call of the parser keeps the grid's shape. -/
theorem kept_perform {cw : Char → Option Nat} {call : PerformCall}
    (h : p.perform cw call = some p') : Grid.Kept p.grid p'.grid := by
  cases call with
  | print ch => exact kept_onGrid (fun _ _ => Grid.kept_writeCharacter) h
  | execute byte => exact kept_execute h
  | oscDispatch params => cases h; exact grid_oscDispatch ▸ .refl _
  | csiDispatch params intermediates ignore action => exact kept_csiDispatch h
  | escDispatch intermediates ignore byte => exact kept_escDispatch h

theorem kept_performs {cw : Char → Option Nat} {calls : List PerformCall}
    (h : calls.foldlM (·.perform cw) p = some p') : Grid.Kept p.grid p'.grid := by
  induction calls generalizing p with
  | nil => cases h; exact .refl _
  | cons call calls ih =>
    rw [List.foldlM_cons] at h
    obtain ⟨mid, hm, h⟩ := Option.bind_eq_some_iff.mp h
    exact (kept_perform hm).trans (ih h)

end TerminalPerformer

/-! ## The model -/

namespace TerminalModel

variable {V : VteParser} {m m' : TerminalModel V}

def size (m : TerminalModel V) : GridSize := m.performer.grid.size

def Shaped (m : TerminalModel V) : Prop := m.performer.grid.Shaped

theorem shaped_new (size : GridSize) (limit : Nat) : (new size limit : TerminalModel V).Shaped :=
  Grid.shaped_new size limit

/-- Output keeps the size and the shape. -/
theorem advance_shaped {bytes : List UInt8} (h : m.advance bytes = some m') :
    m'.size = m.size ∧ (m.Shaped → m'.Shaped) := by
  simp only [advance, Option.bind_eq_bind, Option.pure_def] at h
  obtain ⟨p, hp, h⟩ := Option.bind_eq_some_iff.mp h
  cases h
  exact TerminalPerformer.kept_performs hp

/-- No output changes nothing on the screen. -/
theorem performer_advance_nil (h : m.advance [] = some m') : m'.performer = m.performer := by
  simp only [advance, V.advance_nil, List.foldlM_nil, Option.pure_def, Option.bind_eq_bind,
    Option.bind_some, Option.some.injEq] at h
  rw [← h]

theorem resize_shaped {size : GridSize} (hm : m.Shaped) (h : m.resize size = some m') :
    m'.size = size ∧ m'.Shaped := by
  simp only [resize, Option.bind_eq_bind, Option.pure_def] at h
  obtain ⟨⟨changed, g⟩, hg, h⟩ := Option.bind_eq_some_iff.mp h
  cases h
  exact Grid.resize_shaped hm hg

/-- A resize to the same size changes nothing. -/
theorem resize_self (m : TerminalModel V) : m.resize m.size = some m := by
  simp [resize, Grid.resize, size]

theorem Shaped.snapshot (h : m.Shaped) : RowsShaped m.size (m.snapshot 0).rows :=
  Grid.Shaped.snapshot h

end TerminalModel
end Strukt
