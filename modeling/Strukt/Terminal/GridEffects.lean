import Strukt.Lib.Runs
import Strukt.Terminal.Grid

/-!
# What the operations do to a grid

Every operation but a switch of the screen, a resize and the write of a character is made of a few
effects (`Grid.Touches`): the active screen's rows are edited (`RowsEdit`), its cursor, margins and
flags move, the revision rises, a row scrolls off the primary screen. What these keep, the
operations keep. A character is written after such effects, into one or two cells
(`writeCharacter_cases`).
-/

namespace Strukt

/-- What each turn of a loop keeps, the loop keeps. -/
theorem iterate_keeps {α : Type} {I : α → Prop} {f : α → Option α} {n : Nat} {a a' : α} (ha : I a)
    (hf : ∀ a a', I a → f a = some a' → I a') (h : iterate f n a = some a') : I a' := by
  induction n generalizing a with
  | zero => cases h; exact ha
  | succ n ih =>
    obtain ⟨mid, hm, h⟩ := Option.bind_eq_some_iff.mp h
    exact ih (hf a mid ha hm) h

/-- What an operation makes of the rows of a screen. -/
inductive RowsEdit (columns : Nat) : List Row → List Row → Prop where
  | refl (rows : List Row) : RowsEdit columns rows rows
  | trans {a b c : List Row} : RowsEdit columns a b → RowsEdit columns b c → RowsEdit columns a c
  /-- Rows moved, removed or made blank. -/
  | moved {rows rows' : List Row} (length : rows'.length = rows.length)
      (mem : ∀ row ∈ rows', row ∈ rows ∨ row = blankRow columns) : RowsEdit columns rows rows'
  /-- Cells of a row moved, removed or reset, and the row repaired. -/
  | repaired {rows : List Row} {i : Nat} {row cells : Row} (row_eq : rows[i]? = some row)
      (length : row.length = columns → cells.length = columns)
      (mem : ∀ c ∈ cells, c ∈ row ∨ c = .blank) :
      RowsEdit columns rows (rows.set i (repairRow cells))
  /-- A combining character added to a cell. -/
  | combined {rows : List Row} {i j : Nat} {row : Row} {cell cell' : Cell} {ch : Char}
      (row_eq : rows[i]? = some row) (cell_eq : row[j]? = some cell)
      (combine : cell.appendCombining ch = .ok cell') :
      RowsEdit columns rows (rows.set i (row.set j cell'))

namespace RowsEdit

variable {columns : Nat} {rows rows' mid : List Row}

theorem remove_insert {i j : Nat} {row : Row} (hr : removeRow rows i = some (row, mid))
    (hi : insertRow mid j (blankRow columns) = some rows') :
    RowsEdit columns rows rows' ∧ row ∈ rows := by
  simp only [removeRow, Option.bind_eq_bind, Option.bind_eq_some_iff, Option.pure_def,
    Option.some.injEq, Prod.mk.injEq] at hr
  obtain ⟨r, hr, rfl, rfl⟩ := hr
  obtain ⟨hlt, -⟩ := List.getElem?_eq_some_iff.mp hr
  refine ⟨?_, List.mem_of_getElem? hr⟩
  unfold insertRow at hi
  split at hi
  · cases hi
    refine .moved ?_ fun line hline => ?_
    · have := List.length_eraseIdx_of_lt hlt
      simp only [List.length_append, List.length_take, List.length_cons, List.length_drop]
      omega
    · rcases List.mem_append.mp hline with hline | hline
      · exact .inl (List.mem_of_mem_eraseIdx (List.mem_of_mem_take hline))
      · rcases List.mem_cons.mp hline with rfl | hline
        · exact .inr rfl
        · exact .inl (List.mem_of_mem_eraseIdx (List.mem_of_mem_drop hline))
  · cases hi

theorem insert_remove {i j : Nat} {row : Row} (hi : insertRow rows i (blankRow columns) = some mid)
    (hr : removeRow mid j = some (row, rows')) : RowsEdit columns rows rows' := by
  unfold insertRow at hi
  split at hi
  · cases hi
    simp only [removeRow, Option.bind_eq_bind, Option.bind_eq_some_iff, Option.pure_def,
      Option.some.injEq, Prod.mk.injEq] at hr
    obtain ⟨r, hr, rfl, rfl⟩ := hr
    obtain ⟨hlt, -⟩ := List.getElem?_eq_some_iff.mp hr
    refine .moved ?_ fun line hline => ?_
    · rw [List.length_eraseIdx_of_lt hlt]
      simp only [List.length_append, List.length_take, List.length_cons, List.length_drop]
      omega
    · rcases List.mem_append.mp (List.mem_of_mem_eraseIdx hline) with hline | hline
      · exact .inl (List.mem_of_mem_take hline)
      · rcases List.mem_cons.mp hline with rfl | hline
        · exact .inr rfl
        · exact .inl (List.mem_of_mem_drop hline)
  · cases hi

end RowsEdit

/-- `repair_row` on cells of the row and blank ones. -/
def Repairs (columns : Nat) (row row' : Row) : Prop :=
  ∃ cells, row' = repairRow cells ∧ (row.length = columns → cells.length = columns) ∧
    ∀ c ∈ cells, c ∈ row ∨ c = .blank

theorem eraseRange_repairs {columns : Nat} {row row' : Row} {start stop : Nat}
    (h : eraseRange row start stop = some row') : Repairs columns row row' := by
  unfold eraseRange at h
  split at h
  · cases h
    refine ⟨_, rfl, fun hl => ?_, fun c hc => ?_⟩
    · simp only [List.length_append, List.length_take, List.length_replicate, List.length_drop]
      omega
    · simp only [List.mem_append, List.mem_replicate] at hc
      rcases hc with (hc | hc) | hc
      exacts [.inl (List.mem_of_mem_take hc), .inr hc.2, .inl (List.mem_of_mem_drop hc)]
  · cases h

namespace Grid

/-- The effects of an operation. -/
inductive Touches : Grid → Grid → Prop where
  | refl (g : Grid) : Touches g g
  | trans {a b c : Grid} : Touches a b → Touches b c → Touches a c
  | bump (g : Grid) : Touches g g.bumpRevision
  | screen (g : Grid) {s : Screen} (rows : RowsEdit g.size.columns g.screen.rows s.rows) :
      Touches g (g.setScreen s)
  /-- A row of the primary screen scrolls off. -/
  | scrollOff {g : Grid} {row : Row} {kept : List Row} {s : Screen} (active : g.active = .primary)
      (rows : RowsEdit g.size.columns g.screen.rows s.rows) (mem : row ∈ g.screen.rows)
      (kept_subset : kept ⊆ g.scrollback) :
      Touches g { g.setScreen s with scrollback := kept ++ [row] }

namespace Touches

variable {g g' : Grid}

/-- The active screen written, and the revision raised. -/
theorem write {s : Screen} (rows : RowsEdit g.size.columns g.screen.rows s.rows) :
    Touches g (g.setScreen s).bumpRevision :=
  (Touches.screen g rows).trans (.bump _)

theorem carriageReturn (g : Grid) : Touches g g.carriageReturn := .screen g (.refl _)

theorem backspace (g : Grid) : Touches g g.backspace := .screen g (.refl _)

theorem scrollRegionUpOne (h : g.scrollRegionUpOne = some g') : Touches g g' := by
  simp only [Grid.scrollRegionUpOne, Option.bind_eq_bind, Option.pure_def] at h
  obtain ⟨⟨removed, mid⟩, hr, h⟩ := Option.bind_eq_some_iff.mp h
  obtain ⟨rows, hi, h⟩ := Option.bind_eq_some_iff.mp h
  obtain ⟨hrows, hmem⟩ := RowsEdit.remove_insert hr hi
  have hback : ∀ s, (g.setScreen s).scrollback = g.scrollback := by
    intro s
    unfold setScreen
    split <;> rfl
  split at h
  · rename_i hc
    cases h
    refine .scrollOff ?_ hrows hmem ?_
    · have := hc.1
      unfold setScreen at this
      split at this <;> exact this
    · rw [hback]
      split
      exacts [List.tail_subset _, List.Subset.refl _]
  · cases h; exact .screen g hrows

theorem lineFeed (h : g.lineFeed = some g') : Touches g g' := by
  simp only [Grid.lineFeed, Option.bind_eq_bind, Option.pure_def] at h
  obtain ⟨mid, hm, h⟩ := Option.bind_eq_some_iff.mp h
  cases h
  have hmid : Touches g mid := by
    split at hm
    · exact scrollRegionUpOne hm
    split at hm
    · cases hm; exact .screen g (.refl _)
    · cases hm; exact .refl g
  exact hmid.trans (write (.refl _))

theorem appendCombining {ch : Char} (h : g.appendCombining ch = some g') : Touches g g' := by
  simp only [Grid.appendCombining, Option.bind_eq_bind, Option.pure_def] at h
  obtain ⟨cells, hcells, h⟩ := Option.bind_eq_some_iff.mp h
  obtain ⟨t, -, h⟩ := Option.bind_eq_some_iff.mp h
  obtain ⟨target, htarget, h⟩ := Option.bind_eq_some_iff.mp h
  split at h
  · rename_i cell hcell
    cases h
    exact write (.combined hcells htarget hcell)
  · cases h; exact .refl g

theorem modifyCursorRow {f : Row → Option Row}
    (hf : ∀ row row', f row = some row' → Repairs g.size.columns row row')
    (h : g.modifyCursorRow f = some g') : Touches g g' := by
  simp only [Grid.modifyCursorRow, Option.bind_eq_bind, Option.pure_def] at h
  obtain ⟨row, hrow, h⟩ := Option.bind_eq_some_iff.mp h
  obtain ⟨row', hrow', h⟩ := Option.bind_eq_some_iff.mp h
  cases h
  obtain ⟨cells, rfl, hl, hmem⟩ := hf row row' hrow'
  exact write (.repaired hrow hl hmem)

theorem eraseInLine {mode : EraseLine} (h : g.eraseInLine mode = some g') : Touches g g' := by
  refine modifyCursorRow (fun row row' hr => ?_) h
  cases mode <;> exact eraseRange_repairs hr

theorem insertBlankCharacters {n : Nat} (h : g.insertBlankCharacters n = some g') :
    Touches g g' := by
  refine modifyCursorRow (fun row row' hr => ?_) h
  split at hr
  · cases hr
    refine ⟨_, rfl, fun hl => ?_, fun c hc => ?_⟩
    · simp only [List.length_take, List.length_append, List.length_replicate, List.length_drop]
      omega
    · have hc := List.mem_of_mem_take hc
      simp only [List.mem_append, List.mem_replicate] at hc
      rcases hc with (hc | hc) | hc
      exacts [.inl (List.mem_of_mem_take hc), .inr hc.2, .inl (List.mem_of_mem_drop hc)]
  · cases hr

theorem deleteCharacters {n : Nat} (h : g.deleteCharacters n = some g') : Touches g g' := by
  refine modifyCursorRow (fun row row' hr => ?_) h
  split at hr
  · cases hr
    refine ⟨_, rfl, fun hl => ?_, fun c hc => ?_⟩
    · simp only [List.length_append, List.length_take, List.length_replicate, List.length_drop]
      omega
    · simp only [List.mem_append, List.mem_replicate] at hc
      rcases hc with (hc | hc) | hc
      exacts [.inl (List.mem_of_mem_take hc), .inl (List.mem_of_mem_drop hc), .inr hc.2]
  · cases hr

theorem eraseInDisplay {mode : EraseDisplay} (h : g.eraseInDisplay mode = some g') :
    Touches g g' := by
  simp only [Grid.eraseInDisplay, Option.bind_eq_bind, Option.pure_def] at h
  obtain ⟨rows, hr, h⟩ := Option.bind_eq_some_iff.mp h
  cases h
  refine write ?_
  cases mode with
  | below =>
    obtain ⟨row, hrow, hr⟩ := Option.bind_eq_some_iff.mp hr
    obtain ⟨row', he, hr⟩ := Option.bind_eq_some_iff.mp hr
    cases hr
    have hrepairs : Repairs g.size.columns row row' := eraseRange_repairs he
    obtain ⟨cells, rfl, hl, hmem⟩ := hrepairs
    obtain ⟨hlt, -⟩ := List.getElem?_eq_some_iff.mp hrow
    refine (RowsEdit.repaired hrow hl hmem).trans (.moved ?_ fun line hline => ?_)
    · simp only [List.length_append, List.length_take, List.length_cons, List.length_replicate,
        List.length_set]
      omega
    · simp only [List.mem_append, List.mem_cons, List.mem_replicate] at hline
      rcases hline with hline | rfl | hline
      · refine .inl (List.mem_of_mem_take (i := g.screen.cursor.row) ?_)
        rwa [List.take_set_of_le le_rfl]
      · exact .inl (List.mem_of_getElem? (List.getElem?_set_self hlt))
      · exact .inr hline.2
  | above =>
    obtain ⟨row, hrow, hr⟩ := Option.bind_eq_some_iff.mp hr
    obtain ⟨row', he, hr⟩ := Option.bind_eq_some_iff.mp hr
    cases hr
    have hrepairs : Repairs g.size.columns row row' := eraseRange_repairs he
    obtain ⟨cells, rfl, hl, hmem⟩ := hrepairs
    obtain ⟨hlt, -⟩ := List.getElem?_eq_some_iff.mp hrow
    refine (RowsEdit.repaired hrow hl hmem).trans (.moved ?_ fun line hline => ?_)
    · simp only [List.length_append, List.length_replicate, List.length_cons, List.length_drop,
        List.length_set]
      omega
    · simp only [List.mem_append, List.mem_cons, List.mem_replicate] at hline
      rcases hline with hline | rfl | hline
      · exact .inr hline.2
      · exact .inl (List.mem_of_getElem? (List.getElem?_set_self hlt))
      · refine .inl (List.mem_of_mem_drop (i := g.screen.cursor.row + 1) ?_)
        rwa [List.drop_set_of_lt (Nat.lt_succ_self _)]
  | all =>
    cases hr
    refine .moved (by simp) fun line hline => .inr (List.mem_replicate.mp hline).2

theorem moveLines {n : Nat} {f : List Row → Option (List Row)}
    (hf : ∀ r r', f r = some r' → RowsEdit g.size.columns r r')
    (h : g.moveLines n f = some g') : Touches g g' := by
  simp only [Grid.moveLines, Option.bind_eq_bind, Option.pure_def] at h
  split at h
  · cases h; exact .refl g
  · obtain ⟨rows, hr, h⟩ := Option.bind_eq_some_iff.mp h
    cases h
    exact write (iterate_keeps (I := RowsEdit g.size.columns g.screen.rows) (.refl _)
      (fun r r' he hr => he.trans (hf r r' hr)) hr)

theorem insertBlankLines {n : Nat} (h : g.insertBlankLines n = some g') : Touches g g' := by
  refine moveLines (fun r r' hr => ?_) h
  simp only [Option.bind_eq_bind, Option.pure_def] at hr
  obtain ⟨mid, hi, hr⟩ := Option.bind_eq_some_iff.mp hr
  obtain ⟨⟨row, rows⟩, hrm, hr⟩ := Option.bind_eq_some_iff.mp hr
  cases hr
  exact .insert_remove hi hrm

theorem deleteLines {n : Nat} (h : g.deleteLines n = some g') : Touches g g' := by
  refine moveLines (fun r r' hr => ?_) h
  simp only [Option.bind_eq_bind] at hr
  obtain ⟨⟨row, mid⟩, hrm, hi⟩ := Option.bind_eq_some_iff.mp hr
  exact (RowsEdit.remove_insert hrm hi).1

theorem scrollUp {n : Nat} (h : g.scrollUp n = some g') : Touches g g' := by
  simp only [Grid.scrollUp, Option.bind_eq_bind, Option.pure_def] at h
  obtain ⟨mid, hm, h⟩ := Option.bind_eq_some_iff.mp h
  cases h
  refine Touches.trans ?_ (.bump mid)
  exact iterate_keeps (I := Touches g) (.refl g) (fun _ _ hs hstep =>
    hs.trans (scrollRegionUpOne hstep)) hm

theorem reverseIndex (h : g.reverseIndex = some g') : Touches g g' := by
  simp only [Grid.reverseIndex, Option.bind_eq_bind, Option.pure_def] at h
  obtain ⟨s, hs, h⟩ := Option.bind_eq_some_iff.mp h
  cases h
  refine write ?_
  split at hs
  · obtain ⟨⟨row, mid⟩, hr, hs⟩ := Option.bind_eq_some_iff.mp hs
    obtain ⟨rows, hi, hs⟩ := Option.bind_eq_some_iff.mp hs
    cases hs
    exact (RowsEdit.remove_insert hr hi).1
  · cases hs; exact .refl _

theorem setCursor (row column : Nat) : Touches g (g.setCursor row column) := write (.refl _)

theorem restoreCursor : Touches g g.restoreCursor := by
  unfold Grid.restoreCursor
  split
  · exact write (.refl _)
  · exact .refl g

theorem setScrollRegion {top bottom : Nat} (h : g.setScrollRegion top bottom = .ok g') :
    Touches g g' := by
  unfold Grid.setScrollRegion at h
  split at h
  · cases h
  · cases h; exact write (.refl _)

end Touches

/-! ## Characters -/

variable {g g' : Grid} {cw : Char → Option Nat} {ch : Char} {fg bg : Color} {a : CellAttributes}
  {l : Option HyperlinkId}

/-- The grid that the character is written into: on the next line where it does not fit on this
one. -/
def wrapFor (g : Grid) (width : Nat) : Option Grid :=
  if g.screen.wrapPending ∨ (width = 2 ∧ g.screen.cursor.column + width > g.size.columns) then
    g.carriageReturn.lineFeed
  else some g

theorem Touches.wrapFor {width : Nat} (h : g.wrapFor width = some g') : Touches g g' := by
  unfold Grid.wrapFor at h
  split at h
  · exact (carriageReturn g).trans (lineFeed h)
  · cases h; exact .refl g

/-- The columns that a character takes. -/
def columnsOf (g : Grid) (width : Nat) : Nat := if width = 2 ∧ g.size.columns = 1 then 1 else width

/-- A character without width joins a cell; another is written after the wrap, under the cursor. -/
theorem writeCharacter_cases (h : g.writeCharacter cw ch fg bg a l = some g') :
    (min ((cw ch).getD 0) 2 = 0 ∧ g.appendCombining ch = some g') ∨
      ∃ mid rows rendered s, min ((cw ch).getD 0) 2 ≠ 0 ∧
        g.wrapFor (min ((cw ch).getD 0) 2) = some mid ∧
        writeCells mid.screen.rows mid.screen.cursor.row mid.screen.cursor.column
          (g.columnsOf (min ((cw ch).getD 0) 2)) rendered fg bg a l = some rows ∧
        s.rows = rows ∧ g' = (mid.setScreen s).bumpRevision := by
  simp only [writeCharacter, Option.bind_eq_bind, Option.pure_def] at h
  split at h
  · rename_i h0
    exact .inl ⟨h0, h⟩
  · rename_i h0
    obtain ⟨mid, hm, h⟩ := Option.bind_eq_some_iff.mp h
    obtain ⟨rows, hr, h⟩ := Option.bind_eq_some_iff.mp h
    cases h
    exact .inr ⟨mid, rows, _, _, h0, hm, hr, rfl, rfl⟩

/-- What the effects and the writes of characters establish, `print` establishes. -/
theorem print_related {R : Grid → Grid → Prop} (refl : ∀ g, R g g)
    (trans : ∀ g₁ g₂ g₃, R g₁ g₂ → R g₂ g₃ → R g₁ g₃) (touches : ∀ g g', Touches g g' → R g g')
    (write : ∀ g ch g', g.writeCharacter cw ch .default .default .plain none = some g' → R g g')
    {text : String} (h : g.print cw text = some g') : R g g' := by
  refine foldlM_keeps (I := R g) (refl g) (fun g₁ ch g₂ _ h₁ hstep => trans _ _ _ h₁ ?_) h
  unfold printCharacter at hstep
  split at hstep
  · cases hstep; exact touches _ _ (.carriageReturn g₁)
  split at hstep
  · exact touches _ _ (.lineFeed hstep)
  split at hstep
  · cases hstep; exact touches _ _ (.backspace g₁)
  split at hstep
  · exact iterate_keeps (I := R g₁) (refl g₁)
      (fun _ _ hs hw => trans _ _ _ hs (write _ _ _ hw)) hstep
  · exact write _ _ _ hstep

end Grid
end Strukt
