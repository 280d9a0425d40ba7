import Strukt.Terminal.AlternateScreen
import Strukt.Terminal.GridGeometry

/-!
# The viewport

A viewport shows consecutive lines of a grid: its scrollback, then the active primary screen.

* **Windows** (`Window`): consecutive elements of a list, placed by the number of those after them.
  A window is unique (`Window.unique`), and lines added below the list push it up
  (`Window.append`).
* **Width** (`Grid.Sized`): in every run the screens keep the grid's size and the rows of the
  scrollback its width, also after a resize.
* **Line feeds** (`Grid.lineFeed_bottom`): on the last row of a full-screen scroll region a line
  feed adds one blank line below all lines, and the scrollback takes the first row of the screen.
-/

namespace Strukt

/-- `shown` are `count` consecutive elements of `lines` with `below` elements after them. -/
def Window {α : Type} (lines shown : List α) (count below : Nat) : Prop :=
  ∃ above after, lines = above ++ shown ++ after ∧ shown.length = count ∧ after.length = below

namespace Window

variable {α : Type} {lines shown shown' : List α} {count below : Nat}

theorem unique (h : Window lines shown count below) (h' : Window lines shown' count below) :
    shown = shown' := by
  obtain ⟨above, after, rfl, hc, hb⟩ := h
  obtain ⟨above', after', he, hc', hb'⟩ := h'
  obtain ⟨he, -⟩ := List.append_inj' he (hb.trans hb'.symm)
  exact (List.append_inj' he (hc.trans hc'.symm)).2

theorem append (h : Window lines shown count below) (more : List α) :
    Window (lines ++ more) shown count (below + more.length) := by
  obtain ⟨above, after, rfl, hc, rfl⟩ := h
  exact ⟨above, after ++ more, by simp, hc, by simp⟩

/-- The last elements. -/
theorem last (above : List α) (hc : shown.length = count) :
    Window (above ++ shown) shown count 0 :=
  ⟨above, [], by simp, hc, rfl⟩

/-- The elements that end `below` ones before the end. -/
theorem cut (lines : List α) (h : count + below ≤ lines.length) :
    Window lines ((lines.take (lines.length - below)).drop (lines.length - below - count)) count
      below := by
  refine ⟨(lines.take (lines.length - below)).take (lines.length - below - count),
    lines.drop (lines.length - below), ?_, ?_, ?_⟩
  · rw [List.take_append_drop, List.take_append_drop]
  · rw [List.length_drop, List.length_take]
    omega
  · rw [List.length_drop]
    omega

end Window

namespace Grid

/-- The screens have the grid's size, the rows of the scrollback its width. -/
structure Sized (g : Grid) : Prop where
  shaped : g.Shaped
  width : ∀ row ∈ g.scrollback, row.length = g.size.columns

variable {g g' g'' : Grid} {cw : Char → Option Nat}

/-! ## The width of the scrollback -/

/-- An operation keeps the size and, with the shape of the screens, the scrollback's width. -/
structure KeepsWidth (g g' : Grid) : Prop where
  kept : Kept g g'
  width : g.Shaped → (∀ row ∈ g.scrollback, row.length = g.size.columns) →
    ∀ row ∈ g'.scrollback, row.length = g'.size.columns

theorem KeepsWidth.refl (g : Grid) : KeepsWidth g g := ⟨.refl g, fun _ h => h⟩

theorem KeepsWidth.trans (h : KeepsWidth g g') (h' : KeepsWidth g' g'') : KeepsWidth g g'' :=
  ⟨h.kept.trans h'.kept, fun hs hw => h'.width (h.kept.2 hs) (h.width hs hw)⟩

theorem KeepsWidth.of_scrollback (hk : Kept g g') (h : g'.scrollback = g.scrollback) :
    KeepsWidth g g' := by
  refine ⟨hk, fun _ hw => ?_⟩
  rw [h, hk.1]
  exact hw

theorem KeepsWidth.sized (h : KeepsWidth g g') (hg : g.Sized) : g'.Sized :=
  ⟨h.kept.2 hg.shaped, h.width hg.shaped hg.width⟩

@[simp] theorem scrollback_setScreen {s : Screen} : (g.setScreen s).scrollback = g.scrollback := by
  unfold setScreen
  split <;> rfl

theorem KeepsWidth.of_touches (h : Touches g g') : KeepsWidth g g' := by
  induction h with
  | refl g => exact .refl g
  | trans _ _ ih₁ ih₂ => exact ih₁.trans ih₂
  | bump g => exact .of_scrollback kept_bump rfl
  | screen g he => exact .of_scrollback (.of_touches (.screen g he)) scrollback_setScreen
  | scrollOff ha he hm hs =>
    refine ⟨.of_touches (.scrollOff ha he hm hs), fun hshaped hw line hline => ?_⟩
    rw [size_setScreen]
    rcases List.mem_append.mp hline with hline | hline
    · exact hw line (hs hline)
    · rw [List.mem_singleton.mp hline]
      exact (hshaped.screen.2 _ hm).1

theorem KeepsWidth.writeCharacter {ch : Char} {fg bg : Color} {a : CellAttributes}
    {l : Option HyperlinkId} (h : g.writeCharacter cw ch fg bg a l = some g') :
    KeepsWidth g g' := by
  rcases writeCharacter_cases h with ⟨-, h⟩ | ⟨mid, rows, rendered, s, -, hm, hr, rfl, rfl⟩
  · exact .of_touches (.appendCombining h)
  · refine (KeepsWidth.of_touches (.wrapFor hm)).trans (.of_scrollback ?_ scrollback_setScreen)
    exact kept_write fun hs => writeCells_shaped hs hr

theorem Sized.resize {size : GridSize} {changed : Bool} (hg : g.Sized)
    (h : g.resize size = some (changed, g')) : g'.Sized := by
  obtain ⟨hsize, hshaped⟩ := resize_shaped hg.shaped h
  refine ⟨hshaped, ?_⟩
  unfold Grid.resize at h
  split at h
  · cases h
    exact hg.width
  · simp only [Option.bind_eq_bind, Option.pure_def] at h
    obtain ⟨primary, -, h⟩ := Option.bind_eq_some_iff.mp h
    obtain ⟨alternate, -, h⟩ := Option.bind_eq_some_iff.mp h
    cases h
    intro row hrow
    obtain ⟨old, -, rfl⟩ := List.mem_map.mp hrow
    exact length_resizeRow old size.columns

theorem Sized.step {op : GridOp} (hg : g.Sized) (h : g.step cw op = some g') : g'.Sized := by
  cases op with
  | print text =>
    exact (print_related .refl (fun _ _ _ => .trans) (fun _ _ => .of_touches)
      (fun _ _ _ => .writeCharacter) h : KeepsWidth g g').sized hg
  | printStyled ch fg bg a l => exact (KeepsWidth.writeCharacter h).sized hg
  | enterAlternateScreen =>
    cases h
    exact (KeepsWidth.of_scrollback kept_enterAlternateScreen rfl).sized hg
  | leaveAlternateScreen =>
    cases h
    exact (KeepsWidth.of_scrollback kept_leaveAlternateScreen rfl).sized hg
  | resize size =>
    obtain ⟨⟨changed, g₁⟩, hr, rfl⟩ := Option.map_eq_some_iff.mp h
    exact hg.resize hr
  | _ => exact (KeepsWidth.of_touches (.step (by trivial) h)).sized hg

theorem sized_run {size : GridSize} {limit : Nat} {ops : List GridOp}
    (h : ops.foldlM (step cw) (Grid.new size limit) = some g) : g.Sized :=
  foldlM_keeps (I := Sized) ⟨shaped_new size limit, by simp [Grid.new]⟩
    (fun _ _ _ _ hg hstep => hg.step hstep) h

/-! ## What a viewport shows -/

/-- On the primary screen: the lines that end at most `offset` lines above the last one. -/
theorem Shaped.snapshot_window (h : g.Shaped) (ha : g.active = .primary) (offset : Nat) :
    Window (g.scrollback ++ g.primary.rows) (g.snapshot offset).rows g.size.rows
      (min offset g.scrollback.length) := by
  have hl := h.primary.1
  have hs : g.screen = g.primary := by simp [Grid.screen, ha]
  unfold Grid.snapshot
  rw [hs, if_pos ha]
  dsimp only
  split
  · rename_i h0
    rw [h0]
    exact .last _ hl
  · refine Window.cut _ ?_
    rw [List.length_append]
    omega

/-- Every viewport has the grid's size. -/
theorem Sized.snapshot (h : g.Sized) (offset : Nat) :
    (g.snapshot offset).rows.length = g.size.rows ∧
      ∀ row ∈ (g.snapshot offset).rows, row.length = g.size.columns := by
  cases ha : g.active with
  | primary =>
    obtain ⟨above, after, he, hl, -⟩ := h.shaped.snapshot_window ha offset
    refine ⟨hl, fun row hrow => ?_⟩
    have hmem : row ∈ g.scrollback ++ g.primary.rows := by
      rw [he]
      exact List.mem_append_left _ (List.mem_append_right _ hrow)
    rcases List.mem_append.mp hmem with hmem | hmem
    exacts [h.width row hmem, (h.shaped.primary.2 row hmem).1]
  | alternate =>
    rw [(snapshot_alternate ha offset).1]
    exact ⟨h.shaped.alternate.1, fun row hrow => (h.shaped.alternate.2 row hrow).1⟩

/-! ## Line feeds -/

/-- The cursor is on the last row of the primary screen, which scrolls as a whole. -/
structure AtBottom (g : Grid) : Prop where
  active : g.active = .primary
  top : g.primary.scrollTop = 0
  bottom : g.primary.scrollBottom + 1 = g.size.rows
  cursor : g.primary.cursor.row = g.primary.scrollBottom

/-- A grid after `n` more lines below all of its lines. -/
structure Fed (n : Nat) (g g' : Grid) : Prop where
  size : g'.size = g.size
  limit : g'.scrollbackLimit = g.scrollbackLimit
  scrollback : g'.scrollback.length = g.scrollback.length + n
  lines : g'.scrollback ++ g'.primary.rows =
    g.scrollback ++ g.primary.rows ++ List.replicate n (blankRow g.size.columns)

theorem Fed.zero (g : Grid) : Fed 0 g g := ⟨rfl, rfl, rfl, by simp⟩

theorem Fed.trans {m n : Nat} (h : Fed m g g') (h' : Fed n g' g'') : Fed (m + n) g g'' := by
  refine ⟨h'.size.trans h.size, h'.limit.trans h.limit, ?_, ?_⟩
  · rw [h'.scrollback, h.scrollback]
    omega
  · rw [h'.lines, h.lines, h.size, List.append_assoc, List.append_assoc, ← List.replicate_add,
      List.append_assoc]

/-- The first row of the screen scrolls off, and a blank row comes below. -/
theorem scrollRegionUpOne_bottom (h : g.Shaped) (hb : g.AtBottom)
    (hroom : g.scrollback.length < g.scrollbackLimit) :
    ∃ first rest, g.primary.rows = first :: rest ∧
      g.scrollRegionUpOne = some { g with
        primary := { g.primary with rows := rest ++ [blankRow g.size.columns] }
        scrollback := g.scrollback ++ [first] } := by
  have hl := h.primary.1
  have hbottom := hb.bottom
  cases hrows : g.primary.rows with
  | nil =>
    rw [hrows] at hl
    exact absurd hl (by rw [List.length_nil]; exact g.size.rows_pos.ne)
  | cons first rest =>
    rw [hrows, List.length_cons] at hl
    refine ⟨first, rest, rfl, ?_⟩
    have hs : g.screen = g.primary := by simp [screen, hb.active]
    have hlast : g.primary.scrollBottom = rest.length := by omega
    have hi : insertRow rest rest.length (blankRow g.size.columns) =
        some (rest ++ [blankRow g.size.columns]) := by
      simp [insertRow]
    simp only [scrollRegionUpOne, hs, hb.top, hrows, hlast, removeRow, List.getElem?_cons_zero,
      List.eraseIdx_cons_zero, Option.bind_eq_bind, Option.bind_some, Option.pure_def, hi]
    have hpos : g.scrollbackLimit > 0 := by omega
    simp [setScreen, hb.active, hroom.ne, hpos]

theorem lineFeed_bottom (h : g.Shaped) (hb : g.AtBottom)
    (hroom : g.scrollback.length < g.scrollbackLimit) :
    ∃ g', g.lineFeed = some g' ∧ g'.AtBottom ∧ Fed 1 g g' := by
  obtain ⟨first, rest, hrows, hup⟩ := scrollRegionUpOne_bottom h hb hroom
  have hs : g.screen = g.primary := by simp [screen, hb.active]
  simp only [lineFeed, hs, hb.cursor, if_true, hup, Option.bind_eq_bind, Option.bind_some,
    Option.pure_def]
  simp only [setScreen, screen, bumpRevision, hb.active]
  refine ⟨_, rfl, ⟨rfl, hb.top, hb.bottom, hb.cursor⟩, rfl, rfl, ?_, ?_⟩
  · simp
  · simp [hrows]

theorem lineFeeds_bottom {k : Nat} (h : g.Shaped) (hb : g.AtBottom)
    (hroom : g.scrollback.length + k ≤ g.scrollbackLimit) :
    ∃ g', iterate lineFeed k g = some g' ∧ g'.AtBottom ∧ Fed k g g' := by
  induction k generalizing g with
  | zero => exact ⟨g, rfl, hb, .zero g⟩
  | succ k ih =>
    obtain ⟨mid, hm, hbm, hf⟩ := lineFeed_bottom h hb (by omega)
    have hroom' : mid.scrollback.length + k ≤ mid.scrollbackLimit := by
      rw [hf.scrollback, hf.limit]
      omega
    obtain ⟨g', hg', hb', hf'⟩ := ih ((kept_lineFeed hm).2 h) hbm hroom'
    refine ⟨g', by rw [iterate, hm]; exact hg', hb', ?_⟩
    rw [Nat.add_comm]
    exact hf.trans hf'

/-- A window keeps its content under `n` more lines, `n` lines further from the last one. -/
theorem Fed.snapshot {n : Nat} (h : Fed n g g') (hg : g.Shaped) (hg' : g'.Shaped)
    (ha : g.active = .primary) (ha' : g'.active = .primary) (offset : Nat) :
    (g'.snapshot (offset + n)).rows = (g.snapshot offset).rows := by
  have hw : Window _ (g.snapshot offset).rows _ _ :=
    (hg.snapshot_window ha offset).append (List.replicate n (blankRow g.size.columns))
  have hw' := hg'.snapshot_window ha' (offset + n)
  rw [h.lines, h.size, h.scrollback, Nat.add_min_add_right] at hw'
  rw [List.length_replicate] at hw
  exact hw'.unique hw

/-- Every viewport of every grid that operations lead to: it has the grid's size and shows the
lines that end at most `offset` lines above the last one, on the alternate screen that screen. From
the last row of a full-screen scroll region, line feeds within the scrollback's limit add blank
lines below all lines, and a window is found again as many lines further up. -/
theorem viewport_law (cw : Char → Option Nat) (size : GridSize) (limit : Nat) (ops : List GridOp)
    (h : ops.foldlM (step cw) (Grid.new size limit) = some g) :
    (∀ offset,
      ((g.snapshot offset).rows.length = g.size.rows ∧
        ∀ row ∈ (g.snapshot offset).rows, row.length = g.size.columns) ∧
      (g.active = .primary → Window (g.scrollback ++ g.primary.rows) (g.snapshot offset).rows
        g.size.rows (min offset g.scrollback.length)) ∧
      (g.active = .alternate → (g.snapshot offset).rows = g.alternate.rows)) ∧
    ∀ k, g.AtBottom → g.scrollback.length + k ≤ g.scrollbackLimit →
      ∃ g', iterate lineFeed k g = some g' ∧ Fed k g g' ∧
        ∀ offset, (g'.snapshot (offset + k)).rows = (g.snapshot offset).rows := by
  have hg := sized_run h
  refine ⟨fun offset => ⟨hg.snapshot offset, fun ha => hg.shaped.snapshot_window ha offset,
    fun ha => (snapshot_alternate ha offset).1⟩, fun k hb hroom => ?_⟩
  obtain ⟨g', hk, hb', hf⟩ := lineFeeds_bottom hg.shaped hb hroom
  have hg' : g'.Shaped := iterate_keeps (I := Shaped) hg.shaped
    (fun _ _ hs hstep => (kept_lineFeed hstep).2 hs) hk
  exact ⟨g', hk, hf, hf.snapshot hg.shaped hg' hb.active hb'.active⟩

/-- Two rows with one line in the scrollback, a wider grid, two line feeds. -/
theorem viewport_law_fed :
    let z : GridSize := ⟨2, 2, by decide, by decide⟩
    let wide : GridSize := ⟨2, 3, by decide, by decide⟩
    let ops : List GridOp := [.print "a\nb\nc", .resize wide]
    ∃ g g', ops.foldlM (step fun _ => some 1) (Grid.new z 4) = some g ∧
      iterate lineFeed 2 g = some g' ∧ g.scrollback.length = 1 ∧ g'.scrollback.length = 3 ∧
      (g'.snapshot 3).rows = (g.snapshot 1).rows := by
  intro z wide ops
  have hsome : (ops.foldlM (step fun _ => some 1) (Grid.new z 4)).isSome := by decide
  obtain ⟨g, h⟩ := Option.isSome_iff_exists.mp hsome
  have hg : g = (ops.foldlM (step fun _ => some 1) (Grid.new z 4)).getD (.new z 4) := by
    rw [h]
    rfl
  have hback : g.scrollback.length = 1 := by
    rw [hg]
    decide
  have hb : g.AtBottom := by
    rw [hg]
    exact ⟨by decide, by decide, by decide, by decide⟩
  have hlimit : g.scrollback.length + 2 ≤ g.scrollbackLimit := by
    rw [hg]
    decide
  obtain ⟨-, hfeeds⟩ := viewport_law (fun _ => some 1) z 4 ops h
  obtain ⟨g', hk, hf, hsnap⟩ := hfeeds 2 hb hlimit
  exact ⟨g, g', h, hk, hback, by rw [hf.scrollback, hback], hsnap 1⟩

end Grid
end Strukt
