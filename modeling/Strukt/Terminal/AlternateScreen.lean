import Strukt.Terminal.GridRuns

/-!
# The alternate screen

Output on the alternate screen stays there. Every operation but a switch of the screen and a resize
writes the active screen only, and the scrollback only from the primary one (`Grid.ActiveOnly`), so
between an `enter_alternate_screen` and the `leave_alternate_screen` that ends it the primary screen
and the scrollback are as they were, and no viewport shows the scrollback.
-/

namespace Strukt
namespace Grid

/-- At most the active screen changed, and the scrollback if that is the primary screen. -/
structure ActiveOnly (g g' : Grid) : Prop where
  active : g'.active = g.active
  primary : g.active = .alternate → g'.primary = g.primary
  scrollback : g.active = .alternate → g'.scrollback = g.scrollback

variable {g g' g'' : Grid}

theorem ActiveOnly.refl (g : Grid) : ActiveOnly g g := ⟨rfl, fun _ => rfl, fun _ => rfl⟩

theorem ActiveOnly.trans (h : ActiveOnly g g') (h' : ActiveOnly g' g'') : ActiveOnly g g'' := by
  refine ⟨h'.active.trans h.active, fun ha => ?_, fun ha => ?_⟩
  · rw [h'.primary (h.active.trans ha), h.primary ha]
  · rw [h'.scrollback (h.active.trans ha), h.scrollback ha]

theorem activeOnly_setScreen (g : Grid) (s : Screen) : ActiveOnly g (g.setScreen s) := by
  unfold setScreen
  split
  · rename_i h
    exact ⟨rfl, fun ha => by simp [h] at ha, fun ha => by simp [h] at ha⟩
  · exact ⟨rfl, fun _ => rfl, fun _ => rfl⟩

theorem activeOnly_bump (g : Grid) : ActiveOnly g g.bumpRevision :=
  ⟨rfl, fun _ => rfl, fun _ => rfl⟩

theorem activeOnly_write (g : Grid) (s : Screen) : ActiveOnly g (g.setScreen s).bumpRevision :=
  (activeOnly_setScreen g s).trans (activeOnly_bump _)

theorem ActiveOnly.of_touches (h : Touches g g') : ActiveOnly g g' := by
  induction h with
  | refl g => exact .refl g
  | trans _ _ ih₁ ih₂ => exact ih₁.trans ih₂
  | bump g => exact activeOnly_bump g
  | screen g _ => exact activeOnly_setScreen g _
  | scrollOff hp _ _ _ =>
    -- Rows go to the scrollback from the primary screen only.
    refine ⟨(activeOnly_setScreen _ _).active, fun ha => ?_, fun ha => ?_⟩ <;>
      exact absurd (hp.symm.trans ha) (by decide)

theorem activeOnly_writeCharacter {cw : Char → Option Nat} {ch : Char} {fg bg : Color}
    {a : CellAttributes} {l : Option HyperlinkId}
    (h : g.writeCharacter cw ch fg bg a l = some g') : ActiveOnly g g' := by
  rcases writeCharacter_cases h with ⟨-, h⟩ | ⟨mid, rows, rendered, s, -, hm, -, -, rfl⟩
  · exact .of_touches (.appendCombining h)
  · exact (ActiveOnly.of_touches (.wrapFor hm)).trans (activeOnly_write mid s)

theorem activeOnly_print {cw : Char → Option Nat} {text : String} (h : g.print cw text = some g') :
    ActiveOnly g g' :=
  print_related .refl (fun _ _ _ => .trans) (fun _ _ => .of_touches)
    (fun _ _ _ => activeOnly_writeCharacter) h

/-! ## Between entering and leaving -/

/-- On the alternate screen an operation leaves the rest of the grid as it is. -/
theorem step_alternate {cw : Char → Option Nat} {op : GridOp} (hleave : op ≠ .leaveAlternateScreen)
    (hresize : ∀ size, op ≠ .resize size) (ha : g.active = .alternate)
    (h : g.step cw op = some g') :
    g'.active = .alternate ∧ g'.primary = g.primary ∧ g'.scrollback = g.scrollback := by
  have hframe : ActiveOnly g g' →
      g'.active = .alternate ∧ g'.primary = g.primary ∧ g'.scrollback = g.scrollback :=
    fun hk => ⟨hk.active.trans ha, hk.primary ha, hk.scrollback ha⟩
  cases op with
  | print text => exact hframe (activeOnly_print h)
  | printStyled ch fg bg a l => exact hframe (activeOnly_writeCharacter h)
  | enterAlternateScreen => cases h; exact ⟨rfl, rfl, rfl⟩
  | leaveAlternateScreen => exact absurd rfl hleave
  | resize size => exact absurd rfl (hresize size)
  | _ => exact hframe (.of_touches (Touches.step (by trivial) h))

/-- The viewport of the alternate screen, at every offset. -/
theorem snapshot_alternate (ha : g.active = .alternate) (offset : Nat) :
    (g.snapshot offset).rows = g.alternate.rows ∧ (g.snapshot offset).viewportOffset = 0 := by
  simp [snapshot, screen, ha]

/-- Whatever is done on the alternate screen, until it is left: meanwhile no viewport shows the
scrollback, and afterwards the primary screen and the scrollback are those from before. -/
theorem alternate_isolated (cw : Char → Option Nat) (ops : List GridOp) (hg : g.active = .primary)
    (hops : ∀ op ∈ ops, op ≠ .leaveAlternateScreen ∧ ∀ size, op ≠ .resize size)
    (h : ops.foldlM (step cw) g.enterAlternateScreen = some g') :
    g'.active = .alternate ∧
      (∀ offset, (g'.snapshot offset).rows = g'.alternate.rows ∧
        (g'.snapshot offset).viewportOffset = 0) ∧
      g'.leaveAlternateScreen.active = g.active ∧
      g'.leaveAlternateScreen.primary = g.primary ∧
      g'.leaveAlternateScreen.scrollback = g.scrollback := by
  obtain ⟨ha, hp, hb⟩ : g'.active = .alternate ∧ g'.primary = g.primary ∧
      g'.scrollback = g.scrollback := by
    refine foldlM_keeps (I := fun s => s.active = .alternate ∧ s.primary = g.primary ∧
      s.scrollback = g.scrollback) ⟨rfl, rfl, rfl⟩ (fun s op s' hop hs hstep => ?_) h
    obtain ⟨ha, hp, hb⟩ := step_alternate (hops op hop).1 (hops op hop).2 hs.1 hstep
    exact ⟨ha, hp.trans hs.2.1, hb.trans hs.2.2⟩
  exact ⟨ha, snapshot_alternate ha, hg.symm, hp, hb⟩

/-- Output that scrolls, an entry once more, more output: a small screen with one row in its
scrollback. -/
theorem alternate_isolated_scrolls :
    let z : GridSize := ⟨1, 2, by decide, by decide⟩
    let g := (((Grid.new z 4).print (fun _ => some 1) "a\nb").getD (.new z 4))
    let ops : List GridOp := [.print "xyz", .enterAlternateScreen, .scrollUp 2, .saveCursor]
    ∃ g', ops.foldlM (step fun _ => some 1) g.enterAlternateScreen = some g' ∧
      g.scrollback.length = 1 ∧ g'.leaveAlternateScreen.primary = g.primary ∧
      g'.leaveAlternateScreen.scrollback = g.scrollback := by
  intro z g ops
  have hsome : (ops.foldlM (step fun _ => some 1) g.enterAlternateScreen).isSome := by
    decide
  obtain ⟨g', h⟩ := Option.isSome_iff_exists.mp hsome
  have hops : ∀ op ∈ ops, op ≠ .leaveAlternateScreen ∧ ∀ size, op ≠ .resize size := by
    simp [ops]
  obtain ⟨-, -, -, hp, hb⟩ := alternate_isolated (fun _ => some 1) ops (by decide) hops h
  exact ⟨g', h, by decide, hp, hb⟩

end Grid
end Strukt
