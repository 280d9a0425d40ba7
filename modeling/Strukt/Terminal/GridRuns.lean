import Strukt.Terminal.GridEffects

/-!
# Sequences of grid operations

`GridOp` is a call of a grid's public interface with its arguments, `Grid.step` what it does to the
grid: `none` is a panic. The display width of characters is a parameter.
-/

namespace Strukt

inductive GridOp where
  | print (text : String)
  | printStyled (character : Char) (foreground background : Color) (attributes : CellAttributes)
      (hyperlink : Option HyperlinkId)
  | setCursor (row column : Nat)
  | moveCursor (rowDelta columnDelta : Int)
  | saveCursor
  | restoreCursor
  | setCursorVisible (visible : Bool)
  | setScrollRegion (top bottom : Nat)
  | eraseInDisplay (mode : EraseDisplay)
  | eraseInLine (mode : EraseLine)
  | insertBlankCharacters (count : Nat)
  | deleteCharacters (count : Nat)
  | insertBlankLines (count : Nat)
  | deleteLines (count : Nat)
  | scrollUp (lines : Nat)
  | reverseIndex
  | enterAlternateScreen
  | leaveAlternateScreen
  | resize (size : GridSize)

/-- The operations that neither write characters nor switch the screen nor resize the grid. -/
def GridOp.Edits : GridOp → Prop
  | .print _ | .printStyled .. | .enterAlternateScreen | .leaveAlternateScreen | .resize _ => False
  | _ => True

namespace Grid

/-- A rejected scroll region leaves the grid as it is. -/
def step (charWidth : Char → Option Nat) (g : Grid) : GridOp → Option Grid
  | .print text => g.print charWidth text
  | .printStyled character foreground background attributes hyperlink =>
    g.writeCharacter charWidth character foreground background attributes hyperlink
  | .setCursor row column => some (g.setCursor row column)
  | .moveCursor rowDelta columnDelta => some (g.moveCursor rowDelta columnDelta)
  | .saveCursor => some g.saveCursor
  | .restoreCursor => some g.restoreCursor
  | .setCursorVisible visible => some (g.setCursorVisible visible)
  | .setScrollRegion top bottom => some ((g.setScrollRegion top bottom).toOption.getD g)
  | .eraseInDisplay mode => g.eraseInDisplay mode
  | .eraseInLine mode => g.eraseInLine mode
  | .insertBlankCharacters count => g.insertBlankCharacters count
  | .deleteCharacters count => g.deleteCharacters count
  | .insertBlankLines count => g.insertBlankLines count
  | .deleteLines count => g.deleteLines count
  | .scrollUp lines => g.scrollUp lines
  | .reverseIndex => g.reverseIndex
  | .enterAlternateScreen => some g.enterAlternateScreen
  | .leaveAlternateScreen => some g.leaveAlternateScreen
  | .resize size => (g.resize size).map (·.2)

theorem Touches.step {g g' : Grid} {cw : Char → Option Nat} {op : GridOp} (hop : op.Edits)
    (h : g.step cw op = some g') : Touches g g' := by
  cases op with
  | print text => exact hop.elim
  | printStyled ch fg bg a l => exact hop.elim
  | setCursor row column => cases h; exact setCursor row column
  | moveCursor dr dc => cases h; exact setCursor _ _
  | saveCursor => cases h; exact .screen g (.refl _)
  | restoreCursor => cases h; exact restoreCursor
  | setCursorVisible visible => cases h; exact write (.refl _)
  | setScrollRegion top bottom =>
    cases h
    cases hr : g.setScrollRegion top bottom with
    | ok g' => exact setScrollRegion hr
    | error e => exact .refl g
  | eraseInDisplay mode => exact eraseInDisplay h
  | eraseInLine mode => exact eraseInLine h
  | insertBlankCharacters count => exact insertBlankCharacters h
  | deleteCharacters count => exact deleteCharacters h
  | insertBlankLines count => exact insertBlankLines h
  | deleteLines count => exact deleteLines h
  | scrollUp lines => exact scrollUp h
  | reverseIndex => exact reverseIndex h
  | enterAlternateScreen => exact hop.elim
  | leaveAlternateScreen => exact hop.elim
  | resize size => exact hop.elim

end Grid
end Strukt
