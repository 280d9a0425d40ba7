import Strukt.Terminal.Cell
import Strukt.Lib.SortedMap

/-!
# The terminal grid

A grid has a primary and an alternate screen of cells, a cursor on each, and a revision. Its
operations index rows and cells without checks of their own, so each returns an `Option`: `none`
is the panic of an index out of bounds.
-/

namespace Strukt

abbrev Row := List Cell

/-- A nonempty grid size. -/
structure GridSize where
  rows : Nat
  columns : Nat
  rows_pos : 0 < rows
  columns_pos : 0 < columns
  deriving DecidableEq

inductive GridError where
  | emptyDimension
  | invalidScrollRegion
  deriving DecidableEq

def GridSize.new (rows columns : Nat) : Except GridError GridSize :=
  if h : 0 < rows ∧ 0 < columns then .ok ⟨rows, columns, h.1, h.2⟩ else .error .emptyDimension

inductive EraseDisplay where
  | below
  | above
  | all

inductive EraseLine where
  | right
  | left
  | all

structure TerminalModes where
  applicationCursorKeys : Bool
  bracketedPaste : Bool
  focusReporting : Bool
  mouseReporting : Bool
  deriving DecidableEq

structure Cursor where
  row : Nat
  column : Nat
  visible : Bool
  deriving DecidableEq

inductive ActiveScreen where
  | primary
  | alternate
  deriving DecidableEq

structure Screen where
  rows : List Row
  cursor : Cursor
  wrapPending : Bool
  scrollTop : Nat
  scrollBottom : Nat
  savedCursor : Option Cursor
  deriving DecidableEq

structure TerminalSnapshot where
  rows : List Row
  cursor : Cursor
  revision : UInt64
  viewportOffset : Nat
  title : Option String
  modes : TerminalModes
  hyperlinkTargets : SortedMap HyperlinkId String
  deriving DecidableEq

structure Grid where
  size : GridSize
  primary : Screen
  alternate : Screen
  active : ActiveScreen
  scrollback : List Row
  scrollbackLimit : Nat
  revision : UInt64
  deriving DecidableEq

def maxScrollbackRows : Nat := 100000

/-- `f` applied `n` times; a panic ends the loop. -/
def iterate {α : Type} (f : α → Option α) : Nat → α → Option α
  | 0, a => some a
  | n + 1, a => (f a).bind (iterate f n)

/-! ## Rows -/

def blankRow (columns : Nat) : Row := List.replicate columns Cell.blank

def blankRows (size : GridSize) : List Row := List.replicate size.rows (blankRow size.columns)

/-- The walk of `repair_row`: a wide cell needs its continuation behind it, a continuation a wide
cell before it, as the walk left that one. -/
def repairFrom : Option CellWidth → Row → Row
  | _, [] => []
  | before, cell :: rest =>
    let repaired := match cell.width with
      | .wide => if rest.head?.map (·.width) = some .continuation then cell else .blank
      | .continuation => if before = some .wide then cell else .blank
      | .single => cell
    repaired :: repairFrom (some repaired.width) rest

def repairRow (row : Row) : Row := repairFrom none row

/-- `row[start..end]` reset, and the row repaired. -/
def eraseRange (row : Row) (start stop : Nat) : Option Row :=
  if start ≤ stop ∧ stop ≤ row.length then
    some (repairRow (row.take start ++ List.replicate (stop - start) Cell.blank ++ row.drop stop))
  else none

def resizeRow (row : Row) (columns : Nat) : Row :=
  repairRow (row.take columns ++ List.replicate (columns - row.length) Cell.blank)

/-- `rows[row][column]` changed by `f`, whose error is a failed `expect`. -/
def modifyCell (rows : List Row) (row column : Nat) (f : Cell → Except CellError Cell) :
    Option (List Row) := do
  let r ← rows[row]?
  let cell ← r[column]?
  let cell ← (f cell).toOption
  return rows.set row (r.set column cell)

/-- `rows.remove(index)`. -/
def removeRow (rows : List Row) (index : Nat) : Option (Row × List Row) := do
  let row ← rows[index]?
  return (row, rows.eraseIdx index)

/-- `rows.insert(index, row)`. -/
def insertRow (rows : List Row) (index : Nat) (row : Row) : Option (List Row) :=
  if index ≤ rows.length then some (rows.take index ++ row :: rows.drop index) else none

/-! ## Reflow -/

/-- The state of `reflow_rows`: the destination, its next position, and whether it is full. -/
structure Reflow where
  destination : List Row
  row : Nat
  column : Nat
  full : Bool

/-- The write of a cell at a position of the destination. -/
def reflowPlace (size : GridSize) (cell : Cell) (destination : List Row)
    (row column cellWidth : Nat) : Option (List Row) :=
  if cell.width = .wide ∧ size.columns = 1 then
    modifyCell destination row column fun c => c.setText "\uFFFD" .single
  else
    (modifyCell destination row column fun _ => .ok cell).bind fun destination =>
      if cellWidth = 2 then
        modifyCell destination row (column + 1) fun c => c.setText "" .continuation
      else some destination

def reflowCell (size : GridSize) (cell : Cell) (r : Reflow) : Option Reflow :=
  let cellWidth := if cell.width = .wide ∧ size.columns > 1 then 2 else 1
  let row := if r.column + cellWidth > size.columns then r.row + 1 else r.row
  let column := if r.column + cellWidth > size.columns then 0 else r.column
  if row ≥ size.rows then some ⟨r.destination, row, column, true⟩
  else
    (reflowPlace size cell r.destination row column cellWidth).map fun destination =>
      ⟨destination, row, column + cellWidth, false⟩

def reflowCells (size : GridSize) : List Cell → Reflow → Option Reflow
  | [], r => some r
  | cell :: rest, r => do
    let r ← reflowCell size cell r
    if r.full then return r else reflowCells size rest r

/-- The cells of a row up to its last one that is not blank, its continuations left out. -/
def contentCells (row : Row) : List Cell :=
  ((row.reverse.dropWhile (·.isSemanticallyBlank)).reverse).filter (·.width ≠ .continuation)

def reflowLines (size : GridSize) : List Row → Reflow → Option Reflow
  | [], r => some r
  | source :: rest, r => do
    let r ← reflowCells size (contentCells source) r
    if r.full then return r
    let r := { r with row := r.row + 1, column := 0 }
    if r.row ≥ size.rows then return r else reflowLines size rest r

def reflowRows (source : List Row) (size : GridSize) : Option (List Row) :=
  (reflowLines size source ⟨blankRows size, 0, 0, false⟩).map (·.destination)

def Screen.new (size : GridSize) : Screen where
  rows := blankRows size
  cursor := ⟨0, 0, true⟩
  wrapPending := false
  scrollTop := 0
  scrollBottom := size.rows - 1
  savedCursor := none

def resizeScreen (screen : Screen) (size : GridSize) : Option Screen := do
  let oldColumns := (screen.rows.head?.map (·.length)).getD size.columns
  let rows ← (
    if oldColumns = size.columns then
      some ((screen.rows.take size.rows ++
        List.replicate (size.rows - screen.rows.length) (blankRow size.columns)).map
          fun row => resizeRow row size.columns)
    else reflowRows screen.rows size)
  return { screen with
    rows := rows
    cursor := { screen.cursor with
      row := min screen.cursor.row (size.rows - 1)
      column := min screen.cursor.column (size.columns - 1) }
    wrapPending := false
    scrollTop := 0
    scrollBottom := size.rows - 1 }

/-! ## The grid's operations -/

namespace Grid

def new (size : GridSize) (scrollbackLimit : Nat) : Grid where
  size := size
  primary := .new size
  alternate := .new size
  active := .primary
  scrollback := []
  scrollbackLimit := min scrollbackLimit maxScrollbackRows
  revision := 0

/-- `active_ref`. -/
def screen (g : Grid) : Screen :=
  match g.active with
  | .primary => g.primary
  | .alternate => g.alternate

/-- A write through `active_mut`. -/
def setScreen (g : Grid) (s : Screen) : Grid :=
  match g.active with
  | .primary => { g with primary := s }
  | .alternate => { g with alternate := s }

def bumpRevision (g : Grid) : Grid := { g with revision := g.revision.satSucc }

def carriageReturn (g : Grid) : Grid :=
  g.setScreen { g.screen with
    cursor := { g.screen.cursor with column := 0 }
    wrapPending := false }

def backspace (g : Grid) : Grid :=
  g.setScreen { g.screen with
    cursor := { g.screen.cursor with column := g.screen.cursor.column - 1 }
    wrapPending := false }

/-- The rows of the scroll region move up by one; the first one goes to the scrollback when the
region is the whole primary screen. -/
def scrollRegionUpOne (g : Grid) : Option Grid := do
  let s := g.screen
  let (removed, rows) ← removeRow s.rows s.scrollTop
  let rows ← insertRow rows s.scrollBottom (blankRow g.size.columns)
  let g := g.setScreen { s with rows := rows }
  if g.active = .primary ∧ (s.scrollTop = 0 ∧ s.scrollBottom + 1 = rows.length) ∧
      g.scrollbackLimit > 0 then
    let kept := if g.scrollback.length = g.scrollbackLimit then g.scrollback.tail else g.scrollback
    return { g with scrollback := kept ++ [removed] }
  else return g

def lineFeed (g : Grid) : Option Grid := do
  let row := g.screen.cursor.row
  let g ← (
    if row = g.screen.scrollBottom then g.scrollRegionUpOne
    else if row < g.size.rows - 1 then
      some (g.setScreen { g.screen with cursor := { g.screen.cursor with row := row + 1 } })
    else some g)
  return (g.setScreen { g.screen with wrapPending := false }).bumpRevision

def appendCombining (g : Grid) (character : Char) : Option Grid := do
  let s := g.screen
  let row := s.cursor.row
  let column := if s.wrapPending then s.cursor.column else s.cursor.column - 1
  let cells ← s.rows[row]?
  let target ← cells[column]?
  let column := if target.width = .continuation then column - 1 else column
  let target ← cells[column]?
  match target.appendCombining character with
  | .ok cell =>
    return (g.setScreen { s with rows := s.rows.set row (cells.set column cell) }).bumpRevision
  | .error _ => return g

/-- `set_text` on a cell, with its colours, attributes and link. -/
def writeStyled (text : String) (width : CellWidth) (foreground background : Color)
    (attributes : CellAttributes) (hyperlink : Option HyperlinkId) (c : Cell) :
    Except CellError Cell :=
  (c.setText text width).map (·.styled foreground background attributes hyperlink)

/-- The cells that a character of display width `width` takes. -/
def writeCells (rows : List Row) (row column width : Nat) (rendered : Char)
    (foreground background : Color) (attributes : CellAttributes)
    (hyperlink : Option HyperlinkId) : Option (List Row) :=
  (modifyCell rows row column
      (writeStyled (String.singleton rendered) (if width = 2 then .wide else .single)
        foreground background attributes hyperlink)).bind fun rows =>
    if width = 2 then
      modifyCell rows row (column + 1)
        (writeStyled "" .continuation foreground background attributes hyperlink)
    else some rows

/-- `write_character`, given the display width of characters. -/
def writeCharacter (charWidth : Char → Option Nat) (g : Grid) (character : Char)
    (foreground background : Color) (attributes : CellAttributes)
    (hyperlink : Option HyperlinkId) : Option Grid :=
  let width := min ((charWidth character).getD 0) 2
  if width = 0 then g.appendCombining character
  else do
    let columns := g.size.columns
    let g ← (
      if g.screen.wrapPending ∨ (width = 2 ∧ g.screen.cursor.column + width > columns) then
        g.carriageReturn.lineFeed
      else some g)
    let width := if width = 2 ∧ columns = 1 then 1 else width
    let s := g.screen
    let row := s.cursor.row
    let column := s.cursor.column
    let rendered := if width = 1 ∧ charWidth character = some 2 then '\uFFFD' else character
    let rows ← writeCells s.rows row column width rendered foreground background attributes
      hyperlink
    let atEnd := column + width = columns
    return (g.setScreen { s with
      rows := rows
      cursor := { s.cursor with column := if atEnd then columns - 1 else column + width }
      wrapPending := atEnd }).bumpRevision

/-- One character of `print`. -/
def printCharacter (charWidth : Char → Option Nat) (g : Grid) (character : Char) : Option Grid :=
  if character = '\r' then some g.carriageReturn
  else if character = '\n' then g.lineFeed
  else if character = '\x08' then some g.backspace
  else if character = '\t' then
    iterate (fun g => g.writeCharacter charWidth ' ' .default .default .plain none)
      (8 - g.screen.cursor.column % 8) g
  else g.writeCharacter charWidth character .default .default .plain none

def print (charWidth : Char → Option Nat) (g : Grid) (text : String) : Option Grid :=
  text.toList.foldlM (printCharacter charWidth) g

def enterAlternateScreen (g : Grid) : Grid :=
  { g with alternate := .new g.size, active := .alternate }.bumpRevision

def leaveAlternateScreen (g : Grid) : Grid := { g with active := .primary }.bumpRevision

/-- The rows that the viewport shows, `viewportOffset` rows back into the scrollback. -/
def snapshot (g : Grid) (viewportOffset : Nat) : TerminalSnapshot :=
  let s := g.screen
  let maximumOffset := if g.active = .primary then g.scrollback.length else 0
  let viewportOffset := min viewportOffset maximumOffset
  let rows :=
    if viewportOffset = 0 then s.rows
    else
      let combined := g.scrollback ++ s.rows
      let stop := combined.length - viewportOffset
      (combined.take stop).drop (stop - g.size.rows)
  { rows := rows
    cursor := s.cursor
    revision := g.revision
    viewportOffset := viewportOffset
    title := none
    modes := ⟨false, false, false, false⟩
    hyperlinkTargets := .empty }

def setCursor (g : Grid) (row column : Nat) : Grid :=
  (g.setScreen { g.screen with
    cursor := { g.screen.cursor with
      row := min row (g.size.rows - 1)
      column := min column (g.size.columns - 1) }
    wrapPending := false }).bumpRevision

def moveCursor (g : Grid) (rowDelta columnDelta : Int) : Grid :=
  g.setCursor (g.screen.cursor.row + rowDelta).toNat (g.screen.cursor.column + columnDelta).toNat

def saveCursor (g : Grid) : Grid :=
  g.setScreen { g.screen with savedCursor := some g.screen.cursor }

/-- The saved cursor as it was saved, whatever the size was then. -/
def restoreCursor (g : Grid) : Grid :=
  match g.screen.savedCursor with
  | some cursor =>
    (g.setScreen { g.screen with cursor := cursor, wrapPending := false }).bumpRevision
  | none => g

def setCursorVisible (g : Grid) (visible : Bool) : Grid :=
  (g.setScreen { g.screen with cursor := { g.screen.cursor with visible := visible } }).bumpRevision

/-- Whether the size changed, and the grid after it. -/
def resize (g : Grid) (size : GridSize) : Option (Bool × Grid) :=
  if size = g.size then some (false, g)
  else do
    let primary ← resizeScreen g.primary size
    let alternate ← resizeScreen g.alternate size
    let g := { g with
      primary := primary
      alternate := alternate
      scrollback := g.scrollback.map fun row => resizeRow row size.columns
      size := size }
    return (true, g.bumpRevision)

def setScrollRegion (g : Grid) (top bottom : Nat) : Except GridError Grid :=
  if top > bottom ∨ bottom ≥ g.size.rows then .error .invalidScrollRegion
  else .ok (g.setScreen { g.screen with
    scrollTop := top
    scrollBottom := bottom
    cursor := { g.screen.cursor with row := top, column := 0 }
    wrapPending := false }).bumpRevision

/-- `f` on the cursor's row. -/
def modifyCursorRow (g : Grid) (f : Row → Option Row) : Option Grid := do
  let s := g.screen
  let row ← s.rows[s.cursor.row]?
  let row ← f row
  return (g.setScreen { s with
    rows := s.rows.set s.cursor.row row
    wrapPending := false }).bumpRevision

def eraseInDisplay (g : Grid) (mode : EraseDisplay) : Option Grid := do
  let columns := g.size.columns
  let s := g.screen
  let row := s.cursor.row
  let column := s.cursor.column
  let rows ← (match mode with
    | .below => do
      let cells ← s.rows[row]?
      let cells ← eraseRange cells column columns
      some (s.rows.take row ++
        cells :: List.replicate (s.rows.length - (row + 1)) (blankRow columns))
    | .above => do
      let cells ← s.rows[row]?
      let cells ← eraseRange cells 0 (column + 1)
      some (List.replicate row (blankRow columns) ++ cells :: s.rows.drop (row + 1))
    | .all => some (List.replicate s.rows.length (blankRow columns)))
  return (g.setScreen { s with rows := rows, wrapPending := false }).bumpRevision

def eraseInLine (g : Grid) (mode : EraseLine) : Option Grid :=
  let columns := g.size.columns
  let column := g.screen.cursor.column
  g.modifyCursorRow fun row =>
    match mode with
    | .right => eraseRange row column columns
    | .left => eraseRange row 0 (column + 1)
    | .all => eraseRange row 0 columns

def insertBlankCharacters (g : Grid) (count : Nat) : Option Grid :=
  let columns := g.size.columns
  let column := g.screen.cursor.column
  let count := min (max count 1) (columns - column)
  g.modifyCursorRow fun row =>
    if column ≤ columns ∧ column ≤ row.length then
      some (repairRow ((row.take column ++ List.replicate count Cell.blank ++
        row.drop column).take columns))
    else none

def deleteCharacters (g : Grid) (count : Nat) : Option Grid :=
  let columns := g.size.columns
  let column := g.screen.cursor.column
  let count := min (max count 1) (columns - column)
  g.modifyCursorRow fun row =>
    if column ≤ columns ∧ column + count ≤ row.length then
      some (repairRow (row.take column ++ row.drop (column + count) ++
        List.replicate count Cell.blank))
    else none

/-- `count` rows of the scroll region moved by `move`, where the cursor is in the region. -/
def moveLines (g : Grid) (count : Nat) (move : List Row → Option (List Row)) : Option Grid :=
  let s := g.screen
  let row := s.cursor.row
  if row < s.scrollTop ∨ row > s.scrollBottom then some g
  else do
    let rows ← iterate move (min (max count 1) (s.scrollBottom - row + 1)) s.rows
    return (g.setScreen { s with rows := rows, wrapPending := false }).bumpRevision

def insertBlankLines (g : Grid) (count : Nat) : Option Grid :=
  let s := g.screen
  g.moveLines count fun rows => do
    let rows ← insertRow rows s.cursor.row (blankRow g.size.columns)
    return (← removeRow rows (s.scrollBottom + 1)).2

def deleteLines (g : Grid) (count : Nat) : Option Grid :=
  let s := g.screen
  g.moveLines count fun rows => do
    let (_, rows) ← removeRow rows s.cursor.row
    insertRow rows s.scrollBottom (blankRow g.size.columns)

def scrollUp (g : Grid) (lines : Nat) : Option Grid := do
  let g ← iterate scrollRegionUpOne (max lines 1) g
  return g.bumpRevision

def reverseIndex (g : Grid) : Option Grid := do
  let s := g.screen
  let s ← (
    if s.cursor.row = s.scrollTop then do
      let (_, rows) ← removeRow s.rows s.scrollBottom
      let rows ← insertRow rows s.scrollTop (blankRow g.size.columns)
      some { s with rows := rows }
    else some { s with cursor := { s.cursor with row := s.cursor.row - 1 } })
  return (g.setScreen { s with wrapPending := false }).bumpRevision

end Grid
end Strukt
