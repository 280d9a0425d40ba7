import Strukt.Terminal.Grid

/-!
# The terminal model

A terminal model is a grid behind an escape-sequence parser. The parser is a library (`vte`): it
is a parameter (`VteParser`) that turns bytes into the calls that it makes on its performer, in
order. `TerminalPerformer.perform` is what the performer does at each call.
-/

namespace Strukt

def oscPayloadLimit : Nat := 8 * 1024

/-- A call of the parser on its performer. The calls that the performer leaves to their empty
defaults (`hook`, `put`, `unhook`) are not among them. -/
inductive PerformCall where
  | print (character : Char)
  | execute (byte : UInt8)
  | oscDispatch (params : List (List UInt8))
  | csiDispatch (params : List (List UInt16)) (intermediates : List UInt8) (ignore : Bool)
      (action : Char)
  | escDispatch (intermediates : List UInt8) (ignore : Bool) (byte : UInt8)
  deriving DecidableEq

/-- The escape-sequence parser, and the display width of characters. No bytes make no calls. -/
structure VteParser where
  State : Type
  new : State
  advance : State → List UInt8 → State × List PerformCall
  charWidth : Char → Option Nat
  advance_nil : ∀ s, (advance s []).2 = []

structure ParserDiagnostics where
  discardedSequences : UInt64
  unsupportedSequences : UInt64
  deriving DecidableEq

structure Pen where
  foreground : Color
  background : Color
  attributes : CellAttributes
  hyperlink : Option HyperlinkId
  deriving DecidableEq

def Pen.plain : Pen := ⟨.default, .default, .plain, none⟩

structure TerminalPerformer where
  grid : Grid
  pen : Pen
  title : Option String
  diagnostics : ParserDiagnostics
  modes : TerminalModes
  hyperlinkTargets : SortedMap HyperlinkId String
  nextHyperlinkId : UInt32
  deriving DecidableEq

/-- `u32::saturating_add(1)`. -/
def satSucc32 (n : UInt32) : UInt32 := if n = -1 then n else n + 1

/-- `std::str::from_utf8`. -/
def fromUtf8 (bytes : List UInt8) : Option String := String.fromUTF8? ⟨bytes.toArray⟩

/-- `u8::try_from` of a `u16`. -/
def u8TryFrom (n : UInt16) : Option UInt8 := if n.toNat < 256 then some n.toUInt8 else none

def extendedColor : List UInt16 → Option (Color × Nat)
  | 5 :: index :: _ => do return (.indexed (← u8TryFrom index), 2)
  | 2 :: red :: green :: blue :: _ => do
    return (.rgb (← u8TryFrom red) (← u8TryFrom green) (← u8TryFrom blue), 4)
  | _ => none

/-- `param`: a missing or zero parameter is the default. -/
def param (params : List UInt16) (index : Nat) (default : UInt16) : UInt16 :=
  (params[index]?.filter (· ≠ 0)).getD default

namespace TerminalPerformer

def discarded (p : TerminalPerformer) : TerminalPerformer :=
  { p with diagnostics.discardedSequences := p.diagnostics.discardedSequences.satSucc }

def unsupported (p : TerminalPerformer) : TerminalPerformer :=
  { p with diagnostics.unsupportedSequences := p.diagnostics.unsupportedSequences.satSucc }

def onGrid (p : TerminalPerformer) (f : Grid → Option Grid) : Option TerminalPerformer :=
  (f p.grid).map fun g => { p with grid := g }

def withGrid (p : TerminalPerformer) (f : Grid → Grid) : TerminalPerformer :=
  { p with grid := f p.grid }

def setColor (p : TerminalPerformer) (foreground : Bool) (color : Color) : TerminalPerformer :=
  if foreground then { p with pen.foreground := color } else { p with pen.background := color }

/-- One parameter of `apply_sgr` that stands alone; `none` where it is unsupported. -/
def sgrPen (n : UInt16) (pen : Pen) : Option Pen :=
  let color (base : UInt16) (offset : UInt8) : Color := .indexed ((n - base).toUInt8 + offset)
  if n = 0 then some .plain
  else if n = 1 then some { pen with attributes.bold := true }
  else if n = 2 then some { pen with attributes.faint := true }
  else if n = 3 then some { pen with attributes.italic := true }
  else if n = 4 then some { pen with attributes.underline := true }
  else if n = 7 then some { pen with attributes.inverse := true }
  else if n = 9 then some { pen with attributes.strikethrough := true }
  else if n = 22 then some { pen with attributes.bold := false, attributes.faint := false }
  else if n = 23 then some { pen with attributes.italic := false }
  else if n = 24 then some { pen with attributes.underline := false }
  else if n = 27 then some { pen with attributes.inverse := false }
  else if n = 29 then some { pen with attributes.strikethrough := false }
  else if 30 ≤ n ∧ n ≤ 37 then some { pen with foreground := color 30 0 }
  else if n = 39 then some { pen with foreground := .default }
  else if 40 ≤ n ∧ n ≤ 47 then some { pen with background := color 40 0 }
  else if n = 49 then some { pen with background := .default }
  else if 90 ≤ n ∧ n ≤ 97 then some { pen with foreground := color 90 8 }
  else if 100 ≤ n ∧ n ≤ 107 then some { pen with background := color 100 8 }
  else none

def sgr (n : UInt16) (p : TerminalPerformer) : TerminalPerformer :=
  match sgrPen n p.pen with
  | some pen => { p with pen := pen }
  | none => p.unsupported

/-- The loop of `apply_sgr`; an extended colour consumes the parameters of its own. -/
def sgrLoop : List UInt16 → TerminalPerformer → TerminalPerformer
  | [], p => p
  | n :: rest, p =>
    if n = 38 ∨ n = 48 then
      match extendedColor rest with
      | some (color, consumed) =>
        sgrLoop (rest.drop consumed) (p.setColor (n = 38) color)
      | none => sgrLoop rest p.discarded
    else sgrLoop rest (sgr n p)
termination_by params => params.length
decreasing_by all_goals simp only [List.length_cons, List.length_drop]; omega

def applySgr (params : List UInt16) (p : TerminalPerformer) : TerminalPerformer :=
  sgrLoop (if params = [] then [0] else params) p

/-- One mode of `set_private_modes`. -/
def setPrivateMode (enabled : Bool) (p : TerminalPerformer) (mode : UInt16) : TerminalPerformer :=
  if mode = 1049 then
    p.withGrid fun g => if enabled then g.enterAlternateScreen else g.leaveAlternateScreen
  else if mode = 1 then { p with modes.applicationCursorKeys := enabled }
  else if mode = 25 then p.withGrid (·.setCursorVisible enabled)
  else if mode = 1004 then { p with modes.focusReporting := enabled }
  else if mode = 1000 ∨ mode = 1002 ∨ mode = 1003 ∨ mode = 1006 then
    { p with modes.mouseReporting := enabled }
  else if mode = 2004 then { p with modes.bracketedPaste := enabled }
  else p.unsupported

def applyHyperlink (params : List (List UInt8)) (p : TerminalPerformer) : TerminalPerformer :=
  match params[2]? with
  | none => p.discarded
  | some uri =>
    if uri = [] then { p with pen.hyperlink := none }
    else
      match fromUtf8 uri with
      | none => p.discarded
      | some uri =>
        if p.hyperlinkTargets.length ≥ 4096 then p.discarded
        else
          { p with
            nextHyperlinkId := satSucc32 p.nextHyperlinkId
            hyperlinkTargets := p.hyperlinkTargets.insert ⟨p.nextHyperlinkId⟩ uri
            pen.hyperlink := some ⟨p.nextHyperlinkId⟩ }

def oscDispatch (params : List (List UInt8)) (p : TerminalPerformer) : TerminalPerformer :=
  match params with
  | [] => p.discarded
  | command :: rest =>
    if (rest.map (·.length)).sum > oscPayloadLimit then p.discarded
    else
      match rest with
      | title :: _ =>
        if command = [48] ∨ command = [50] then
          match fromUtf8 title with
          | some title => { p with title := some title }
          | none => p.discarded
        else if command = [56] then p.applyHyperlink params
        else p.unsupported
      | [] => if command = [56] then p.applyHyperlink params else p.unsupported

def execute (charWidth : Char → Option Nat) (byte : UInt8) (p : TerminalPerformer) :
    Option TerminalPerformer :=
  if byte = 13 then p.onGrid (·.print charWidth "\r")
  else if byte = 10 ∨ byte = 11 ∨ byte = 12 then p.onGrid (·.print charWidth "\n")
  else if byte = 8 then p.onGrid (·.print charWidth "\x08")
  else if byte = 9 then p.onGrid (·.print charWidth "\t")
  else if byte = 7 then some p
  else some p.unsupported

/-- `('r', [])`: the scroll region, its bottom the last row by default. -/
def applyScrollRegion (values : List UInt16) (p : TerminalPerformer) : TerminalPerformer :=
  let bottomDefault : UInt16 := UInt16.ofNat (min p.grid.size.rows 65535)
  let top := (param values 0 1).toNat - 1
  let bottom := (min (param values 1 bottomDefault).toNat bottomDefault.toNat) - 1
  match p.grid.setScrollRegion top bottom with
  | .ok g => { p with grid := g }
  | .error _ => p.discarded

/-- The actions of `csi_dispatch` without intermediates. -/
def csiAction (values : List UInt16) (action : Char) (p : TerminalPerformer) :
    Option TerminalPerformer :=
  let count := (param values 0 1).toNat
  let cursor := p.grid.screen.cursor
  match action with
  | 'm' => some (p.applySgr values)
  | 'H' | 'f' => some (p.withGrid (·.setCursor (count - 1) ((param values 1 1).toNat - 1)))
  | 'A' => some (p.withGrid (·.moveCursor (-count) 0))
  | 'B' | 'e' => some (p.withGrid (·.moveCursor count 0))
  | 'C' | 'a' => some (p.withGrid (·.moveCursor 0 count))
  | 'D' => some (p.withGrid (·.moveCursor 0 (-count)))
  | 'G' | '\x60' => some (p.withGrid (·.setCursor cursor.row (count - 1)))
  | 'd' => some (p.withGrid (·.setCursor (count - 1) cursor.column))
  | 'J' => p.onGrid (·.eraseInDisplay
      (if param values 0 0 = 0 then .below else if param values 0 0 = 1 then .above else .all))
  | 'K' => p.onGrid (·.eraseInLine
      (if param values 0 0 = 0 then .right else if param values 0 0 = 1 then .left else .all))
  | '@' => p.onGrid (·.insertBlankCharacters count)
  | 'P' => p.onGrid (·.deleteCharacters count)
  | 'L' => p.onGrid (·.insertBlankLines count)
  | 'M' => p.onGrid (·.deleteLines count)
  | 'S' => p.onGrid (·.scrollUp count)
  | 'r' => some (p.applyScrollRegion values)
  | 's' => some (p.withGrid (·.saveCursor))
  | 'u' => some (p.withGrid (·.restoreCursor))
  | _ => some p.unsupported

def csiDispatch (params : List (List UInt16)) (intermediates : List UInt8) (ignore : Bool)
    (action : Char) (p : TerminalPerformer) : Option TerminalPerformer :=
  let values := params.flatten
  if ignore then some p.discarded
  else if intermediates = [] then p.csiAction values action
  else if intermediates = [63] ∧ (action = 'h' ∨ action = 'l') then
    some (values.foldl (setPrivateMode (action = 'h')) p)
  else some p.unsupported

def escDispatch (charWidth : Char → Option Nat) (intermediates : List UInt8) (ignore : Bool)
    (byte : UInt8) (p : TerminalPerformer) : Option TerminalPerformer :=
  if ignore ∨ intermediates ≠ [] then some p.discarded
  else if byte = 55 then some (p.withGrid (·.saveCursor))
  else if byte = 56 then some (p.withGrid (·.restoreCursor))
  else if byte = 68 then p.onGrid (·.print charWidth "\n")
  else if byte = 69 then p.onGrid (·.print charWidth "\r\n")
  else if byte = 77 then p.onGrid (·.reverseIndex)
  else some p.unsupported

def perform (charWidth : Char → Option Nat) (p : TerminalPerformer) :
    PerformCall → Option TerminalPerformer
  | .print character => p.onGrid fun g =>
    g.writeCharacter charWidth character p.pen.foreground p.pen.background p.pen.attributes
      p.pen.hyperlink
  | .execute byte => p.execute charWidth byte
  | .oscDispatch params => some (p.oscDispatch params)
  | .csiDispatch params intermediates ignore action =>
    p.csiDispatch params intermediates ignore action
  | .escDispatch intermediates ignore byte => p.escDispatch charWidth intermediates ignore byte

end TerminalPerformer

structure TerminalModel (V : VteParser) where
  parser : V.State
  performer : TerminalPerformer

namespace TerminalModel

variable {V : VteParser}

def new (size : GridSize) (scrollbackLimit : Nat) : TerminalModel V where
  parser := V.new
  performer :=
    { grid := .new size scrollbackLimit
      pen := .plain
      title := none
      diagnostics := ⟨0, 0⟩
      modes := ⟨false, false, false, false⟩
      hyperlinkTargets := .empty
      nextHyperlinkId := 1 }

def advance (m : TerminalModel V) (bytes : List UInt8) : Option (TerminalModel V) := do
  let (parser, calls) := V.advance m.parser bytes
  return ⟨parser, ← calls.foldlM (·.perform V.charWidth) m.performer⟩

def snapshot (m : TerminalModel V) (viewportOffset : Nat) : TerminalSnapshot :=
  { m.performer.grid.snapshot viewportOffset with
    title := m.performer.title
    modes := m.performer.modes
    hyperlinkTargets := m.performer.hyperlinkTargets }

def resize (m : TerminalModel V) (size : GridSize) : Option (TerminalModel V) := do
  let (_, grid) ← m.performer.grid.resize size
  return { m with performer.grid := grid }

end TerminalModel
end Strukt
