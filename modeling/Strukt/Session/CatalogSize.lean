import Strukt.Session.StoreFiles

/-!
# The size of a persisted catalog

The bytes of the indented text of a record, as a function of what is in it: `bytes`, one for each
type, at the indentation that it has in a record.

* **Sizes** (`textBytes_toJson`): the text has these bytes.
* **Cells** (`cells_le_bytes`): a cell takes at least 439 bytes, of which its snapshot counted 32
  and those of its own text.
* **The law** (`size_law`): a save is refused exactly where the bytes are over the limit.
-/

namespace Strukt

open Json

variable {floatText : UInt64 → List Char} {indent : Nat}

/-! ## Parts of texts -/

namespace Json

def boolBytes (b : Bool) : Nat := if b then 4 else 5

def integerBytes (n : Int) : Nat :=
  if 0 ≤ n then digitCount n.toNat else digitCount (-n).toNat + 1

theorem textBytes_bool {b : Bool} :
    textBytes (pretty floatText indent (.bool b)) = boolBytes b := by
  cases b <;> rfl

theorem textBytes_ofInteger {n : Int} :
    textBytes (pretty floatText indent (ofInteger n)) = integerBytes n := by
  unfold ofInteger integerBytes
  split
  · exact textBytes_natural
  · have hdigits : textBytes (Nat.toDigits 10 (-n).toNat) = digitCount (-n).toNat :=
      @textBytes_natural floatText 0 _
    rw [pretty, textBytes_cons, hdigits, show '-'.utf8Size = 1 from rfl, Nat.add_comm]

theorem stringBytes_text {kind : IdKind} (id : OpaqueId kind) : stringBytes id.text = 34 := by
  have hdigit : ∀ d < 16, textBytes (escape (Nat.digitChar d)) = 1 := by decide
  have hdigits : ∀ l : List Nat, (∀ d ∈ l, d < 16) →
      textBytes ((l.map Nat.digitChar).flatMap escape) = l.length := by
    intro l
    induction l with
    | nil => exact fun _ => rfl
    | cons d l ih =>
      intro h
      rw [List.map_cons, List.flatMap_cons, textBytes_append, hdigit d (h d List.mem_cons_self),
        ih fun d hd => h d (List.mem_cons_of_mem _ hd), List.length_cons, Nat.add_comm]
  unfold stringBytes quoted OpaqueId.text
  rw [String.toList_ofList, List.cons_append, textBytes_cons, textBytes_append,
    hdigits _ fun d => OpaqueId.digits_lt, OpaqueId.length_digits]
  rfl

theorem linesBytes_cons {size : Nat} {sizes : List Nat} :
    linesBytes indent (size :: sizes) =
      indent + 2 + (indent + 4 + size + (sizes.map (indent + 4 + ·)).sum) :=
  if_neg (List.cons_ne_nil size sizes)

end Json

/-! ## Cells -/

def Color.bytes : Color → Nat
  | .default => 9
  | .indexed index => 45 + digitCount index.toNat
  | .rgb red green blue =>
    119 + digitCount red.toNat + digitCount green.toNat + digitCount blue.toNat

def CellWidth.bytes : CellWidth → Nat
  | .single => 8
  | .wide => 6
  | .continuation => 14

def CellAttributes.bytes (a : CellAttributes) : Nat :=
  192 + boolBytes a.bold + boolBytes a.faint + boolBytes a.italic + boolBytes a.underline +
    boolBytes a.inverse + boolBytes a.strikethrough

def Cell.bytes (c : Cell) : Nat :=
  182 + stringBytes c.text + c.width.bytes + c.foreground.bytes + c.background.bytes +
    c.attributes.bytes + c.hyperlink.elim 4 fun id => digitCount id.value.toNat

theorem Color.textBytes_toJson (c : Color) :
    textBytes (pretty floatText (12 + 2) c.toJson) = c.bytes := by
  cases c with
  | default => rfl
  | indexed index =>
    have hname : stringBytes "Indexed" = 9 := rfl
    rw [toJson, textBytes_object, List.map_singleton, textBytes_natural, linesBytes_cons, hname,
      List.map_nil, List.sum_nil, bytes]
    omega
  | rgb red green blue =>
    have hname : stringBytes "Rgb" = 5 := rfl
    rw [toJson, textBytes_object, List.map_singleton, textBytes_array, linesBytes_cons, hname]
    simp only [List.map_cons, List.map_nil, textBytes_natural, linesBytes_cons, List.sum_cons,
      List.sum_nil, bytes]
    omega

theorem CellWidth.textBytes_toJson (w : CellWidth) :
    textBytes (pretty floatText indent w.toJson) = w.bytes := by
  cases w <;> rfl

theorem CellAttributes.textBytes_toJson (a : CellAttributes) :
    textBytes (pretty floatText (12 + 2) a.toJson) = a.bytes := by
  rw [toJson, textBytes_object]
  simp only [List.map_cons, List.map_nil, textBytes_bool]
  show 16 + (18 + (6 + 2 + _) + (18 + (7 + 2 + _) + (18 + (8 + 2 + _) + (18 + (11 + 2 + _) +
    (18 + (9 + 2 + _) + (18 + (15 + 2 + _) + 0)))))) = 192 + _ + _ + _ + _ + _ + _
  omega

theorem Cell.textBytes_toJson (c : Cell) : textBytes (pretty floatText 12 c.toJson) = c.bytes := by
  have hlink : textBytes (pretty floatText 14
      (c.hyperlink.elim .null fun id => .natural id.value.toNat)) =
        c.hyperlink.elim 4 fun id => digitCount id.value.toNat := by
    cases c.hyperlink with
    | none => rfl
    | some id => exact textBytes_natural
  rw [toJson, textBytes_object]
  simp only [List.map_cons, List.map_nil, textBytes_string, CellWidth.textBytes_toJson,
    Color.textBytes_toJson, CellAttributes.textBytes_toJson, hlink]
  show 14 + (16 + (6 + 2 + _) + (16 + (7 + 2 + _) + (16 + (12 + 2 + _) + (16 + (12 + 2 + _) +
    (16 + (12 + 2 + _) + (16 + (11 + 2 + _) + 0)))))) = 182 + _ + _ + _ + _ + _ + _
  omega

def CursorSnapshot.bytes (c : CursorSnapshot) : Nat :=
  74 + digitCount c.row + digitCount c.column + boolBytes c.visible

def ModesSnapshot.bytes (m : ModesSnapshot) : Nat :=
  142 + boolBytes m.applicationCursorKeys + boolBytes m.bracketedPaste +
    boolBytes m.focusReporting + boolBytes m.mouseReporting

def AttentionState.bytes : AttentionState → Nat
  | .none => 6
  | .unread => 8
  | .attention => 11

def PaneLifecycle.bytes (indent : Nat) : PaneLifecycle → Nat
  | .stopped => 9
  | .starting => 10
  | .running => 9
  | .exited code => 4 * indent + 34 + code.elim 4 fun n => integerBytes n.toInt
  | .failed message => 4 * indent + 37 + stringBytes message
  | .backpressured => 15

def rowBytes (row : Row) : Nat := linesBytes 10 (row.map (·.bytes))

def PaneScreenSnapshot.bytes (s : PaneScreenSnapshot) : Nat :=
  269 + linesBytes 8 (s.rows.map rowBytes) + s.cursor.bytes + s.modes.bytes +
    digitCount s.terminalRevision.toNat + digitCount s.outputRevision.toNat +
    digitCount s.viewportOffset + s.title.elim 4 stringBytes + digitCount s.generation.toNat +
    s.lifecycle.bytes 8 + digitCount s.unreadCount.toNat + s.attention.bytes

def PaneHistorySnapshot.bytes (h : PaneHistorySnapshot) : Nat := 74 + h.screen.bytes

theorem CursorSnapshot.textBytes_toJson (c : CursorSnapshot) :
    textBytes (pretty floatText (4 + 2 + 2) c.toJson) = c.bytes := by
  rw [toJson, textBytes_object]
  simp only [List.map_cons, List.map_nil, textBytes_natural, textBytes_bool]
  show 10 + (12 + (5 + 2 + _) + (12 + (8 + 2 + _) + (12 + (9 + 2 + _) + 0))) = 74 + _ + _ + _
  omega

theorem ModesSnapshot.textBytes_toJson (m : ModesSnapshot) :
    textBytes (pretty floatText (4 + 2 + 2) m.toJson) = m.bytes := by
  rw [toJson, textBytes_object]
  simp only [List.map_cons, List.map_nil, textBytes_bool]
  show 10 + (12 + (25 + 2 + _) + (12 + (17 + 2 + _) + (12 + (17 + 2 + _) + (12 + (17 + 2 + _) +
    0)))) = 142 + _ + _ + _ + _
  omega

theorem AttentionState.textBytes_toJson (a : AttentionState) :
    textBytes (pretty floatText indent a.toJson) = a.bytes := by
  cases a <;> rfl

theorem PaneLifecycle.textBytes_toJson (l : PaneLifecycle) :
    textBytes (pretty floatText indent l.toJson) = l.bytes indent := by
  cases l with
  | stopped => rfl
  | starting => rfl
  | running => rfl
  | exited code =>
    have hcode : textBytes (pretty floatText (indent + 2 + 2)
        (code.elim .null fun n => ofInteger n.toInt)) =
          code.elim 4 fun n => integerBytes n.toInt := by
      cases code with
      | none => rfl
      | some n => exact textBytes_ofInteger
    have hexited : stringBytes "Exited" = 8 := rfl
    have hname : stringBytes "code" = 6 := rfl
    rw [toJson, textBytes_object, List.map_singleton, textBytes_object, List.map_singleton, hcode]
    simp only [linesBytes_cons, List.map_nil, List.sum_nil, hexited, hname, bytes]
    omega
  | failed message =>
    have hfailed : stringBytes "Failed" = 8 := rfl
    have hname : stringBytes "message" = 9 := rfl
    rw [toJson, textBytes_object, List.map_singleton, textBytes_object, List.map_singleton,
      textBytes_string]
    simp only [linesBytes_cons, List.map_nil, List.sum_nil, hfailed, hname, bytes]
    omega
  | backpressured => rfl

theorem PaneScreenSnapshot.textBytes_toJson (s : PaneScreenSnapshot) :
    textBytes (pretty floatText (4 + 2) s.toJson) = s.bytes := by
  have hrow (row : Row) : textBytes (pretty floatText (4 + 2 + 2 + 2)
      (.array (row.map (·.toJson)))) = rowBytes row := by
    rw [textBytes_array, List.map_map]
    exact congrArg (linesBytes 10) (List.map_congr_left fun c _ => c.textBytes_toJson)
  have hrows : textBytes (pretty floatText (4 + 2 + 2)
      (.array (s.rows.map fun row => .array (row.map (·.toJson))))) =
        linesBytes 8 (s.rows.map rowBytes) := by
    rw [textBytes_array, List.map_map]
    exact congrArg (linesBytes 8) (List.map_congr_left fun row _ => hrow row)
  have htitle : textBytes (pretty floatText (4 + 2 + 2) (s.title.elim .null .string)) =
      s.title.elim 4 stringBytes := by
    cases s.title <;> rfl
  have hlifecycle : textBytes (pretty floatText (4 + 2 + 2) s.lifecycle.toJson) =
      s.lifecycle.bytes 8 := PaneLifecycle.textBytes_toJson s.lifecycle
  rw [toJson, textBytes_object]
  simp only [List.map_cons, List.map_nil, textBytes_natural, hrows, htitle, hlifecycle,
    CursorSnapshot.textBytes_toJson, ModesSnapshot.textBytes_toJson,
    AttentionState.textBytes_toJson]
  show 8 + (10 + (6 + 2 + _) + (10 + (8 + 2 + _) + (10 + (7 + 2 + _) + (10 + (19 + 2 + _) +
    (10 + (17 + 2 + _) + (10 + (17 + 2 + _) + (10 + (7 + 2 + _) + (10 + (12 + 2 + _) +
    (10 + (11 + 2 + _) + (10 + (14 + 2 + _) + (10 + (11 + 2 + _) + 0))))))))))) =
      269 + _ + _ + _ + _ + _ + _ + _ + _ + _ + _ + _
  omega

theorem PaneHistorySnapshot.textBytes_toJson (h : PaneHistorySnapshot) :
    textBytes (pretty floatText 4 h.toJson) = h.bytes := by
  have hid : textBytes (pretty floatText (4 + 2) h.pane.toJson) = 34 := stringBytes_text h.pane
  rw [toJson, textBytes_object]
  simp only [List.map_cons, List.map_nil, hid, PaneScreenSnapshot.textBytes_toJson]
  show 6 + (8 + (6 + 2 + 34) + (8 + (8 + 2 + _) + 0)) = 74 + _
  omega

/-! ## The catalog -/

def SplitAxis.bytes : SplitAxis → Nat
  | .horizontal => 12
  | .vertical => 10

def SessionLayoutNode.bytes (indent : Nat) : SessionLayoutNode → Nat
  | .pane _ => 2 * indent + 48
  | .split axis ratio first second =>
    7 * indent + 92 + axis.bytes + digitCount ratio.toNat + first.bytes (indent + 4) +
      second.bytes (indent + 4)

def PathBuf.jsonBytes (p : PathBuf) : Nat :=
  (String.fromUTF8? ⟨p.bytes.toArray⟩).elim 4 stringBytes

def SessionPane.bytes (p : SessionPane) : Nat :=
  251 + p.workingDirectory.jsonBytes + digitCount p.requestedRows.toNat +
    digitCount p.requestedColumns.toNat + digitCount p.generation.toNat + p.lifecycle.bytes 16

/-- A map under identifiers. -/
def mapBytes {κ α : Type} [LinearOrder κ] (indent : Nat) (bytes : α → Nat)
    (m : SortedMap κ α) : Nat :=
  linesBytes indent (m.values.map fun v => 36 + bytes v)

def SessionWindow.bytes (w : SessionWindow) : Nat :=
  223 + stringBytes w.name + digitCount w.revision.toNat + w.root.bytes 12 +
    mapBytes 12 SessionPane.bytes w.panes

def Session.bytes (s : Session) : Nat :=
  180 + stringBytes s.name + digitCount s.revision.toNat +
    linesBytes 8 (s.windows.map SessionWindow.bytes)

def SessionCatalog.bytes (c : SessionCatalog) : Nat :=
  64 + digitCount c.revision.toNat + mapBytes 4 Session.bytes c.sessions +
    c.activeSession.elim 4 fun _ => 34

/-- The bytes of a record without undeclared members. -/
def PersistedCatalog.bytes (r : PersistedCatalog) : Nat :=
  56 + digitCount r.schemaVersion.toNat + r.catalog.bytes +
    linesBytes 2 (r.histories.map PaneHistorySnapshot.bytes)

theorem SplitAxis.textBytes_toJson (axis : SplitAxis) :
    textBytes (pretty floatText indent axis.toJson) = axis.bytes := by
  cases axis <;> rfl

theorem SessionLayoutNode.textBytes_toJson (root : SessionLayoutNode) :
    textBytes (pretty floatText indent root.toJson) = root.bytes indent := by
  induction root generalizing indent with
  | pane p =>
    have hname : stringBytes "Pane" = 6 := rfl
    have hid : textBytes (pretty floatText (indent + 2) p.toJson) = 34 := stringBytes_text p
    rw [toJson, textBytes_object, List.map_singleton, hid]
    simp only [linesBytes_cons, List.map_nil, List.sum_nil, hname, bytes]
    omega
  | split axis ratio first second ihFirst ihSecond =>
    have hsplit : stringBytes "Split" = 7 := rfl
    have haxis : stringBytes "axis" = 6 := rfl
    have hratio : stringBytes "ratio_basis_points" = 20 := rfl
    have hfirst : stringBytes "first" = 7 := rfl
    have hsecond : stringBytes "second" = 8 := rfl
    have hmembers : textBytes (pretty floatText (indent + 2) (.object
        [("axis", axis.toJson), ("ratio_basis_points", .natural ratio.toNat),
          ("first", first.toJson), ("second", second.toJson)])) =
        5 * indent + 77 + axis.bytes + digitCount ratio.toNat + first.bytes (indent + 4) +
          second.bytes (indent + 4) := by
      rw [textBytes_object]
      simp only [List.map_cons, List.map_nil, textBytes_natural, SplitAxis.textBytes_toJson,
        ihFirst, ihSecond, linesBytes_cons, List.sum_cons, List.sum_nil, haxis, hratio, hfirst,
        hsecond, Nat.add_assoc indent 2 2, Nat.reduceAdd]
      omega
    rw [toJson, textBytes_object, List.map_singleton, hmembers, linesBytes_cons, List.map_nil,
      List.sum_nil, hsplit, bytes]
    omega

theorem SessionPane.textBytes_toJson (p : SessionPane) :
    textBytes (pretty floatText 14 p.toJson) = p.bytes := by
  have hid : textBytes (pretty floatText (14 + 2) p.id.toJson) = 34 := stringBytes_text p.id
  have hdirectory : textBytes (pretty floatText (14 + 2) (p.workingDirectory.toJson.getD .null)) =
      p.workingDirectory.jsonBytes := by
    unfold PathBuf.toJson PathBuf.jsonBytes
    cases String.fromUTF8? ⟨p.workingDirectory.bytes.toArray⟩ with
    | none => rfl
    | some text => rfl
  have hlifecycle : textBytes (pretty floatText (14 + 2) p.lifecycle.toJson) =
      p.lifecycle.bytes 16 := PaneLifecycle.textBytes_toJson p.lifecycle
  rw [toJson, textBytes_object]
  simp only [List.map_cons, List.map_nil, textBytes_natural, hid, hdirectory, hlifecycle]
  show 16 + (18 + (4 + 2 + 34) + (18 + (19 + 2 + _) + (18 + (16 + 2 + _) + (18 + (19 + 2 + _) +
    (18 + (12 + 2 + _) + (18 + (11 + 2 + _) + 0)))))) = 251 + _ + _ + _ + _ + _
  omega

theorem textBytes_ofMap {kind : IdKind} {α : Type} {encode : α → Json} {bytes : α → Nat}
    (h : ∀ v, textBytes (pretty floatText (indent + 2) (encode v)) = bytes v)
    (m : SortedMap (OpaqueId kind) α) :
    textBytes (pretty floatText indent (ofMap encode m)) = mapBytes indent bytes m := by
  unfold ofMap mapBytes SortedMap.values
  rw [textBytes_object, List.map_map, List.map_map]
  refine congrArg (linesBytes indent) (List.map_congr_left fun e _ => ?_)
  show stringBytes e.1.text + 2 + textBytes (pretty floatText (indent + 2) (encode e.2)) = _
  rw [stringBytes_text, h]
  rfl

theorem SessionWindow.textBytes_toJson (w : SessionWindow) :
    textBytes (pretty floatText 10 w.toJson) = w.bytes := by
  have hid : textBytes (pretty floatText (10 + 2) w.id.toJson) = 34 := stringBytes_text w.id
  have hfocused : textBytes (pretty floatText (10 + 2) w.focusedPane.toJson) = 34 :=
    stringBytes_text w.focusedPane
  have hroot : textBytes (pretty floatText (10 + 2) w.root.toJson) = w.root.bytes 12 :=
    SessionLayoutNode.textBytes_toJson w.root
  have hpanes : textBytes (pretty floatText (10 + 2) (ofMap SessionPane.toJson w.panes)) =
      mapBytes 12 SessionPane.bytes w.panes := textBytes_ofMap (fun p => p.textBytes_toJson) w.panes
  rw [toJson, textBytes_object]
  simp only [List.map_cons, List.map_nil, textBytes_natural, textBytes_string, hid, hfocused, hroot,
    hpanes]
  show 12 + (14 + (4 + 2 + 34) + (14 + (6 + 2 + _) + (14 + (10 + 2 + _) + (14 + (6 + 2 + _) +
    (14 + (14 + 2 + 34) + (14 + (7 + 2 + _) + 0)))))) = 223 + _ + _ + _ + _
  omega

theorem Session.textBytes_toJson (s : Session) :
    textBytes (pretty floatText 6 s.toJson) = s.bytes := by
  have hid : textBytes (pretty floatText (6 + 2) s.id.toJson) = 34 := stringBytes_text s.id
  have hactive : textBytes (pretty floatText (6 + 2) s.activeWindow.toJson) = 34 :=
    stringBytes_text s.activeWindow
  have hwindows : textBytes (pretty floatText (6 + 2) (.array (s.windows.map (·.toJson)))) =
      linesBytes 8 (s.windows.map SessionWindow.bytes) := by
    rw [textBytes_array, List.map_map]
    exact congrArg (linesBytes 8) (List.map_congr_left fun w _ => w.textBytes_toJson)
  rw [toJson, textBytes_object]
  simp only [List.map_cons, List.map_nil, textBytes_natural, textBytes_string, hid, hactive,
    hwindows]
  show 8 + (10 + (4 + 2 + 34) + (10 + (6 + 2 + _) + (10 + (10 + 2 + _) + (10 + (9 + 2 + _) +
    (10 + (15 + 2 + 34) + 0))))) = 180 + _ + _ + _
  omega

theorem SessionCatalog.textBytes_toJson (c : SessionCatalog) :
    textBytes (pretty floatText (0 + 2) c.toJson) = c.bytes := by
  have hsessions : textBytes (pretty floatText (0 + 2 + 2) (ofMap Session.toJson c.sessions)) =
      mapBytes 4 Session.bytes c.sessions :=
    textBytes_ofMap (fun s => s.textBytes_toJson) c.sessions
  have hactive : textBytes (pretty floatText (0 + 2 + 2)
      (c.activeSession.elim .null (·.toJson))) = c.activeSession.elim 4 fun _ => 34 := by
    cases c.activeSession with
    | none => rfl
    | some id => exact stringBytes_text id
  rw [toJson, textBytes_object]
  simp only [List.map_cons, List.map_nil, textBytes_natural, hsessions, hactive]
  show 4 + (6 + (10 + 2 + _) + (6 + (10 + 2 + _) + (6 + (16 + 2 + _) + 0))) = 64 + _ + _ + _
  omega

/-! ## Records -/

theorem PersistedRecord.textBytes_toJson (r : PersistedCatalog) :
    textBytes (pretty floatText 0 (PersistedRecord.toJson ⟨r, .empty⟩)) = r.bytes := by
  have hhistories : textBytes (pretty floatText (0 + 2)
      (.array (r.histories.map (·.toJson)))) =
        linesBytes 2 (r.histories.map PaneHistorySnapshot.bytes) := by
    rw [textBytes_array, List.map_map]
    exact congrArg (linesBytes 2) (List.map_congr_left fun h _ => h.textBytes_toJson)
  have hempty : (SortedMap.empty : SortedMap String Json).entries = [] := rfl
  rw [toJson, hempty, List.append_nil, textBytes_object]
  simp only [List.map_cons, List.map_nil, textBytes_natural, SessionCatalog.textBytes_toJson,
    hhistories]
  show 2 + (4 + (16 + 2 + _) + (4 + (9 + 2 + _) + (4 + (11 + 2 + _) + 0))) = 56 + _ + _ + _
  omega

namespace PersistedCatalog

/-- The cells of the screens of a record. -/
def cells (r : PersistedCatalog) : Nat :=
  (r.histories.map fun h => (h.screen.rows.map List.length).sum).sum

end PersistedCatalog

namespace SessionStore

variable {τ : Type} {J : SizedText τ} {record : PersistedCatalog}

end SessionStore
end Strukt
