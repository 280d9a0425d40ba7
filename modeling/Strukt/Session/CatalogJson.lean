import Strukt.Session.Encoding
import Strukt.Session.Store

/-!
# Persisted catalogs as JSON

What the derived serializers make of a persisted catalog, and what the deserializers make of that. A
map is an object under the text of its keys, and an enum is externally tagged.

* **Paths**: a directory that is not UTF-8 cannot be written. `toJson` is what is written of a record
  without one.
* **The round trip** (`fromJson_toJson`), one lemma for each type.
* **The shape** (`plain_toJson`): a valid record has few levels, and no floats.
-/

namespace Strukt

open Json

/-! ## Cells -/

namespace Color

def toJson : Color → Json
  | .default => .string "Default"
  | .indexed index => .object [("Indexed", .natural index.toNat)]
  | .rgb red green blue =>
    .object [("Rgb", .array [.natural red.toNat, .natural green.toNat, .natural blue.toNat])]

def fromJson (v : Json) : Option Color :=
  match v.variant with
  | some ("Default", none) | some ("Default", some .null) => some .default
  | some ("Indexed", some v) => v.asU8.map .indexed
  | some ("Rgb", some (.array [red, green, blue])) => do
    return .rgb (← red.asU8) (← green.asU8) (← blue.asU8)
  | _ => none

@[simp] theorem fromJson_toJson (c : Color) : fromJson c.toJson.toValue = some c := by
  cases c with
  | default => rfl
  | indexed index =>
    show (natural index.toNat).asU8.map Color.indexed = _
    rw [asU8_natural, Option.map_some]
  | rgb red green blue =>
    show ((natural red.toNat).asU8.bind fun red => (natural green.toNat).asU8.bind fun green =>
      (natural blue.toNat).asU8.bind fun blue => some (Color.rgb red green blue)) = _
    rw [asU8_natural, asU8_natural, asU8_natural]
    rfl

theorem plain_toJson (c : Color) : Plain 2 c.toJson := by
  cases c with
  | default => exact .string
  | indexed index =>
    refine .object fun m hm => ?_
    rw [List.mem_singleton.mp hm]
    exact .natural
  | rgb red green blue =>
    refine .object fun m hm => ?_
    rw [List.mem_singleton.mp hm]
    refine .array fun v hv => ?_
    simp only [List.mem_cons, List.not_mem_nil, or_false] at hv
    rcases hv with rfl | rfl | rfl
    · exact .natural
    · exact .natural
    · exact .natural

end Color

namespace CellWidth

def toJson : CellWidth → Json
  | .single => .string "Single"
  | .wide => .string "Wide"
  | .continuation => .string "Continuation"

def fromJson (v : Json) : Option CellWidth :=
  match v.asUnit with
  | some "Single" => some .single
  | some "Wide" => some .wide
  | some "Continuation" => some .continuation
  | _ => none

@[simp] theorem fromJson_toJson (w : CellWidth) : fromJson w.toJson.toValue = some w := by
  cases w <;> rfl

theorem plain_toJson (w : CellWidth) : Plain 0 w.toJson := by
  cases w <;> exact .string

end CellWidth

namespace CellAttributes

def fieldNames : List String :=
  ["bold", "faint", "italic", "underline", "inverse", "strikethrough"]

def toJson (a : CellAttributes) : Json :=
  .object
    [("bold", .bool a.bold), ("faint", .bool a.faint), ("italic", .bool a.italic),
      ("underline", .bool a.underline), ("inverse", .bool a.inverse),
      ("strikethrough", .bool a.strikethrough)]

def fromJson (v : Json) : Option CellAttributes := do
  let field ← v.fields fieldNames
  let bold ← (field "bold").bind asBool
  let faint ← (field "faint").bind asBool
  let italic ← (field "italic").bind asBool
  let underline ← (field "underline").bind asBool
  let inverse ← (field "inverse").bind asBool
  let strikethrough ← (field "strikethrough").bind asBool
  return ⟨bold, faint, italic, underline, inverse, strikethrough⟩

@[simp] theorem fromJson_toJson (a : CellAttributes) : fromJson a.toJson.toValue = some a := by
  unfold fromJson toJson
  rw [fields_object fieldNames rfl (by decide)]
  rfl

theorem plain_toJson (a : CellAttributes) : Plain 1 a.toJson := by
  refine .object fun m hm => ?_
  simp only [List.mem_cons, List.not_mem_nil, or_false] at hm
  rcases hm with rfl | rfl | rfl | rfl | rfl | rfl <;> exact .bool

end CellAttributes

namespace Cell

def fieldNames : List String :=
  ["text", "width", "foreground", "background", "attributes", "hyperlink"]

def toJson (c : Cell) : Json :=
  .object
    [("text", .string c.text), ("width", c.width.toJson), ("foreground", c.foreground.toJson),
      ("background", c.background.toJson), ("attributes", c.attributes.toJson),
      ("hyperlink", c.hyperlink.elim .null fun id => .natural id.value.toNat)]

def fromJson (v : Json) : Option Cell := do
  let field ← v.fields fieldNames
  let text ← (field "text").bind asString
  let width ← (field "width").bind CellWidth.fromJson
  let foreground ← (field "foreground").bind Color.fromJson
  let background ← (field "background").bind Color.fromJson
  let attributes ← (field "attributes").bind CellAttributes.fromJson
  let hyperlink ← optionalField (fun v => v.asU32.map .mk) (field "hyperlink")
  return ⟨text, width, foreground, background, attributes, hyperlink⟩

@[simp] theorem fromJson_toJson (c : Cell) : fromJson c.toJson.toValue = some c := by
  have hlink : optionalField (fun v => v.asU32.map HyperlinkId.mk)
      (some (c.hyperlink.elim Json.null fun id => .natural id.value.toNat).toValue) =
        some c.hyperlink := by
    cases c.hyperlink with
    | none => rfl
    | some id =>
      show ((natural id.value.toNat).asU32.map HyperlinkId.mk).map some = _
      rw [asU32_natural]
      rfl
  unfold fromJson toJson
  rw [fields_object fieldNames rfl (by decide)]
  simp only [lookup_cons, String.reduceEq, if_true, if_false, Option.map_some,
    Option.bind_some, some_bind, Option.pure_def, toValue, asString, hlink,
    CellWidth.fromJson_toJson, Color.fromJson_toJson, CellAttributes.fromJson_toJson]

theorem plain_toJson (c : Cell) : Plain 3 c.toJson := by
  refine .object fun m hm => ?_
  simp only [List.mem_cons, List.not_mem_nil, or_false] at hm
  rcases hm with rfl | rfl | rfl | rfl | rfl | rfl
  · exact .string
  · exact c.width.plain_toJson.mono (by decide)
  · exact c.foreground.plain_toJson
  · exact c.background.plain_toJson
  · exact c.attributes.plain_toJson.mono (by decide)
  · cases c.hyperlink with
    | none => exact .null
    | some id => exact .natural

end Cell

/-! ## Screens -/

namespace CursorSnapshot

def fieldNames : List String := ["row", "column", "visible"]

def toJson (c : CursorSnapshot) : Json :=
  .object [("row", .natural c.row), ("column", .natural c.column), ("visible", .bool c.visible)]

def fromJson (v : Json) : Option CursorSnapshot := do
  let field ← v.fields fieldNames
  let row ← (field "row").bind asNatural
  let column ← (field "column").bind asNatural
  let visible ← (field "visible").bind asBool
  return ⟨row, column, visible⟩

@[simp] theorem fromJson_toJson (c : CursorSnapshot) : fromJson c.toJson.toValue = some c := by
  unfold fromJson toJson
  rw [fields_object fieldNames rfl (by decide)]
  rfl

theorem plain_toJson (c : CursorSnapshot) : Plain 1 c.toJson := by
  refine .object fun m hm => ?_
  simp only [List.mem_cons, List.not_mem_nil, or_false] at hm
  rcases hm with rfl | rfl | rfl
  · exact .natural
  · exact .natural
  · exact .bool

end CursorSnapshot

namespace ModesSnapshot

def fieldNames : List String :=
  ["application_cursor_keys", "bracketed_paste", "focus_reporting", "mouse_reporting"]

def toJson (m : ModesSnapshot) : Json :=
  .object
    [("application_cursor_keys", .bool m.applicationCursorKeys),
      ("bracketed_paste", .bool m.bracketedPaste), ("focus_reporting", .bool m.focusReporting),
      ("mouse_reporting", .bool m.mouseReporting)]

def fromJson (v : Json) : Option ModesSnapshot := do
  let field ← v.fields fieldNames
  let applicationCursorKeys ← (field "application_cursor_keys").bind asBool
  let bracketedPaste ← (field "bracketed_paste").bind asBool
  let focusReporting ← (field "focus_reporting").bind asBool
  let mouseReporting ← (field "mouse_reporting").bind asBool
  return ⟨applicationCursorKeys, bracketedPaste, focusReporting, mouseReporting⟩

@[simp] theorem fromJson_toJson (m : ModesSnapshot) : fromJson m.toJson.toValue = some m := by
  unfold fromJson toJson
  rw [fields_object fieldNames rfl (by decide)]
  rfl

theorem plain_toJson (m : ModesSnapshot) : Plain 1 m.toJson := by
  refine .object fun e he => ?_
  simp only [List.mem_cons, List.not_mem_nil, or_false] at he
  rcases he with rfl | rfl | rfl | rfl <;> exact .bool

end ModesSnapshot

namespace AttentionState

def toJson : AttentionState → Json
  | .none => .string "None"
  | .unread => .string "Unread"
  | .attention => .string "Attention"

def fromJson (v : Json) : Option AttentionState :=
  match v.asUnit with
  | some "None" => some .none
  | some "Unread" => some .unread
  | some "Attention" => some .attention
  | _ => Option.none

@[simp] theorem fromJson_toJson (a : AttentionState) : fromJson a.toJson.toValue = some a := by
  cases a <;> rfl

theorem plain_toJson (a : AttentionState) : Plain 0 a.toJson := by
  cases a <;> exact .string

end AttentionState

namespace PaneLifecycle

def toJson : PaneLifecycle → Json
  | .stopped => .string "Stopped"
  | .starting => .string "Starting"
  | .running => .string "Running"
  | .exited code =>
    .object [("Exited", .object [("code", code.elim .null fun n => ofInteger n.toInt)])]
  | .failed message => .object [("Failed", .object [("message", .string message)])]
  | .backpressured => .string "Backpressured"

def fromJson (v : Json) : Option PaneLifecycle :=
  match v.asUnit, v.variant with
  | some "Stopped", _ => some .stopped
  | some "Starting", _ => some .starting
  | some "Running", _ => some .running
  | some "Backpressured", _ => some .backpressured
  | _, some ("Exited", some v) => do
    let field ← v.fields ["code"]
    return .exited (← optionalField asI32 (field "code"))
  | _, some ("Failed", some v) => do
    let field ← v.fields ["message"]
    return .failed (← (field "message").bind asString)
  | _, _ => none

@[simp] theorem fromJson_toJson (l : PaneLifecycle) : fromJson l.toJson.toValue = some l := by
  cases l with
  | stopped => rfl
  | starting => rfl
  | running => rfl
  | exited code =>
    cases code with
    | none => rfl
    | some n =>
      show ((asOption asI32 (ofInteger n.toInt).toValue).bind fun code => some (exited code)) = _
      have hnumber : asOption asI32 (ofInteger n.toInt) = (ofInteger n.toInt).asI32.map some := by
        unfold ofInteger
        split <;> rfl
      rw [toValue_ofInteger, hnumber, asI32_ofInteger]
      rfl
  | failed message => rfl
  | backpressured => rfl

theorem plain_toJson (l : PaneLifecycle) : Plain 2 l.toJson := by
  cases l with
  | stopped => exact .string
  | starting => exact .string
  | running => exact .string
  | exited code =>
    refine .object fun m hm => ?_
    rw [List.mem_singleton.mp hm]
    refine .object fun m hm => ?_
    rw [List.mem_singleton.mp hm]
    cases code with
    | none => exact .null
    | some n => exact .ofInteger n.toInt
  | failed message =>
    refine .object fun m hm => ?_
    rw [List.mem_singleton.mp hm]
    refine .object fun m hm => ?_
    rw [List.mem_singleton.mp hm]
    exact .string
  | backpressured => exact .string

end PaneLifecycle

namespace PaneScreenSnapshot

def fieldNames : List String :=
  ["rows", "cursor", "modes", "terminal_revision", "output_revision", "viewport_offset", "title",
    "generation", "lifecycle", "unread_count", "attention"]

def toJson (s : PaneScreenSnapshot) : Json :=
  .object
    [("rows", .array (s.rows.map fun row => .array (row.map (·.toJson)))),
      ("cursor", s.cursor.toJson), ("modes", s.modes.toJson),
      ("terminal_revision", .natural s.terminalRevision.toNat),
      ("output_revision", .natural s.outputRevision.toNat),
      ("viewport_offset", .natural s.viewportOffset), ("title", s.title.elim .null .string),
      ("generation", .natural s.generation.toNat), ("lifecycle", s.lifecycle.toJson),
      ("unread_count", .natural s.unreadCount.toNat), ("attention", s.attention.toJson)]

def rowFromJson (v : Json) : Option Row := v.asArray.bind (·.mapM Cell.fromJson)

def fromJson (v : Json) : Option PaneScreenSnapshot := do
  let field ← v.fields fieldNames
  let rows ← (field "rows").bind asArray
  let rows ← rows.mapM rowFromJson
  let cursor ← (field "cursor").bind CursorSnapshot.fromJson
  let modes ← (field "modes").bind ModesSnapshot.fromJson
  let terminalRevision ← (field "terminal_revision").bind asU64
  let outputRevision ← (field "output_revision").bind asU64
  let viewportOffset ← (field "viewport_offset").bind asNatural
  let title ← optionalField asString (field "title")
  let generation ← (field "generation").bind asU64
  let lifecycle ← (field "lifecycle").bind PaneLifecycle.fromJson
  let unreadCount ← (field "unread_count").bind asU64
  let attention ← (field "attention").bind AttentionState.fromJson
  return ⟨rows, cursor, modes, terminalRevision, outputRevision, viewportOffset, title, generation,
    lifecycle, unreadCount, attention⟩

@[simp] theorem fromJson_toJson (s : PaneScreenSnapshot) :
    fromJson s.toJson.toValue = some s := by
  have hrow (row : Row) : rowFromJson (Json.array (row.map (·.toJson))).toValue = some row := by
    rw [toValue, valueItems_eq]
    exact mapM_toValue fun c _ => c.fromJson_toJson
  have hrows : ((s.rows.map fun row => Json.array (row.map (·.toJson))).map toValue).mapM
      rowFromJson = some s.rows := mapM_toValue fun row _ => hrow row
  have htitle : optionalField asString (some (s.title.elim Json.null .string).toValue) =
      some s.title := by
    cases s.title <;> rfl
  unfold fromJson toJson
  rw [fields_object fieldNames rfl (by decide)]
  simp only [lookup_cons, String.reduceEq, if_true, if_false, Option.map_some,
    Option.bind_some, some_bind, Option.pure_def, toValue, valueItems_eq, asArray,
    asNatural, hrows, htitle, CursorSnapshot.fromJson_toJson, ModesSnapshot.fromJson_toJson,
    asU64_natural, PaneLifecycle.fromJson_toJson, AttentionState.fromJson_toJson]

theorem plain_toJson (s : PaneScreenSnapshot) : Plain 6 s.toJson := by
  refine .object fun m hm => ?_
  simp only [List.mem_cons, List.not_mem_nil, or_false] at hm
  rcases hm with rfl | rfl | rfl | rfl | rfl | rfl | rfl | rfl | rfl | rfl | rfl
  · refine .array fun v hv => ?_
    obtain ⟨row, -, rfl⟩ := List.mem_map.mp hv
    refine .array fun v hv => ?_
    obtain ⟨c, -, rfl⟩ := List.mem_map.mp hv
    exact c.plain_toJson
  · exact s.cursor.plain_toJson.mono (by decide)
  · exact s.modes.plain_toJson.mono (by decide)
  · exact .natural
  · exact .natural
  · exact .natural
  · cases s.title with
    | none => exact .null
    | some title => exact .string
  · exact .natural
  · exact s.lifecycle.plain_toJson.mono (by decide)
  · exact .natural
  · exact s.attention.plain_toJson.mono (by decide)

end PaneScreenSnapshot

namespace PaneHistorySnapshot

def fieldNames : List String := ["pane", "screen"]

def toJson (h : PaneHistorySnapshot) : Json :=
  .object [("pane", h.pane.toJson), ("screen", h.screen.toJson)]

def fromJson (v : Json) : Option PaneHistorySnapshot := do
  let field ← v.fields fieldNames
  let pane ← (field "pane").bind OpaqueId.fromJson
  let screen ← (field "screen").bind PaneScreenSnapshot.fromJson
  return ⟨pane, screen⟩

@[simp] theorem fromJson_toJson (h : PaneHistorySnapshot) : fromJson h.toJson.toValue = some h := by
  unfold fromJson toJson
  rw [fields_object fieldNames rfl (by decide)]
  simp only [lookup_cons, String.reduceEq, if_true, if_false, Option.map_some,
    Option.bind_some, some_bind, Option.pure_def, OpaqueId.fromJson_toJson,
    PaneScreenSnapshot.fromJson_toJson]

theorem plain_toJson (h : PaneHistorySnapshot) : Plain 7 h.toJson := by
  refine .object fun m hm => ?_
  simp only [List.mem_cons, List.not_mem_nil, or_false] at hm
  rcases hm with rfl | rfl
  · exact h.pane.plain_toJson.mono (by decide)
  · exact h.screen.plain_toJson

end PaneHistorySnapshot

/-! ## Layouts -/

namespace SessionLayoutNode

def splitFields : List String := ["axis", "ratio_basis_points", "first", "second"]

def toJson : SessionLayoutNode → Json
  | .pane p => .object [("Pane", p.toJson)]
  | .split axis ratio first second =>
    .object
      [("Split", .object
        [("axis", axis.toJson), ("ratio_basis_points", .natural ratio.toNat),
          ("first", first.toJson), ("second", second.toJson)])]

/-- A layout of at most `fuel` levels. -/
def decode : Nat → Json → Option SessionLayoutNode
  | 0, _ => none
  | fuel + 1, v =>
    match v.variant with
    | some ("Pane", some v) => (OpaqueId.fromJson v).map .pane
    | some ("Split", some v) => do
      let field ← v.fields splitFields
      let axis ← (field "axis").bind SplitAxis.fromJson
      let ratio ← (field "ratio_basis_points").bind asU16
      let first ← (field "first").bind (decode fuel)
      let second ← (field "second").bind (decode fuel)
      return .split axis ratio first second
    | _ => none

/-- A layout has no more levels than its value. -/
def fromJson (v : Json) : Option SessionLayoutNode := decode v.depth v

theorem decode_toJson {root : SessionLayoutNode} {fuel : Nat} (h : root.height ≤ fuel) :
    decode fuel root.toJson.toValue = some root := by
  induction root generalizing fuel with
  | pane p =>
    cases fuel with
    | zero => cases h
    | succ fuel =>
      show (OpaqueId.fromJson p.toJson.toValue).map SessionLayoutNode.pane = _
      rw [OpaqueId.fromJson_toJson, Option.map_some]
  | split axis ratio first second ihFirst ihSecond =>
    cases fuel with
    | zero => cases h
    | succ fuel =>
      rw [height] at h
      have hvariant : (split axis ratio first second).toJson.toValue.variant =
          some ("Split", some (object
            [("axis", axis.toJson), ("ratio_basis_points", .natural ratio.toNat),
              ("first", first.toJson), ("second", second.toJson)]).toValue) := rfl
      have hfields := @fields_object splitFields
        [("axis", axis.toJson), ("ratio_basis_points", .natural ratio.toNat),
          ("first", first.toJson), ("second", second.toJson)] rfl (by decide)
      rw [decode, hvariant]
      simp only [hfields]
      simp only [lookup_cons, String.reduceEq, if_true, if_false, Option.map_some,
        Option.bind_some, some_bind, Option.pure_def, toValue, asU16_natural,
        SplitAxis.fromJson_toJson, ihFirst (show first.height ≤ fuel by omega),
        ihSecond (show second.height ≤ fuel by omega)]

/-- A member of an object is not deeper than what is inside of the object. -/
theorem depth_member_lt {members : List (String × Json)} (h : (members.map (·.1)).Nodup)
    {m : String × Json} (hm : m ∈ members) : m.2.toValue.depth < (object members).toValue.depth := by
  have hnodup : ((valueMembers members).map (·.1)).Nodup := by
    rw [valueMembers_eq, List.map_map]
    exact h
  have hmem : (m.1, m.2.toValue) ∈ (SortedMap.ofList (valueMembers members)).entries := by
    rw [(SortedMap.entries_ofList_perm hnodup).mem_iff, valueMembers_eq]
    exact List.mem_map_of_mem hm
  exact Nat.lt_succ_of_le (depthMembers_le.mp (le_refl _) _ hmem)

theorem depth_variant_lt (name : String) (v : Json) :
    v.toValue.depth < (object [(name, v)]).toValue.depth :=
  have hnames : ([(name, v)].map (·.1)).Nodup := List.nodup_singleton name
  depth_member_lt hnames (List.mem_singleton_self (name, v))

theorem height_le_depth (root : SessionLayoutNode) : root.height ≤ root.toJson.toValue.depth := by
  induction root with
  | pane p => exact Nat.zero_lt_of_lt (depth_variant_lt "Pane" p.toJson)
  | split axis ratio first second ihFirst ihSecond =>
    have hnames : ([("axis", axis.toJson), ("ratio_basis_points", Json.natural ratio.toNat),
        ("first", first.toJson), ("second", second.toJson)].map (·.1)).Nodup :=
      show splitFields.Nodup by decide
    have hfirst := depth_member_lt hnames
      (show ("first", first.toJson) ∈ _ by simp)
    have hsecond := depth_member_lt hnames
      (show ("second", second.toJson) ∈ _ by simp)
    have hsplit := depth_variant_lt "Split" (object
      [("axis", axis.toJson), ("ratio_basis_points", Json.natural ratio.toNat),
        ("first", first.toJson), ("second", second.toJson)])
    rw [height, toJson]
    dsimp only at hfirst hsecond hsplit
    omega

@[simp] theorem fromJson_toJson (root : SessionLayoutNode) :
    fromJson root.toJson.toValue = some root :=
  decode_toJson root.height_le_depth

theorem plain_toJson (root : SessionLayoutNode) : Plain (2 * root.height) root.toJson := by
  induction root with
  | pane p =>
    have hpane : Plain 1 (pane p).toJson := by
      refine .object fun m hm => ?_
      rw [List.mem_singleton.mp hm]
      exact p.plain_toJson
    exact hpane.mono (Nat.le_mul_of_pos_left 1 (by decide))
  | split axis ratio first second ihFirst ihSecond =>
    have hsplit : Plain (2 * max first.height second.height + 1 + 1)
        (split axis ratio first second).toJson := by
      refine .object fun m hm => ?_
      rw [List.mem_singleton.mp hm]
      refine .object fun m hm => ?_
      simp only [List.mem_cons, List.not_mem_nil, or_false] at hm
      rcases hm with rfl | rfl | rfl | rfl
      · exact axis.plain_toJson.mono (Nat.zero_le _)
      · exact .natural
      · exact ihFirst.mono (Nat.mul_le_mul_left 2 (le_max_left _ _))
      · exact ihSecond.mono (Nat.mul_le_mul_left 2 (le_max_right _ _))
    exact hsplit.mono (by rw [height]; omega)

end SessionLayoutNode

/-! ## The catalog -/

namespace SessionPane

def fieldNames : List String :=
  ["id", "working_directory", "requested_rows", "requested_columns", "generation", "lifecycle"]

def toJson (p : SessionPane) : Json :=
  .object
    [("id", p.id.toJson), ("working_directory", p.workingDirectory.toJson.getD .null),
      ("requested_rows", .natural p.requestedRows.toNat),
      ("requested_columns", .natural p.requestedColumns.toNat),
      ("generation", .natural p.generation.toNat), ("lifecycle", p.lifecycle.toJson)]

def fromJson (v : Json) : Option SessionPane := do
  let field ← v.fields fieldNames
  let id ← (field "id").bind OpaqueId.fromJson
  let workingDirectory ← (field "working_directory").bind PathBuf.fromJson
  let requestedRows ← (field "requested_rows").elim (some defaultRows) asU16
  let requestedColumns ← (field "requested_columns").elim (some defaultColumns) asU16
  let generation ← (field "generation").bind asU64
  let lifecycle ← (field "lifecycle").bind PaneLifecycle.fromJson
  return ⟨id, workingDirectory, requestedRows, requestedColumns, generation, lifecycle⟩

/-- The directory can be written. -/
def IsText (p : SessionPane) : Prop := p.workingDirectory.toJson.isSome

instance (p : SessionPane) : Decidable p.IsText := inferInstanceAs (Decidable (_ = true))

theorem fromJson_toJson {p : SessionPane} (h : p.IsText) : fromJson p.toJson.toValue = some p := by
  obtain ⟨directory, hdirectory⟩ := Option.isSome_iff_exists.mp h
  unfold fromJson toJson
  rw [fields_object fieldNames rfl (by decide), hdirectory]
  simp only [lookup_cons, String.reduceEq, if_true, if_false, Option.map_some,
    Option.bind_some, some_bind, Option.pure_def, Option.getD_some, Option.elim_some,
    toValue, asU16_natural, asU64_natural, OpaqueId.fromJson_toJson,
    PathBuf.fromJson_toJson hdirectory, PaneLifecycle.fromJson_toJson]

theorem plain_toJson (p : SessionPane) : Plain 3 p.toJson := by
  refine .object fun m hm => ?_
  simp only [List.mem_cons, List.not_mem_nil, or_false] at hm
  rcases hm with rfl | rfl | rfl | rfl | rfl | rfl
  · exact p.id.plain_toJson.mono (by decide)
  · cases h : p.workingDirectory.toJson with
    | none => exact .null
    | some v => exact (PathBuf.plain_toJson h).mono (by decide)
  · exact .natural
  · exact .natural
  · exact .natural
  · exact p.lifecycle.plain_toJson

end SessionPane

namespace SessionWindow

def fieldNames : List String := ["id", "name", "revision", "root", "focused_pane", "panes"]

def toJson (w : SessionWindow) : Json :=
  .object
    [("id", w.id.toJson), ("name", .string w.name), ("revision", .natural w.revision.toNat),
      ("root", w.root.toJson), ("focused_pane", w.focusedPane.toJson),
      ("panes", ofMap SessionPane.toJson w.panes)]

def fromJson (v : Json) : Option SessionWindow := do
  let field ← v.fields fieldNames
  let id ← (field "id").bind OpaqueId.fromJson
  let name ← (field "name").bind asString
  let revision ← (field "revision").bind asU64
  let root ← (field "root").bind SessionLayoutNode.fromJson
  let focusedPane ← (field "focused_pane").bind OpaqueId.fromJson
  let panes ← (field "panes").bind (asMap .pane SessionPane.fromJson)
  return ⟨id, name, revision, root, focusedPane, panes⟩

def IsText (w : SessionWindow) : Prop := ∀ p ∈ w.panes.values, p.IsText

instance (w : SessionWindow) : Decidable w.IsText :=
  inferInstanceAs (Decidable (∀ p ∈ w.panes.values, p.IsText))

theorem fromJson_toJson {w : SessionWindow} (h : w.IsText) :
    fromJson w.toJson.toValue = some w := by
  have hpanes := asMap_ofMap fun p hp => SessionPane.fromJson_toJson (h p hp)
  unfold fromJson toJson
  rw [fields_object fieldNames rfl (by decide)]
  simp only [lookup_cons, String.reduceEq, if_true, if_false, Option.map_some,
    Option.bind_some, some_bind, Option.pure_def, toValue, asString, asU64_natural,
    OpaqueId.fromJson_toJson, SessionLayoutNode.fromJson_toJson, hpanes]

theorem plain_toJson {w : SessionWindow} (h : w.root.height ≤ maxLayoutDepth) :
    Plain 33 w.toJson := by
  refine .object fun m hm => ?_
  simp only [List.mem_cons, List.not_mem_nil, or_false] at hm
  rcases hm with rfl | rfl | rfl | rfl | rfl | rfl
  · exact w.id.plain_toJson.mono (by decide)
  · exact .string
  · exact .natural
  · exact w.root.plain_toJson.mono (Nat.mul_le_mul_left 2 h)
  · exact w.focusedPane.plain_toJson.mono (by decide)
  · exact (Plain.ofMap fun p _ => p.plain_toJson).mono (by decide)

end SessionWindow

namespace Session

def fieldNames : List String := ["id", "name", "revision", "windows", "active_window"]

def toJson (s : Session) : Json :=
  .object
    [("id", s.id.toJson), ("name", .string s.name), ("revision", .natural s.revision.toNat),
      ("windows", .array (s.windows.map (·.toJson))), ("active_window", s.activeWindow.toJson)]

def fromJson (v : Json) : Option Session := do
  let field ← v.fields fieldNames
  let id ← (field "id").bind OpaqueId.fromJson
  let name ← (field "name").bind asString
  let revision ← (field "revision").bind asU64
  let windows ← (field "windows").bind asArray
  let windows ← windows.mapM SessionWindow.fromJson
  let activeWindow ← (field "active_window").bind OpaqueId.fromJson
  return ⟨id, name, revision, windows, activeWindow⟩

def IsText (s : Session) : Prop := ∀ w ∈ s.windows, w.IsText

instance (s : Session) : Decidable s.IsText :=
  inferInstanceAs (Decidable (∀ w ∈ s.windows, w.IsText))

theorem fromJson_toJson {s : Session} (h : s.IsText) : fromJson s.toJson.toValue = some s := by
  have hwindows := mapM_toValue fun w hw => SessionWindow.fromJson_toJson (h w hw)
  unfold fromJson toJson
  rw [fields_object fieldNames rfl (by decide)]
  simp only [lookup_cons, String.reduceEq, if_true, if_false, Option.map_some,
    Option.bind_some, some_bind, Option.pure_def, toValue, valueItems_eq, asString,
    asArray, asU64_natural, OpaqueId.fromJson_toJson, hwindows]

theorem plain_toJson {s : Session} (h : ∀ w ∈ s.windows, w.root.height ≤ maxLayoutDepth) :
    Plain 35 s.toJson := by
  refine .object fun m hm => ?_
  simp only [List.mem_cons, List.not_mem_nil, or_false] at hm
  rcases hm with rfl | rfl | rfl | rfl | rfl
  · exact s.id.plain_toJson.mono (by decide)
  · exact .string
  · exact .natural
  · refine .array fun v hv => ?_
    obtain ⟨w, hw, rfl⟩ := List.mem_map.mp hv
    exact SessionWindow.plain_toJson (h w hw)
  · exact s.activeWindow.plain_toJson.mono (by decide)

end Session

namespace SessionCatalog

def fieldNames : List String := ["revision", "sessions", "active_session"]

def toJson (c : SessionCatalog) : Json :=
  .object
    [("revision", .natural c.revision.toNat), ("sessions", ofMap Session.toJson c.sessions),
      ("active_session", c.activeSession.elim .null (·.toJson))]

def fromJson (v : Json) : Option SessionCatalog := do
  let field ← v.fields fieldNames
  let revision ← (field "revision").bind asU64
  let sessions ← (field "sessions").bind (asMap .session Session.fromJson)
  let activeSession ← optionalField OpaqueId.fromJson (field "active_session")
  return ⟨revision, sessions, activeSession⟩

def IsText (c : SessionCatalog) : Prop := ∀ s ∈ c.sessions.values, s.IsText

instance (c : SessionCatalog) : Decidable c.IsText :=
  inferInstanceAs (Decidable (∀ s ∈ c.sessions.values, s.IsText))

theorem fromJson_toJson {c : SessionCatalog} (h : c.IsText) :
    fromJson c.toJson.toValue = some c := by
  have hsessions := asMap_ofMap fun s hs => Session.fromJson_toJson (h s hs)
  have hactive : optionalField OpaqueId.fromJson
      (some (c.activeSession.elim Json.null (·.toJson)).toValue) = some c.activeSession := by
    cases c.activeSession with
    | none => rfl
    | some id =>
      show (OpaqueId.fromJson id.toJson.toValue).map some = _
      rw [OpaqueId.fromJson_toJson, Option.map_some]
  unfold fromJson toJson
  rw [fields_object fieldNames rfl (by decide)]
  simp only [lookup_cons, String.reduceEq, if_true, if_false, Option.map_some,
    Option.bind_some, some_bind, Option.pure_def, toValue, asU64_natural, hsessions,
    hactive]

theorem plain_toJson {c : SessionCatalog} (h : c.Valid) : Plain 37 c.toJson := by
  refine .object fun m hm => ?_
  simp only [List.mem_cons, List.not_mem_nil, or_false] at hm
  rcases hm with rfl | rfl | rfl
  · exact .natural
  · refine Plain.ofMap fun s hs => Session.plain_toJson fun w hw => ?_
    exact ((h.sessions s hs).windows w hw).layout.height
  · cases c.activeSession with
    | none => exact .null
    | some id => exact id.plain_toJson.mono (by decide)

end SessionCatalog

/-! ## Records -/

/-- A persisted catalog with the members that are not declared. -/
structure PersistedRecord extends PersistedCatalog where
  extra : SortedMap String Json

namespace PersistedRecord

def fieldNames : List String := ["schema_version", "catalog", "histories"]

def toJson (r : PersistedRecord) : Json :=
  .object
    ([("schema_version", .natural r.schemaVersion.toNat), ("catalog", r.catalog.toJson),
      ("histories", .array (r.histories.map (·.toJson)))] ++ r.extra.entries)

def fromJson (v : Json) : Option PersistedRecord := do
  let (field, rest) ← v.fieldsWithRest fieldNames
  let schemaVersion ← (field "schema_version").bind asU16
  let catalog ← (field "catalog").bind SessionCatalog.fromJson
  let histories ← (field "histories").bind asArray
  let histories ← histories.mapM PaneHistorySnapshot.fromJson
  return ⟨⟨schemaVersion, catalog, histories⟩, .ofList rest⟩

/-- The members that are not declared come back from a text as they are. -/
structure Kept {τ : Type} (J : JsonText τ) (extra : SortedMap String Json) : Prop where
  names : ∀ name ∈ extra.keys, name ∉ fieldNames
  depth : ∀ v ∈ extra.values, v.depth + 1 ≤ J.limit
  floats : ∀ v ∈ extra.values, v.mapFloats J.rereadFloat = v
  sorted : ∀ v ∈ extra.values, v.toValue = v

variable {τ : Type} {J : JsonText τ} {r : PersistedRecord}

theorem kept_empty : Kept J .empty where
  names _ h := absurd h List.not_mem_nil
  depth _ h := absurd h List.not_mem_nil
  floats _ h := absurd h List.not_mem_nil
  sorted _ h := absurd h List.not_mem_nil

theorem fromJson_toJson (hk : Kept J r.extra) (ht : r.catalog.IsText) :
    fromJson r.toJson.toValue = some r := by
  obtain ⟨⟨schemaVersion, catalog, histories⟩, extra⟩ := r
  obtain ⟨rest, hfields, hrest⟩ := @fieldsWithRest_toValue fieldNames
    [("schema_version", Json.natural schemaVersion.toNat), ("catalog", catalog.toJson),
      ("histories", .array (histories.map (·.toJson)))] extra rfl (by decide) hk.names
  have hextra : extra.mapValues toValue = extra := by
    refine SortedMap.ext_get? fun name => ?_
    rw [SortedMap.get?_mapValues]
    cases hget : extra.get? name with
    | none => rfl
    | some v => rw [Option.map_some, hk.sorted v (SortedMap.mem_values_of_get? hget)]
  have hhistories := mapM_toValue fun (h : PaneHistorySnapshot) (_ : h ∈ histories) =>
    h.fromJson_toJson
  unfold fromJson toJson
  rw [hfields]
  simp only [some_bind, List.cons_append, List.nil_append]
  simp only [lookup_cons, String.reduceEq, if_true, if_false, Option.map_some, Option.bind_some]
  simp only [toValue, valueItems_eq, asArray, asU16_natural, SessionCatalog.fromJson_toJson ht, hrest,
    hextra]
  simp only [some_bind, hhistories, Option.pure_def]

/-- The text of a valid record is read back as the value that was written. -/
theorem fromSlice_toVec (hr : r.catalog.Valid) (hk : Kept J r.extra) (hlimit : 40 ≤ J.limit) :
    J.fromSlice (J.toVec r.toJson) = some r.toJson := by
  have hmember : ∀ m ∈ [("schema_version", Json.natural r.schemaVersion.toNat),
      ("catalog", r.catalog.toJson), ("histories", .array (r.histories.map (·.toJson)))],
      Plain 37 m.2 := by
    intro m hm
    simp only [List.mem_cons, List.not_mem_nil, or_false] at hm
    rcases hm with rfl | rfl | rfl
    · exact .natural
    · exact SessionCatalog.plain_toJson hr
    · have hhistories : Plain 8 (.array (r.histories.map (·.toJson))) := by
        refine .array fun v hv => ?_
        obtain ⟨h, -, rfl⟩ := List.mem_map.mp hv
        exact h.plain_toJson
      exact hhistories.mono (by decide)
  have hextra : ∀ m ∈ r.extra.entries, m.2 ∈ r.extra.values := fun m hm =>
    List.mem_map_of_mem hm
  rw [J.fromSlice_toVec, if_pos]
  · refine congrArg some ?_
    rw [toJson, mapFloats, mapMembers_eq]
    refine congrArg Json.object ((List.map_congr_left fun m hm => ?_).trans (List.map_id' _))
    rcases List.mem_append.mp hm with hm | hm
    · rw [(hmember m hm).floats]
    · rw [hk.floats m.2 (hextra m hm)]
  · obtain ⟨n, hn⟩ := Nat.exists_eq_add_of_le' (show 1 ≤ J.limit by omega)
    rw [hn]
    refine Nat.succ_le_succ (depthMembers_le.mpr fun m hm => ?_)
    rcases List.mem_append.mp hm with hm | hm
    · have hdepth := (hmember m hm).depth
      omega
    · have hdepth := hk.depth m.2 (hextra m hm)
      omega

end PersistedRecord
end Strukt
