import Strukt.Session.Encoding
import Strukt.Terminal.Workspace

/-!
# Contributions to a workspace's state

A `WorkspaceState` keeps what each subsystem contributes as a JSON value under the subsystem's name.
The store of a subsystem encodes its snapshot, and decodes and validates what it finds: the terminal
store the tabs and their layouts, the session store the selection.

* **Values**: what `to_value` makes of a struct has its members in the order of their names. An
  identifier or a counter is a natural number, and a path is text: one that is not UTF-8 is not
  encoded.
* **Errors**: a decoder says only whether it fails, `malformed`.
-/

namespace Strukt

/-! ## Encodings -/

def TerminalPaneId.toJson (id : TerminalPaneId) : Json := .natural id.value

def TerminalPaneId.fromJson (v : Json) : Option TerminalPaneId := v.asNatural.map .mk

def TerminalTabId.toJson (id : TerminalTabId) : Json := .natural id.value

def TerminalTabId.fromJson (v : Json) : Option TerminalTabId := v.asNatural.map .mk

namespace LayoutNode

def toJson : LayoutNode → Json
  | .pane p => .object [("Pane", p.toJson)]
  | .split axis ratio first second =>
    .object
      [("Split", .object
        [("axis", axis.toJson), ("first", first.toJson),
          ("ratio_basis_points", .natural ratio.toNat), ("second", second.toJson)])]

/-- A layout of at most `fuel` levels. -/
def decode : Nat → Json → Option LayoutNode
  | 0, _ => none
  | fuel + 1, v =>
    match v.variant with
    | some ("Pane", some v) => (TerminalPaneId.fromJson v).map .pane
    | some ("Split", some v) => do
      let field ← v.fields ["axis", "ratio_basis_points", "first", "second"]
      let axis ← (field "axis").bind SplitAxis.fromJson
      let ratio ← (field "ratio_basis_points").bind (Json.asUnsigned 16)
      let first ← (field "first").bind (decode fuel)
      let second ← (field "second").bind (decode fuel)
      return .split axis (UInt16.ofNat ratio) first second
    | _ => none

/-- A layout has no more levels than its value. -/
def fromJson (v : Json) : Option LayoutNode := decode v.depth v

end LayoutNode

def TerminalPaneSnapshot.toJson (pane : TerminalPaneSnapshot) : Option Json := do
  let directory ← pane.workingDirectory.toJson
  return .object [("id", pane.id.toJson), ("working_directory", directory)]

def TerminalPaneSnapshot.fromJson (v : Json) : Option TerminalPaneSnapshot := do
  let field ← v.fields ["id", "working_directory"]
  let id ← (field "id").bind TerminalPaneId.fromJson
  let directory ← (field "working_directory").bind PathBuf.fromJson
  return ⟨id, directory⟩

def TerminalTabSnapshot.toJson (tab : TerminalTabSnapshot) : Option Json := do
  let panes ← tab.panes.mapM TerminalPaneSnapshot.toJson
  return .object
    [("focused_pane", tab.focusedPane.toJson), ("id", tab.id.toJson), ("name", .string tab.name),
      ("panes", .array panes), ("root", tab.root.toJson)]

def TerminalTabSnapshot.fromJson (v : Json) : Option TerminalTabSnapshot := do
  let field ← v.fields ["id", "name", "root", "focused_pane", "panes"]
  let id ← (field "id").bind TerminalTabId.fromJson
  let name ← (field "name").bind Json.asString
  let root ← (field "root").bind LayoutNode.fromJson
  let focusedPane ← (field "focused_pane").bind TerminalPaneId.fromJson
  let panes ← (field "panes").bind Json.asArray
  let panes ← panes.mapM TerminalPaneSnapshot.fromJson
  return ⟨id, name, root, focusedPane, panes⟩

/-! ## The workspace's state -/

structure WorkspaceId where
  value : String
  deriving DecidableEq

structure WorkspaceRoot where
  id : WorkspaceId
  path : PathBuf
  displayName : String
  legacyPathId : WorkspaceId
  device : UInt64
  inode : UInt64
  deriving DecidableEq

structure ExplorerState where
  visible : Bool
  showHidden : Bool
  showIgnored : Bool
  deriving DecidableEq

structure WorkspaceState where
  root : WorkspaceRoot
  explorer : ExplorerState
  staleFilesystem : Bool
  contributions : SortedMap String Json

/-! ## The terminal's contribution -/

def terminalContributionId : String := "strukt.terminal"
def terminalSchemaVersion : Nat := 1

structure TerminalSessionSnapshot where
  schemaVersion : Nat
  tabs : List TerminalTabSnapshot
  activeTab : Option TerminalTabId
  extensions : SortedMap String Json

inductive TerminalStoreError where
  | unsupportedSchema (version : Nat)
  | invalidLayout (error : TerminalWorkspaceError)
  | serialization
  | malformedContribution
  deriving DecidableEq

namespace TerminalSessionSnapshot

def fromWorkspace (w : TerminalWorkspace) : TerminalSessionSnapshot where
  schemaVersion := terminalSchemaVersion
  tabs := w.snapshot.tabs
  activeTab := w.snapshot.activeTab
  extensions := .empty

def restore (s : TerminalSessionSnapshot) : Except TerminalStoreError TerminalWorkspace :=
  if s.schemaVersion ≠ terminalSchemaVersion then .error (.unsupportedSchema s.schemaVersion)
  else (TerminalWorkspace.restore ⟨s.tabs, s.activeTab⟩).mapError .invalidLayout

def toJson (s : TerminalSessionSnapshot) : Option Json := do
  let tabs ← s.tabs.mapM TerminalTabSnapshot.toJson
  let members := SortedMap.ofList
    (s.extensions.entries ++
      [("active_tab", s.activeTab.elim .null (·.toJson)),
        ("schema_version", .natural s.schemaVersion), ("tabs", .array tabs)])
  return .object members.entries

def fromJson (v : Json) : Option TerminalSessionSnapshot := do
  let (field, rest) ← v.fieldsWithRest ["schema_version", "tabs", "active_tab"]
  let schemaVersion ← (field "schema_version").bind (Json.asUnsigned 32)
  let tabs ← match field "tabs" with
    | none => some []
    | some tabs => tabs.asArray.bind (·.mapM TerminalTabSnapshot.fromJson)
  let activeTab ← match field "active_tab" with
    | none => some none
    | some activeTab => activeTab.asOption TerminalTabId.fromJson
  return ⟨schemaVersion, tabs, activeTab, .ofList rest⟩

end TerminalSessionSnapshot

def setTerminalContribution (state : WorkspaceState) (snapshot : TerminalSessionSnapshot) :
    Except TerminalStoreError WorkspaceState :=
  match snapshot.toJson with
  | none => .error .serialization
  | some v =>
    .ok { state with contributions := state.contributions.insert terminalContributionId v }

def terminalContribution (state : WorkspaceState) :
    Except TerminalStoreError (Option TerminalSessionSnapshot) :=
  match state.contributions.get? terminalContributionId with
  | none => .ok none
  | some v =>
    match TerminalSessionSnapshot.fromJson v with
    | none => .error .malformedContribution
    | some snapshot => snapshot.restore.map fun _ => some snapshot

/-! ## The session's contribution -/

def sessionContributionId : String := "strukt.session"
def sessionSchemaVersion : Nat := 1

structure SessionContribution where
  schemaVersion : Nat
  provider : String
  selectedSession : Option SessionId
  selectedWindow : Option WindowId
  migratedTerminalSchema : Option Nat
  deriving DecidableEq

namespace SessionContribution

def validate (c : SessionContribution) : Bool :=
  c.schemaVersion = sessionSchemaVersion ∧ c.provider = "native-local"

def fromJson (v : Json) : Option SessionContribution := do
  let field ← v.fields
    ["schema_version", "provider", "selected_session", "selected_window",
      "migrated_terminal_schema"]
  let schemaVersion ← (field "schema_version").bind (Json.asUnsigned 32)
  let provider ← (field "provider").bind Json.asString
  let selectedSession ← ((field "selected_session").getD .null).asOption
    fun v => v.asString.bind (OpaqueId.fromStr .session)
  let selectedWindow ← ((field "selected_window").getD .null).asOption
    fun v => v.asString.bind (OpaqueId.fromStr .window)
  let migratedTerminalSchema ← ((field "migrated_terminal_schema").getD .null).asOption
    (Json.asUnsigned 32)
  return ⟨schemaVersion, provider, selectedSession, selectedWindow, migratedTerminalSchema⟩

end SessionContribution

inductive SessionMigrationError where
  | unsupportedContribution
  | invalidLayout
  | terminal (error : TerminalStoreError)
  | catalog (error : CatalogError)
  | id (error : IdError)
  | json
  deriving DecidableEq

def sessionContribution (state : WorkspaceState) :
    Except SessionMigrationError (Option SessionContribution) :=
  match state.contributions.get? sessionContributionId with
  | none => .ok none
  | some v =>
    match SessionContribution.fromJson v with
    | none => .error .json
    | some c => if c.validate then .ok (some c) else .error .unsupportedContribution

/-! ## Other contributions -/

def languageContributionId : String := "strukt.language"

def shellContributionId : String := "shell"

end Strukt
