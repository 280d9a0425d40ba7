import Strukt.Lib.Method
import Strukt.Session.Layout

/-!
# The workspace of terminal tabs

`TerminalWorkspace` holds the tabs, each with a layout tree of panes and the pane in focus, the
panes by their identifiers, and the active tab. The operations are methods on it, with every write
where the source has it: `LayoutNode.split` and `LayoutNode.setParentRatio` write into the tree that
they walk and say whether they found the pane. The identifiers that an operation issues are
arguments.

`restore` builds a workspace from a snapshot that `validateSnapshot` accepts.
-/

namespace Strukt

open Method

structure TerminalTabId where
  value : Nat
  deriving DecidableEq

inductive PaneState where
  | stopped
  | starting
  | running
  | exited (code : Option Int32)
  | failed (message : String)
  | backpressured
  deriving DecidableEq

inductive LayoutNode where
  | pane (pane : TerminalPaneId)
  | split (axis : SplitAxis) (ratioBasisPoints : UInt16) (first second : LayoutNode)
  deriving DecidableEq

namespace LayoutNode

def minSplitRatio : UInt16 := 1000
def maxSplitRatio : UInt16 := 9000
def defaultSplitRatio : UInt16 := 5000

def isPane (p : TerminalPaneId) : LayoutNode → Bool
  | .pane candidate => candidate = p
  | .split .. => false

def contains (p : TerminalPaneId) : LayoutNode → Bool
  | .pane candidate => candidate = p
  | .split _ _ first second => first.contains p || second.contains p

/-- `panes` with the leaves pushed. -/
def collectPanes : LayoutNode → List TerminalPaneId → List TerminalPaneId
  | .pane p, panes => panes ++ [p]
  | .split _ _ first second, panes => second.collectPanes (first.collectPanes panes)

/-- The focused leaf split in two; the Boolean says whether it was found. -/
def splitLeaf (focused newPane : TerminalPaneId) (axis : SplitAxis) :
    LayoutNode → Bool × LayoutNode
  | .pane p =>
    if p = focused then (true, .split axis defaultSplitRatio (.pane focused) (.pane newPane))
    else (false, .pane p)
  | .split a ratio first second =>
    match first.splitLeaf focused newPane axis with
    | (true, first) => (true, .split a ratio first second)
    | (false, first) =>
      let (found, second) := second.splitLeaf focused newPane axis
      (found, .split a ratio first second)

def remove (p : TerminalPaneId) : LayoutNode → Option LayoutNode
  | .pane candidate => if candidate ≠ p then some (.pane candidate) else none
  | .split a ratio first second =>
    match first.remove p, second.remove p with
    | some first, some second => some (.split a ratio first second)
    | some remaining, none => some remaining
    | none, some remaining => some remaining
    | none, none => none

/-- The ratio of the pane's parent set; the Boolean says whether there is a parent. -/
def setParentRatio (p : TerminalPaneId) (ratio : UInt16) : LayoutNode → Bool × LayoutNode
  | .pane q => (false, .pane q)
  | .split a old first second =>
    if first.isPane p || second.isPane p then (true, .split a ratio first second)
    else
      match first.setParentRatio p ratio with
      | (true, first) => (true, .split a old first second)
      | (false, first) =>
        let (found, second) := second.setParentRatio p ratio
        (found, .split a old first second)

def validate : LayoutNode → Bool
  | .pane _ => true
  | .split _ ratio first second =>
    (minSplitRatio ≤ ratio && ratio ≤ maxSplitRatio) && first.validate && second.validate

end LayoutNode

structure TerminalPane where
  id : TerminalPaneId
  workingDirectory : PathBuf
  state : PaneState
  deriving DecidableEq

structure TerminalTab where
  id : TerminalTabId
  name : String
  root : LayoutNode
  focusedPane : TerminalPaneId
  deriving DecidableEq

structure TerminalPaneSnapshot where
  id : TerminalPaneId
  workingDirectory : PathBuf
  deriving DecidableEq

structure TerminalTabSnapshot where
  id : TerminalTabId
  name : String
  root : LayoutNode
  focusedPane : TerminalPaneId
  panes : List TerminalPaneSnapshot
  deriving DecidableEq

structure TerminalWorkspaceSnapshot where
  tabs : List TerminalTabSnapshot
  activeTab : Option TerminalTabId
  deriving DecidableEq

inductive TerminalWorkspaceError where
  | invalidName
  | invalidWorkingDirectory
  | noActiveTab
  | tabNotFound
  | paneNotFound
  | invalidSplitRatio
  | noFocusedSplit
  | invalidPaneTransition
  | duplicateId
  | invalidLayout
  | invalidFocusedPane
  | invalidActiveTab
  deriving DecidableEq

structure TerminalWorkspace where
  tabs : List TerminalTab
  panes : SortedMap TerminalPaneId TerminalPane
  activeTab : Option TerminalTabId

abbrev WorkspaceM (α : Type) := Method TerminalWorkspace TerminalWorkspaceError α

namespace TerminalWorkspace

def validatedName (name : String) : Except TerminalWorkspaceError String :=
  let trimmed := trim name
  if trimmed.isEmpty then .error .invalidName
  else if trimmed.utf8ByteSize = name.utf8ByteSize then .ok name
  else .ok trimmed

def validatedDirectory (directory : PathBuf) : Except TerminalWorkspaceError PathBuf :=
  if directory.bytes = [] then .error .invalidWorkingDirectory else .ok directory

/-- `TerminalWorkspace::default`. -/
def new : TerminalWorkspace := ⟨[], .empty, none⟩

def tabIndex (w : TerminalWorkspace) (tab : TerminalTabId) : Option Nat :=
  w.tabs.findIdx? (·.id = tab)

/-! ## Parts of the operations -/

def setTab (index : Nat) (tab : TerminalTab) : WorkspaceM Unit :=
  modify fun w => { w with tabs := w.tabs.set index tab }

def insertPane (pane : TerminalPane) : WorkspaceM Unit :=
  modify fun w => { w with panes := w.panes.insert pane.id pane }

/-- `active_tab_mut`, with the tab's index. -/
def activeTabMut : WorkspaceM (Nat × TerminalTab) := do
  let w ← get
  let active ← okOr .noActiveTab w.activeTab
  let index ← okOr .tabNotFound (w.tabIndex active)
  let tab ← orPanic w.tabs[index]?
  return (index, tab)

/-! ## Operations -/

def createTab (name : String) (workingDirectory : PathBuf) (paneId : TerminalPaneId)
    (tabId : TerminalTabId) : WorkspaceM TerminalPaneId := do
  let name ← ofExcept (validatedName name)
  let workingDirectory ← ofExcept (validatedDirectory workingDirectory)
  insertPane ⟨paneId, workingDirectory, .stopped⟩
  modify fun w => { w with tabs := w.tabs ++ [⟨tabId, name, .pane paneId, paneId⟩] }
  modify fun w => { w with activeTab := some tabId }
  return paneId

def splitFocused (axis : SplitAxis) (newPane : TerminalPaneId) : WorkspaceM TerminalPaneId := do
  let w ← get
  let active ← okOr .noActiveTab w.activeTab
  let index ← okOr .tabNotFound (w.tabIndex active)
  let tab ← orPanic w.tabs[index]?
  let focused ← okOr .paneNotFound (w.panes.get? tab.focusedPane)
  let (found, root) := tab.root.splitLeaf tab.focusedPane newPane axis
  setTab index { tab with root := root }
  ensure found .paneNotFound
  setTab index { tab with root := root, focusedPane := newPane }
  insertPane ⟨newPane, focused.workingDirectory, .stopped⟩
  return newPane

def closePane (pane : TerminalPaneId) : WorkspaceM Unit := do
  let w ← get
  let index ← okOr .paneNotFound (w.tabs.findIdx? (·.root.contains pane))
  let tab ← orPanic w.tabs[index]?
  let root := tab.root.remove pane
  modify fun w => { w with panes := w.panes.remove pane }
  match root with
  | some root =>
    let remaining := root.collectPanes []
    setTab index { tab with root := root }
    if tab.focusedPane = pane then do
      let first ← orPanic remaining[0]?
      setTab index { tab with root := root, focusedPane := first }
    else pure ()
  | none =>
    modify fun w => { w with tabs := w.tabs.eraseIdx index }
    modify fun w =>
      if w.activeTab = some tab.id then
        { w with activeTab := (w.tabs[index]?.or w.tabs.getLast?).map (·.id) }
      else w

def activateTab (tab : TerminalTabId) : WorkspaceM Unit := do
  let w ← get
  ensure (w.tabIndex tab).isSome .tabNotFound
  modify fun w => { w with activeTab := some tab }

def focusPane (pane : TerminalPaneId) : WorkspaceM Unit := do
  let (index, tab) ← activeTabMut
  ensure (tab.root.contains pane) .paneNotFound
  setTab index { tab with focusedPane := pane }

def renameTab (tab : TerminalTabId) (name : String) : WorkspaceM Unit := do
  let name ← ofExcept (validatedName name)
  let w ← get
  let index ← okOr .tabNotFound (w.tabIndex tab)
  let tab ← orPanic w.tabs[index]?
  setTab index { tab with name := name }

def renameActiveTab (name : String) : WorkspaceM Unit := do
  let w ← get
  let active ← okOr .noActiveTab w.activeTab
  renameTab active name

def setFocusedSplitRatio (ratioBasisPoints : UInt16) : WorkspaceM Unit := do
  ensure (LayoutNode.minSplitRatio ≤ ratioBasisPoints ∧ ratioBasisPoints ≤ LayoutNode.maxSplitRatio)
    .invalidSplitRatio
  let (index, tab) ← activeTabMut
  let (found, root) := tab.root.setParentRatio tab.focusedPane ratioBasisPoints
  setTab index { tab with root := root }
  ensure found .noFocusedSplit

def setPaneState (pane : TerminalPaneId) (state : PaneState) : WorkspaceM Unit := do
  let w ← get
  let p ← okOr .paneNotFound (w.panes.get? pane)
  modify fun w => { w with panes := w.panes.insert pane { p with state := state } }

def restartPane (pane : TerminalPaneId) : WorkspaceM Unit := do
  let w ← get
  let p ← okOr .paneNotFound (w.panes.get? pane)
  match p.state with
  | .stopped | .running | .backpressured | .exited _ | .failed _ =>
    modify fun w => { w with panes := w.panes.insert pane { p with state := .starting } }
  | .starting => throw .invalidPaneTransition

/-! ## Snapshots -/

/-- The panes of a tab: with a directory, and not among those found so far. -/
def validatePanes : List TerminalPaneSnapshot → Finset TerminalPaneId →
    Except TerminalWorkspaceError (Finset TerminalPaneId)
  | [], paneIds => .ok paneIds
  | pane :: rest, paneIds => do
    let _ ← validatedDirectory pane.workingDirectory
    if pane.id ∈ paneIds then .error .duplicateId
    else validatePanes rest (insert pane.id paneIds)

def validateTabs : List TerminalTabSnapshot → Finset TerminalTabId → Finset TerminalPaneId →
    Except TerminalWorkspaceError Unit
  | [], _, _ => .ok ()
  | tab :: rest, tabIds, paneIds => do
    let _ ← validatedName tab.name
    if tab.id ∈ tabIds then .error .duplicateId
    else if tab.root.validate = false then .error .invalidSplitRatio
    else
      let layoutPanes := tab.root.collectPanes []
      let layoutSet := layoutPanes.toFinset
      let declaredSet := (tab.panes.map (·.id)).toFinset
      if layoutSet.card ≠ layoutPanes.length then .error .duplicateId
      else if tab.focusedPane ∉ layoutSet then .error .invalidFocusedPane
      else if declaredSet.card ≠ tab.panes.length ∨ declaredSet ≠ layoutSet then
        .error .invalidLayout
      else do
        let paneIds ← validatePanes tab.panes paneIds
        validateTabs rest (insert tab.id tabIds) paneIds

def validateSnapshot (snapshot : TerminalWorkspaceSnapshot) : Except TerminalWorkspaceError Unit :=
  if snapshot.tabs.isEmpty then
    if snapshot.activeTab.isNone then .ok () else .error .invalidActiveTab
  else if snapshot.activeTab.any (fun active => snapshot.tabs.any (·.id = active)) then
    validateTabs snapshot.tabs ∅ ∅
  else .error .invalidActiveTab

/-- The workspace with a tab of the snapshot added. -/
def restoreTab (w : TerminalWorkspace) (tab : TerminalTabSnapshot) : TerminalWorkspace :=
  { w with
    panes := tab.panes.foldl
      (fun panes pane => panes.insert pane.id ⟨pane.id, pane.workingDirectory, .stopped⟩) w.panes
    tabs := w.tabs ++ [⟨tab.id, tab.name, tab.root, tab.focusedPane⟩] }

def restore (snapshot : TerminalWorkspaceSnapshot) :
    Except TerminalWorkspaceError TerminalWorkspace := do
  validateSnapshot snapshot
  return snapshot.tabs.foldl restoreTab ⟨[], .empty, snapshot.activeTab⟩

def snapshot (w : TerminalWorkspace) : TerminalWorkspaceSnapshot where
  tabs := w.tabs.map fun tab =>
    { id := tab.id
      name := tab.name
      root := tab.root
      focusedPane := tab.focusedPane
      panes := ((tab.root.collectPanes []).filterMap w.panes.get?).map fun pane =>
        ⟨pane.id, pane.workingDirectory⟩ }
  activeTab := w.activeTab

end TerminalWorkspace
end Strukt
