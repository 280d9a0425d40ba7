import Strukt.Lib.Runs
import Strukt.Persistence.Contribution
import Strukt.Terminal.Runtime

/-!
# The terminal surfaces of the app

`TerminalSurfaces` keeps the terminal workspace, with its tabs, layouts and the state that each pane
shows, and beside it the runtime, with the process and the model of each pane. Every operation works
on the one and then on the other. A start leaves as a job and comes back as a completion, which
names its pane and generation and is taken once.

* **Parameters**: the identifiers that the workspace issues, the shell that is found, the clock, and
  the answers of the processes.
* **Errors**: an operation that fails leaves the surfaces as it had them.
-/

namespace Strukt

/-! ## What the surfaces hold -/

structure TerminalCoordinate where
  row : Nat
  column : Nat
  deriving DecidableEq

structure Selection where
  start : TerminalCoordinate
  stop : TerminalCoordinate
  deriving DecidableEq

/-- `Selection::linear`: the coordinates in their order. -/
def Selection.linear (start stop : TerminalCoordinate) : Selection :=
  if start.row < stop.row ∨ start.row = stop.row ∧ start.column ≤ stop.column then ⟨start, stop⟩
  else ⟨stop, start⟩

inductive FocusEvent where
  | focusIn
  | focusOut
  deriving DecidableEq

variable {P : Platform}

/-- The report of a focus change, where the program asked for reports. -/
def TerminalModel.encodeFocus (m : TerminalModel P.toVteParser) (event : FocusEvent) :
    Option (List UInt8) :=
  if (m.snapshot 0).modes.focusReporting then
    match event with
    | .focusIn => some [0x1b, 0x5b, 0x49]
    | .focusOut => some [0x1b, 0x5b, 0x4f]
  else none

def TerminalRuntime.encodeFocus (pane : TerminalPaneId) (event : FocusEvent) :
    RuntimeM P (Option (List UInt8)) := do
  let r ← Method.okOr .paneNotFound ((← get).panes.get? pane)
  return r.model.encodeFocus event

end Strukt

namespace Strukt.App

open Method

def defaultRows : UInt16 := 24
def defaultColumns : UInt16 := 80
def defaultScrollback : Nat := 10000

def defaultGridSize : GridSize := ⟨24, 80, Nat.zero_lt_succ _, Nat.zero_lt_succ _⟩

structure TerminalSurfaces (P : Platform) where
  workspace : TerminalWorkspace
  runtime : TerminalRuntime P
  selections : SortedMap TerminalPaneId Selection
  viewportOffsets : SortedMap TerminalPaneId Nat

inductive TerminalSurfaceError where
  | shellUnavailable
  | layout (error : TerminalWorkspaceError)
  | persistence (error : TerminalStoreError)
  | runtime (error : RuntimeError)
  | transport (error : TransportError)
  deriving DecidableEq

/-- What a start came to. -/
abbrev TerminalSpawnResult (P : Platform) := Except String (TerminalProcess P)

variable {P : Platform}

abbrev SurfacesM (P : Platform) := Method (TerminalSurfaces P) TerminalSurfaceError

/-- What `poll` makes of a state of the runtime. -/
def paneState : RuntimePaneState → PaneState
  | .stopped => .stopped
  | .starting => .starting
  | .running => .running
  | .exited code => .exited code
  | .failed message => .failed message
  | .backpressured => .backpressured

/-- The pane has a process, or is getting one. -/
def isLive : PaneState → Bool
  | .starting | .running | .backpressured => true
  | _ => false

def shellRequest (shell : Option PathBuf) (workingDirectory : PathBuf) :
    Except TerminalSurfaceError SpawnRequest := do
  let executable ← match shell with
    | some shell => .ok shell
    | none => .error .shellUnavailable
  let size ← (TerminalSize.new defaultRows defaultColumns).mapError .transport
  return {
    executable := executable
    arguments := []
    workingDirectory := workingDirectory
    environment :=
      [("TERM".toUTF8.data.toList, "xterm-256color".toUTF8.data.toList),
        ("COLORTERM".toUTF8.data.toList, "truecolor".toUTF8.data.toList)]
    size := size }

namespace TerminalSurfaces

/-- `TerminalSurfaces::default`. -/
def default : TerminalSurfaces P := ⟨.new, .new defaultScrollback, .empty, .empty⟩

def onWorkspace {α : Type} (x : WorkspaceM α) : SurfacesM P α :=
  focus workspace (fun s w => { s with workspace := w }) .layout x

def onRuntime {α : Type} (x : RuntimeM P α) : SurfacesM P α :=
  focus runtime (fun s t => { s with runtime := t }) .runtime x

def preparePanes : List TerminalPaneId → SurfacesM P Unit
  | [] => pure ()
  | pane :: rest => do
    discard (onRuntime (TerminalRuntime.prepare pane defaultGridSize))
    preparePanes rest

/-- The surfaces of a snapshot, in place of these. Where it is refused the app has the default. -/
def restore (snapshot : Option TerminalSessionSnapshot) : SurfacesM P Unit := do
  set (default : TerminalSurfaces P)
  let workspace ← ofExcept <| match snapshot with
    | none => .ok TerminalWorkspace.new
    | some snapshot => snapshot.restore.mapError .persistence
  set { (default : TerminalSurfaces P) with workspace := workspace }
  preparePanes workspace.panes.keys

def newTab (root : PathBuf) (paneId : TerminalPaneId) (tabId : TerminalTabId) :
    SurfacesM P TerminalPaneId := do
  let number := (← get).workspace.tabs.length + 1
  let pane ← onWorkspace
    (TerminalWorkspace.createTab ("Terminal " ++ toString number) root paneId tabId)
  discard (onRuntime (TerminalRuntime.prepare pane defaultGridSize))
  return pane

def splitFocused (axis : SplitAxis) (newPane : TerminalPaneId) : SurfacesM P TerminalPaneId := do
  let pane ← onWorkspace (TerminalWorkspace.splitFocused axis newPane)
  discard (onRuntime (TerminalRuntime.prepare pane defaultGridSize))
  return pane

/-! ### Focus -/

def focusedPane (s : TerminalSurfaces P) : Option TerminalPaneId :=
  (s.workspace.activeTab.bind s.workspace.tabIndex).bind fun index =>
    s.workspace.tabs[index]?.map (·.focusedPane)

def running (s : TerminalSurfaces P) (pane : TerminalPaneId) : Bool :=
  (s.workspace.panes.get? pane).any (isLive ·.state)

/-- The report goes to the pane's process, if the pane is running. -/
def reportFocus (pane : Option TerminalPaneId) (event : FocusEvent) : SurfacesM P Unit := do
  let s ← get
  match pane.filter s.running with
  | none => pure ()
  | some pane =>
    match ← onRuntime (TerminalRuntime.encodeFocus pane event) with
    | none => pure ()
    | some bytes => onRuntime (TerminalRuntime.write pane bytes)

def reportFocusChange (previous current : Option TerminalPaneId) : SurfacesM P Unit :=
  if previous = current then pure ()
  else do
    reportFocus previous .focusOut
    reportFocus current .focusIn

def activateTab (tab : TerminalTabId) : SurfacesM P Unit := do
  let previous := (← get).focusedPane
  onWorkspace (TerminalWorkspace.activateTab tab)
  let current := (← get).focusedPane
  reportFocusChange previous current

def focusPane (pane : TerminalPaneId) : SurfacesM P Unit := do
  let previous := (← get).focusedPane
  onWorkspace (TerminalWorkspace.focusPane pane)
  reportFocusChange previous (some pane)

def renameActiveTab (name : String) : SurfacesM P Unit :=
  onWorkspace (TerminalWorkspace.renameActiveTab name)

/-! ### Starts -/

/-- `begin_start_with_request` behind its check, and the end of `begin_start`. -/
def startPane (pane : TerminalPaneId) (request : SpawnRequest) :
    SurfacesM P (RuntimeStartJob P) := do
  onWorkspace (TerminalWorkspace.restartPane pane)
  match ← attempt (TerminalSurfaces.onRuntime (TerminalRuntime.beginRestart pane request)) with
  | .ok job => return job
  | .error (.runtime error) =>
    onWorkspace (TerminalWorkspace.setPaneState pane (.failed error.toString))
    throw (.runtime error)
  | .error error => throw error

def beginStart (pane : TerminalPaneId) (shell : Option PathBuf) :
    SurfacesM P (RuntimeStartJob P) := do
  let p ← okOr (.layout .paneNotFound) ((← get).workspace.panes.get? pane)
  let request ← ofExcept (shellRequest shell p.workingDirectory)
  startPane pane request

def beginStartWithRequest (pane : TerminalPaneId) (request : SpawnRequest) :
    SurfacesM P (RuntimeStartJob P) := do
  discard (okOr (.layout .paneNotFound) ((← get).workspace.panes.get? pane))
  startPane pane request

/-- The completion is `none` once it was taken. -/
def finishStart (pane : TerminalPaneId) (generation : UInt64)
    (completion : Option (TerminalSpawnResult P)) : SurfacesM P Unit :=
  match completion with
  | none => pure ()
  | some result => do
    let current := ((← get).runtime.panes.get? pane).map (·.generation) = some generation
    match ← attempt (TerminalSurfaces.onRuntime
        (TerminalRuntime.finishRestart pane generation result)) with
    | .ok () => if current then onWorkspace (TerminalWorkspace.setPaneState pane .running) else pure ()
    | .error (.runtime error) =>
      onWorkspace (TerminalWorkspace.setPaneState pane (.failed error.toString))
      throw (.runtime error)
    | .error error => throw error

/-! ### Polling -/

/-- The states of the changed panes, copied into the workspace. -/
def copyStates : List TerminalPaneId → SurfacesM P Unit
  | [] => pure ()
  | pane :: rest => do
    match (← get).runtime.state pane with
    | none => pure ()
    | some state =>
      discard (attempt (α := Unit) (TerminalSurfaces.onWorkspace
        (TerminalWorkspace.setPaneState pane (paneState state))))
    copyStates rest

/-- A drain that does not end has no result. -/
def poll (fuel : Nat) (clock : TerminalPaneId → Nat → Instant) : SurfacesM P RuntimeBatch := do
  let s ← get
  let (batch, runtime) ← orPanic (s.runtime.drain fuel clock .default)
  set { s with runtime := runtime }
  copyStates batch.changed.keys
  return batch

/-! ### The view -/

def resize (pane : TerminalPaneId) (size : TerminalSize) : SurfacesM P Unit := do
  if (← get).running pane then onRuntime (TerminalRuntime.resize pane size) else pure ()

def select (pane : TerminalPaneId) (selection : Selection) : SurfacesM P Unit := do
  discard (okOr (.layout .paneNotFound) ((← get).workspace.panes.get? pane))
  modify fun s => { s with selections := s.selections.insert pane selection }

def scroll (pane : TerminalPaneId) (lines : Int32) : SurfacesM P Unit := do
  discard (okOr (.layout .paneNotFound) ((← get).workspace.panes.get? pane))
  modify fun s =>
    let offset := (s.viewportOffsets.get? pane).getD 0
    let offset := if lines > 0 then min (offset + lines.toInt.toNat) 100000
      else offset - (-lines.toInt).toNat
    { s with viewportOffsets := s.viewportOffsets.insert pane offset }

/-- The offset is set whether there is such a pane or not. -/
def write (pane : TerminalPaneId) (bytes : List UInt8) : SurfacesM P Unit := do
  modify fun s => { s with viewportOffsets := s.viewportOffsets.insert pane 0 }
  onRuntime (TerminalRuntime.write pane bytes)

def snapshot (s : TerminalSurfaces P) (pane : TerminalPaneId) : Option TerminalSnapshot :=
  (s.runtime.panes.get? pane).map fun r =>
    r.model.snapshot ((s.viewportOffsets.get? pane).getD 0)

def closeAndTakeProcess (pane : TerminalPaneId) : SurfacesM P (Option (TerminalProcess P)) := do
  discard (okOr (.layout .paneNotFound) ((← get).workspace.panes.get? pane))
  let process ← onRuntime (TerminalRuntime.takeProcessAndDiscard pane)
  modify fun s => { s with
    selections := s.selections.remove pane
    viewportOffsets := s.viewportOffsets.remove pane }
  onWorkspace (TerminalWorkspace.closePane pane)
  return process

end TerminalSurfaces

/-! ## Runs -/

inductive SurfaceOp (P : Platform) where
  | restore (snapshot : Option TerminalSessionSnapshot)
  | newTab (root : PathBuf) (paneId : TerminalPaneId) (tabId : TerminalTabId)
  | splitFocused (axis : SplitAxis) (newPane : TerminalPaneId)
  | activateTab (tab : TerminalTabId)
  | focusPane (pane : TerminalPaneId)
  | renameActiveTab (name : String)
  | beginStart (pane : TerminalPaneId) (shell : Option PathBuf)
  | beginStartWithRequest (pane : TerminalPaneId) (request : SpawnRequest)
  | finishStart (pane : TerminalPaneId) (generation : UInt64)
      (completion : Option (TerminalSpawnResult P))
  | poll (fuel : Nat) (clock : TerminalPaneId → Nat → Instant)
  | resize (pane : TerminalPaneId) (size : TerminalSize)
  | select (pane : TerminalPaneId) (selection : Selection)
  | scroll (pane : TerminalPaneId) (lines : Int32)
  | write (pane : TerminalPaneId) (bytes : List UInt8)
  | closeAndTakeProcess (pane : TerminalPaneId)

namespace SurfaceOp

open TerminalSurfaces

def run : SurfaceOp P → SurfacesM P Unit
  | .restore snapshot => TerminalSurfaces.restore snapshot
  | .newTab root paneId tabId => discard (TerminalSurfaces.newTab root paneId tabId)
  | .splitFocused axis newPane => discard (TerminalSurfaces.splitFocused axis newPane)
  | .activateTab tab => TerminalSurfaces.activateTab tab
  | .focusPane pane => TerminalSurfaces.focusPane pane
  | .renameActiveTab name => TerminalSurfaces.renameActiveTab name
  | .beginStart pane shell => discard (TerminalSurfaces.beginStart pane shell)
  | .beginStartWithRequest pane request =>
    discard (TerminalSurfaces.beginStartWithRequest pane request)
  | .finishStart pane generation completion =>
    TerminalSurfaces.finishStart pane generation completion
  | .poll fuel clock => discard (TerminalSurfaces.poll fuel clock)
  | .resize pane size => TerminalSurfaces.resize pane size
  | .select pane selection => TerminalSurfaces.select pane selection
  | .scroll pane lines => TerminalSurfaces.scroll pane lines
  | .write pane bytes => TerminalSurfaces.write pane bytes
  | .closeAndTakeProcess pane => discard (TerminalSurfaces.closeAndTakeProcess pane)

/-- The surfaces after the operation, also where it fails; `none` is a panic. -/
def step (s : TerminalSurfaces P) (op : SurfaceOp P) : Option (TerminalSurfaces P) :=
  (op.run.exec s).map (·.2)

end SurfaceOp

end Strukt.App
