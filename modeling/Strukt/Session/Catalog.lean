import Strukt.Lib.Method
import Strukt.Session.Layout

/-!
# The session catalog

The catalog (`SessionCatalog`) is the hierarchy of sessions, windows and panes, with a revision
that every operation on it raises. An operation is a method on the catalog: it takes the revision
that its caller expects, checks its arguments, and writes. The identifiers it draws come from a
`RandomSource`. Errors and writes happen in the order of the source, so a failure after a write
would leave the write.
-/

namespace Strukt

open Method

def maxSessions : Nat := 64
def maxWindowsPerSession : Nat := 32
def maxPanesPerWindow : Nat := 32
def maxTotalPanes : Nat := 256

def defaultRows : UInt16 := 24
def defaultColumns : UInt16 := 80

inductive PaneLifecycle where
  | stopped
  | starting
  | running
  | exited (code : Option Int32)
  | failed (message : String)
  | backpressured
  deriving DecidableEq

def PaneLifecycle.isLive : PaneLifecycle → Bool
  | .starting | .running | .backpressured => true
  | _ => false

structure SessionPane where
  id : PaneId
  workingDirectory : PathBuf
  requestedRows : UInt16
  requestedColumns : UInt16
  generation : UInt64
  lifecycle : PaneLifecycle
  deriving DecidableEq

/-- A pane that has not been started. -/
def SessionPane.stopped (id : PaneId) (directory : PathBuf) (rows columns : UInt16) :
    SessionPane where
  id := id
  workingDirectory := directory
  requestedRows := rows
  requestedColumns := columns
  generation := 0
  lifecycle := .stopped

/-- The pane, stopped and at generation zero. -/
def SessionPane.stop (p : SessionPane) : SessionPane :=
  { p with generation := 0, lifecycle := .stopped }

structure StoppedWindowDefinition where
  name : String
  root : SessionLayoutNode
  focusedPane : PaneId
  panes : List (PaneId × PathBuf)
  deriving DecidableEq

structure SessionWindow where
  id : WindowId
  name : String
  revision : UInt64
  root : SessionLayoutNode
  focusedPane : PaneId
  panes : SortedMap PaneId SessionPane
  deriving DecidableEq

namespace SessionWindow

def validate (w : SessionWindow) : Bool :=
  !w.panes.isEmpty && w.panes.length ≤ maxPanesPerWindow && w.panes.containsKey w.focusedPane &&
    w.panes.values.all (fun p => p.requestedRows > 0 && p.requestedColumns > 0) &&
    w.root.validate w.panes

/-- `focused_pane`, which indexes: `none` is its panic. -/
def focused (w : SessionWindow) : Option SessionPane := w.panes.get? w.focusedPane

def hasLivePanes (w : SessionWindow) : Bool := w.panes.values.any (·.lifecycle.isLive)

def stopPanes (w : SessionWindow) : SessionWindow :=
  { w with panes := w.panes.mapValues (·.stop) }

/-- The window after a write to a pane. -/
def putPane (w : SessionWindow) (pane : PaneId) (p : SessionPane) : SessionWindow :=
  { w with panes := w.panes.insert pane p }

end SessionWindow

structure Session where
  id : SessionId
  name : String
  revision : UInt64
  windows : List SessionWindow
  activeWindow : WindowId
  deriving DecidableEq

namespace Session

def hasLivePanes (s : Session) : Bool := s.windows.any (·.hasLivePanes)

def stopPanes (s : Session) : Session := { s with windows := s.windows.map (·.stopPanes) }

/-- The first window that satisfies `p`. -/
def findWindow (s : Session) (p : SessionWindow → Bool) : Option SessionWindow := s.windows.find? p

/-- The session with `w` in place of the first window that satisfies `p`: what a write through
`iter_mut().find(p)` leaves. -/
def putWindow (s : Session) (p : SessionWindow → Bool) (w : SessionWindow) : Session :=
  { s with windows := s.windows.replaceF fun v => if p v then some w else none }

/-- The session after a write to a window, with both revisions raised. -/
def commitWindow (s : Session) (p : SessionWindow → Bool) (w : SessionWindow) : Session :=
  { s.putWindow p { w with revision := w.revision.satSucc } with revision := s.revision.satSucc }

def active (s : Session) : Option SessionWindow := s.findWindow (·.id = s.activeWindow)

/-- The total of the windows' panes. -/
def paneCount (s : Session) : Nat := (s.windows.map (·.panes.length)).sum

end Session

structure SessionCatalog where
  revision : UInt64
  sessions : SortedMap SessionId Session
  activeSession : Option SessionId
  deriving DecidableEq

/-- A method on the catalog. -/
abbrev CatalogM (α : Type) := Method SessionCatalog CatalogError α

def validatedName (name : String) : Except CatalogError String :=
  let name := trim name
  if name.isEmpty ∨ name.length > 80 then .error .invalidName else .ok name

def validatedDirectory (directory : PathBuf) : Except CatalogError PathBuf :=
  if directory.bytes = [] then .error .invalidWorkingDirectory else .ok directory

/-- `$name::new()?`. -/
def newId (kind : IdKind) (rng : RandomSource) :
    Except CatalogError (OpaqueId kind × RandomSource) :=
  (OpaqueId.new rng).mapError .id

namespace SessionCatalog

def new : SessionCatalog := ⟨0, .empty, none⟩

/-! ## Validation -/

/-- The panes of a window: keyed by their identifiers, with a directory, not seen before. -/
def validatePanes : List (PaneId × SessionPane) → List PaneId → Option (List PaneId)
  | [], seen => some seen
  | (id, pane) :: rest, seen =>
    if id ≠ pane.id ∨ pane.workingDirectory.bytes = [] ∨ id ∈ seen then none
    else validatePanes rest (id :: seen)

/-- The windows of a session, with the panes seen and counted so far. -/
def validateWindows :
    List SessionWindow → List WindowId → List PaneId × Nat → Option (List PaneId × Nat)
  | [], _, acc => some acc
  | w :: rest, windowIds, (paneIds, total) =>
    if w.id ∈ windowIds ∨ w.revision = 0 ∨ (validatedName w.name).toBool = false ∨
        w.validate = false then none
    else do
      let paneIds ← validatePanes w.panes.entries paneIds
      validateWindows rest (w.id :: windowIds) (paneIds, total + w.panes.length)

def validateSessions : List (SessionId × Session) → List PaneId × Nat → Option (List PaneId × Nat)
  | [], acc => some acc
  | (id, s) :: rest, acc =>
    if id ≠ s.id ∨ s.revision = 0 ∨ (validatedName s.name).toBool = false ∨ s.windows = [] ∨
        s.windows.length > maxWindowsPerSession ∨ (s.windows.any (·.id = s.activeWindow)) = false
    then none
    else do
      let acc ← validateWindows s.windows [] acc
      validateSessions rest acc

def validate (c : SessionCatalog) : Except CatalogError Unit :=
  if c.sessions.length > maxSessions then .error .invalidCatalog
  else if c.sessions.isEmpty ≠ c.activeSession.isNone ∨
      c.activeSession.any (fun active => !c.sessions.containsKey active) then .error .invalidCatalog
  else
    match validateSessions c.sessions.entries ([], 0) with
    | none => .error .invalidCatalog
    | some (_, total) => if total > maxTotalPanes then .error .invalidCatalog else .ok ()

/-! ## Queries -/

def totalPanes (c : SessionCatalog) : Nat := (c.sessions.values.map Session.paneCount).sum

def containsPane (c : SessionCatalog) (pane : PaneId) : Bool :=
  c.sessions.values.any fun s => s.windows.any fun w => w.panes.containsKey pane

/-- The first pane with the identifier, with its session and window. -/
def pane (c : SessionCatalog) (pane : PaneId) : Option (SessionId × WindowId × SessionPane) :=
  c.sessions.values.findSome? fun s =>
    s.windows.findSome? fun w => (w.panes.get? pane).map fun target => (s.id, w.id, target)

/-- Every pane of the catalog, stopped and at generation zero. -/
def stopPanes (c : SessionCatalog) : SessionCatalog :=
  { c with sessions := c.sessions.mapValues (·.stopPanes) }

def stoppedClone (c : SessionCatalog) : Except CatalogError SessionCatalog := do
  c.validate
  return c.stopPanes

/-! ## Parts of the operations -/

def expectRevision (expected : UInt64) : CatalogM Unit := do
  let c ← get
  ensure (expected = c.revision) (.staleRevision expected c.revision)

def bumpRevision : CatalogM Unit := modify fun c => { c with revision := c.revision.satSucc }

def getSession (session : SessionId) : CatalogM Session := do
  okOr .sessionNotFound ((← get).sessions.get? session)

def putSession (session : SessionId) (s : Session) : CatalogM Unit :=
  modify fun c => { c with sessions := c.sessions.insert session s }

def setActive (session : Option SessionId) : CatalogM Unit :=
  modify fun c => { c with activeSession := session }

/-- Write a changed window through its reference, and raise the three revisions. -/
def commitWindow (session : SessionId) (target : Session) (p : SessionWindow → Bool)
    (w : SessionWindow) : CatalogM Unit := do
  putSession session (target.commitWindow p w)
  bumpRevision

/-! ## Sessions -/

def createSession (expectedRevision : UInt64) (name : String) (workingDirectory : PathBuf)
    (rng : RandomSource) : CatalogM SessionId := do
  expectRevision expectedRevision
  let c ← get
  ensure (c.sessions.length < maxSessions ∧ c.totalPanes < maxTotalPanes) .capacityReached
  let name ← ofExcept (validatedName name)
  let directory ← ofExcept (validatedDirectory workingDirectory)
  let (sessionId, rng) ← ofExcept (newId .session rng)
  let (windowId, rng) ← ofExcept (newId .window rng)
  let (paneId, _) ← ofExcept (newId .pane rng)
  putSession sessionId
    { id := sessionId
      name := name
      revision := 1
      windows :=
        [{ id := windowId
           name := "shell"
           revision := 1
           root := .pane paneId
           focusedPane := paneId
           panes := .singleton paneId (.stopped paneId directory defaultRows defaultColumns) }]
      activeWindow := windowId }
  setActive (some sessionId)
  bumpRevision
  return sessionId

/-- The panes of an imported window, with all panes imported so far. -/
def importPanes : List (PaneId × PathBuf) → List PaneId → SortedMap PaneId SessionPane →
    Except CatalogError (List PaneId × SortedMap PaneId SessionPane)
  | [], allPanes, panes => .ok (allPanes, panes)
  | (pane, directory) :: rest, allPanes, panes =>
    if pane ∈ allPanes then .error .invalidCatalog
    else do
      let directory ← validatedDirectory directory
      importPanes rest (pane :: allPanes)
        (panes.insert pane (.stopped pane directory defaultRows defaultColumns))

def importWindows : List StoppedWindowDefinition → List PaneId → RandomSource →
    Except CatalogError (List SessionWindow)
  | [], _, _ => .ok []
  | definition :: rest, allPanes, rng => do
    let name ← validatedName definition.name
    let (allPanes, panes) ← importPanes definition.panes allPanes .empty
    if panes.isEmpty ∨ panes.length > maxPanesPerWindow ∨
        panes.containsKey definition.focusedPane = false ∨
        definition.root.validate panes = false then .error .invalidCatalog
    else do
      let (windowId, rng) ← newId .window rng
      let imported ← importWindows rest allPanes rng
      return { id := windowId
               name := name
               revision := 1
               root := definition.root
               focusedPane := definition.focusedPane
               panes := panes } :: imported

def importStoppedSession (expectedRevision : UInt64) (name : String)
    (windows : List StoppedWindowDefinition) (activeWindowIndex : Nat) (rng : RandomSource) :
    CatalogM SessionId := do
  expectRevision expectedRevision
  let c ← get
  ensure (c.sessions.length < maxSessions ∧ windows ≠ [] ∧ windows.length ≤ maxWindowsPerSession ∧
    activeWindowIndex < windows.length) .invalidCatalog
  let paneCount := (windows.map (·.panes.length)).sum
  ensure (c.totalPanes + paneCount ≤ maxTotalPanes) .capacityReached
  let (sessionId, rng) ← ofExcept (newId .session rng)
  let imported ← ofExcept (importWindows windows [] rng)
  let active ← orPanic imported[activeWindowIndex]?
  let name ← ofExcept (validatedName name)
  putSession sessionId
    { id := sessionId
      name := name
      revision := 1
      windows := imported
      activeWindow := active.id }
  setActive (some sessionId)
  bumpRevision
  return sessionId

def renameSession (expectedRevision : UInt64) (session : SessionId) (name : String) :
    CatalogM Unit := do
  expectRevision expectedRevision
  let name ← ofExcept (validatedName name)
  let target ← getSession session
  putSession session { target with name := name, revision := target.revision.satSucc }
  bumpRevision

def activateSession (expectedRevision : UInt64) (session : SessionId) : CatalogM Unit := do
  expectRevision expectedRevision
  let c ← get
  ensure (c.sessions.containsKey session) .sessionNotFound
  setActive (some session)
  bumpRevision

/-- Fresh stopped copies of panes, and the map from the copied identifiers to the new ones. -/
def copyPanes : List SessionPane → RandomSource → SortedMap PaneId PaneId →
    SortedMap PaneId SessionPane →
    Except CatalogError (SortedMap PaneId PaneId × SortedMap PaneId SessionPane × RandomSource)
  | [], rng, ids, panes => .ok (ids, panes, rng)
  | source :: rest, rng, ids, panes => do
    let (paneId, rng) ← newId .pane rng
    copyPanes rest rng (ids.insert source.id paneId)
      (panes.insert paneId
        (.stopped paneId source.workingDirectory source.requestedRows source.requestedColumns))

/-- The windows of a duplicated session, and the copy of the active one. -/
def copyWindows (activeWindow : WindowId) : List SessionWindow → RandomSource → Option WindowId →
    Except CatalogError (List SessionWindow × Option WindowId)
  | [], _, active => .ok ([], active)
  | source :: rest, rng, active => do
    let (windowId, rng) ← newId .window rng
    let (ids, panes, rng) ← copyPanes source.panes.values rng .empty .empty
    match ids.get? source.focusedPane with
    | none => .error .paneNotFound
    | some focusedPane =>
      let active := if source.id = activeWindow then some windowId else active
      let root ← source.root.remap ids
      let (windows, active) ← copyWindows activeWindow rest rng active
      return ({ id := windowId
                name := source.name
                revision := 1
                root := root
                focusedPane := focusedPane
                panes := panes } :: windows, active)

def duplicateSession (expectedRevision : UInt64) (source : SessionId) (rng : RandomSource) :
    CatalogM SessionId := do
  expectRevision expectedRevision
  let source ← getSession source
  let c ← get
  ensure (c.sessions.length < maxSessions ∧ c.totalPanes + source.paneCount ≤ maxTotalPanes)
    .capacityReached
  let (sessionId, rng) ← ofExcept (newId .session rng)
  let (windows, active) ← ofExcept (copyWindows source.activeWindow source.windows rng none)
  let name ← ofExcept (validatedName (source.name ++ " copy"))
  let active ← okOr .windowNotFound active
  putSession sessionId
    { id := sessionId
      name := name
      revision := 1
      windows := windows
      activeWindow := active }
  setActive (some sessionId)
  bumpRevision
  return sessionId

def removeSession (expectedRevision : UInt64) (session : SessionId) : CatalogM Unit := do
  expectRevision expectedRevision
  let target ← getSession session
  ensure (target.hasLivePanes = false) .sessionRunning
  modify fun c => { c with sessions := c.sessions.remove session }
  let c ← get
  setActive (if c.activeSession = some session then c.sessions.keys.head? else c.activeSession)
  bumpRevision

/-! ## Windows -/

def createWindow (expectedRevision : UInt64) (session : SessionId) (name : String)
    (workingDirectory : PathBuf) (rng : RandomSource) : CatalogM WindowId := do
  expectRevision expectedRevision
  let c ← get
  ensure (c.totalPanes < maxTotalPanes) .capacityReached
  let name ← ofExcept (validatedName name)
  let directory ← ofExcept (validatedDirectory workingDirectory)
  let target ← getSession session
  ensure (target.windows.length < maxWindowsPerSession) .capacityReached
  let (windowId, rng) ← ofExcept (newId .window rng)
  let (paneId, _) ← ofExcept (newId .pane rng)
  putSession session
    { target with
      windows := target.windows ++
        [{ id := windowId
           name := name
           revision := 1
           root := .pane paneId
           focusedPane := paneId
           panes := .singleton paneId (.stopped paneId directory defaultRows defaultColumns) }]
      activeWindow := windowId
      revision := target.revision.satSucc }
  bumpRevision
  return windowId

def renameWindow (expectedRevision : UInt64) (session : SessionId) (window : WindowId)
    (name : String) : CatalogM Unit := do
  expectRevision expectedRevision
  let name ← ofExcept (validatedName name)
  let target ← getSession session
  let w ← okOr .windowNotFound (target.findWindow (·.id = window))
  commitWindow session target (·.id = window) { w with name := name }

def activateWindow (expectedRevision : UInt64) (session : SessionId) (window : WindowId) :
    CatalogM Unit := do
  expectRevision expectedRevision
  let target ← getSession session
  ensure (target.windows.any (·.id = window)) .windowNotFound
  putSession session { target with activeWindow := window, revision := target.revision.satSucc }
  bumpRevision

def duplicateWindow (expectedRevision : UInt64) (session : SessionId) (source : WindowId)
    (rng : RandomSource) : CatalogM WindowId := do
  expectRevision expectedRevision
  let totalPanes := (← get).totalPanes
  let target ← getSession session
  ensure (target.windows.length < maxWindowsPerSession) .capacityReached
  let source ← okOr .windowNotFound (target.findWindow (·.id = source))
  ensure (totalPanes + source.panes.length ≤ maxTotalPanes) .capacityReached
  let (windowId, rng) ← ofExcept (newId .window rng)
  let (ids, panes, _) ← ofExcept (copyPanes source.panes.values rng .empty .empty)
  let name ← ofExcept (validatedName (source.name ++ " copy"))
  let root ← ofExcept (source.root.remap ids)
  let focusedPane ← okOr .paneNotFound (ids.get? source.focusedPane)
  putSession session
    { target with
      windows := target.windows ++
        [{ id := windowId
           name := name
           revision := 1
           root := root
           focusedPane := focusedPane
           panes := panes }]
      activeWindow := windowId
      revision := target.revision.satSucc }
  bumpRevision
  return windowId

def closeWindow (expectedRevision : UInt64) (session : SessionId) (window : WindowId) :
    CatalogM Unit := do
  expectRevision expectedRevision
  let target ← getSession session
  let index ← okOr .windowNotFound (target.windows.findIdx? (·.id = window))
  let w ← orPanic target.windows[index]?
  ensure (w.hasLivePanes = false) .windowRunning
  ensure (target.windows.length ≠ 1) .lastWindow
  let target := { target with windows := target.windows.eraseIdx index }
  putSession session target
  -- The new active window is looked up after the removal.
  let target ← if target.activeWindow = window then do
      let next ← okOr .lastWindow (target.windows[index]?.or target.windows.getLast?)
      pure { target with activeWindow := next.id }
    else pure target
  putSession session { target with revision := target.revision.satSucc }
  bumpRevision

/-! ## Panes -/

def splitFocused (expectedRevision : UInt64) (session : SessionId) (axis : SplitAxis)
    (rng : RandomSource) : CatalogM PaneId := do
  expectRevision expectedRevision
  let c ← get
  ensure (c.totalPanes < maxTotalPanes) .capacityReached
  let target ← getSession session
  let w ← okOr .windowNotFound target.active
  ensure (w.panes.length < maxPanesPerWindow) .capacityReached
  let focused ← okOr .paneNotFound (w.panes.get? w.focusedPane)
  let (newPane, _) ← ofExcept (newId .pane rng)
  let (found, root) := w.root.splitLeaf w.focusedPane newPane axis
  ensure found .paneNotFound
  let panes := w.panes.insert newPane
    (.stopped newPane focused.workingDirectory focused.requestedRows focused.requestedColumns)
  ensure (root.validate panes) .layoutTooDeep
  commitWindow session target (·.id = target.activeWindow)
    { w with root := root, panes := panes, focusedPane := newPane }
  return newPane

def setFocusedSplitRatio (expectedRevision : UInt64) (session : SessionId)
    (ratioBasisPoints : UInt16) : CatalogM Unit := do
  expectRevision expectedRevision
  ensure (minSplitRatio ≤ ratioBasisPoints ∧ ratioBasisPoints ≤ maxSplitRatio) .invalidSplitRatio
  let target ← getSession session
  let w ← okOr .windowNotFound target.active
  let (found, root) := w.root.setParentRatio w.focusedPane ratioBasisPoints
  ensure found .noFocusedSplit
  commitWindow session target (·.id = target.activeWindow) { w with root := root }

def focusPane (expectedRevision : UInt64) (session : SessionId) (pane : PaneId) :
    CatalogM Unit := do
  expectRevision expectedRevision
  let target ← getSession session
  let w ← okOr .windowNotFound target.active
  ensure (w.root.contains pane ∧ w.panes.containsKey pane) .paneNotFound
  commitWindow session target (·.id = target.activeWindow) { w with focusedPane := pane }

def closePane (expectedRevision : UInt64) (session : SessionId) (pane : PaneId) :
    CatalogM Unit := do
  expectRevision expectedRevision
  let target ← getSession session
  let w ← okOr .paneNotFound (target.findWindow (·.panes.containsKey pane))
  let closing ← okOr .paneNotFound (w.panes.get? pane)
  ensure (closing.lifecycle.isLive = false) .paneRunning
  ensure (w.panes.length ≠ 1) .lastPane
  let root ← okOr .lastPane (w.root.remove pane)
  let w := { w with panes := w.panes.remove pane, root := root }
  putSession session (target.putWindow (·.panes.containsKey pane) w)
  -- The focus moves, and the window is validated, after the pane is gone.
  let w ← if w.focusedPane = pane then do
      let next ← okOr .lastPane w.panes.keys.head?
      pure { w with focusedPane := next }
    else pure w
  putSession session (target.putWindow (·.panes.containsKey pane) w)
  ensure w.validate .invalidLayout
  commitWindow session target (·.panes.containsKey pane) w

/-- Change one pane in place, with the revisions above it. -/
def updatePane (session : SessionId) (target : Session) (pane : PaneId) (w : SessionWindow)
    (p : SessionPane) : CatalogM Unit :=
  commitWindow session target (·.panes.containsKey pane) (w.putPane pane p)

def setPaneLifecycle (expectedRevision : UInt64) (session : SessionId) (pane : PaneId)
    (lifecycle : PaneLifecycle) : CatalogM Unit := do
  expectRevision expectedRevision
  let target ← getSession session
  let w ← okOr .paneNotFound (target.findWindow (·.panes.containsKey pane))
  let p ← okOr .paneNotFound (w.panes.get? pane)
  updatePane session target pane w { p with lifecycle := lifecycle }

def beginPaneGeneration (expectedRevision : UInt64) (session : SessionId) (pane : PaneId)
    (rows columns : UInt16) : CatalogM UInt64 := do
  expectRevision expectedRevision
  let target ← getSession session
  let w ← okOr .paneNotFound (target.findWindow (·.panes.containsKey pane))
  let p ← okOr .paneNotFound (w.panes.get? pane)
  ensure (rows ≠ 0 ∧ columns ≠ 0) .invalidCatalog
  let p := { p with
    requestedRows := rows
    requestedColumns := columns
    generation := p.generation.satSucc
    lifecycle := .starting }
  updatePane session target pane w p
  return p.generation

def setPaneSize (expectedRevision : UInt64) (session : SessionId) (pane : PaneId)
    (rows columns : UInt16) : CatalogM Unit := do
  expectRevision expectedRevision
  ensure (rows ≠ 0 ∧ columns ≠ 0) .invalidCatalog
  let target ← getSession session
  let w ← okOr .paneNotFound (target.findWindow (·.panes.containsKey pane))
  let p ← okOr .paneNotFound (w.panes.get? pane)
  updatePane session target pane w { p with requestedRows := rows, requestedColumns := columns }

/-- Whether the generation is the pane's current one; the lifecycle is written only then. -/
def setGenerationLifecycle (session : SessionId) (pane : PaneId) (generation : UInt64)
    (lifecycle : PaneLifecycle) : CatalogM Bool := do
  let target ← getSession session
  let w ← okOr .paneNotFound (target.findWindow (·.panes.containsKey pane))
  let p ← okOr .paneNotFound (w.panes.get? pane)
  if p.generation ≠ generation then return false
  else if p.lifecycle = lifecycle then return true
  else do
    updatePane session target pane w { p with lifecycle := lifecycle }
    return true

end SessionCatalog
end Strukt
