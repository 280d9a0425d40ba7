import Strukt.Persistence.Contribution

/-!
# The queue of the workspace's state

What the app persists is the state of the open workspace, with what each subsystem contributes to
it. A write and a refresh of the files are each one background job at a time: while either runs, the
state that is requested last waits in `persistencePending`, and a refresh that is requested waits in
`refreshPending`.

* **Jobs**: `refreshes` and `writes` are the jobs that were started and have not ended; `store` has
  what the writes left, the newest first.
* **Beside the code**: `requested` remembers every state whose persistence was requested, the
  newest first.
* **Environment**: what the subsystems contribute, whether a watcher could be started, and how each
  job ends are arguments of the messages. A discovery of files says here only whether it failed.
-/

namespace Strukt

/-- `set_contribution` of a payload, where it is encoded. -/
def WorkspaceState.setContribution (id : String) (payload : Option Json) (state : WorkspaceState) :
    WorkspaceState :=
  match payload with
  | none => state
  | some v => { state with contributions := state.contributions.insert id v }

end Strukt

namespace Strukt.App

/-- What the subsystems have for the state: the payloads that are valid and encoded. -/
structure Snapshots where
  shell : Option Json
  terminal : TerminalSessionSnapshot
  language : Option Json
  editor : Option Json

structure DiscoveryOptions where
  showHidden : Bool
  showIgnored : Bool
  deriving DecidableEq

/-- The background job that writes a state and the roots to remember. -/
structure PersistJob where
  generation : UInt64
  state : WorkspaceState
  recentRoots : List WorkspaceRoot

structure WorkspaceStore where
  /-- The states that were saved, the newest first. -/
  saved : List WorkspaceState
  recent : List PathBuf

structure PersistenceQueue where
  workspace : Option WorkspaceState
  explorerOptions : DiscoveryOptions
  terminalMigratedToSessions : Bool
  refreshGeneration : UInt64
  refreshInFlight : Option UInt64
  refreshPending : Bool
  persistenceGeneration : UInt64
  persistenceInFlight : Option (UInt64 × PathBuf)
  persistencePending : Option WorkspaceState
  pendingRecentRoots : List WorkspaceRoot
  activeRecentRoots : List WorkspaceRoot
  store : Option WorkspaceStore
  refreshes : List UInt64
  writes : List PersistJob
  requested : List WorkspaceState

inductive QueueMessage where
  /-- `WorkspaceOpened(Ok(..))`. -/
  | workspaceOpened (opened : WorkspaceState) (watched : Bool) (snapshots : Snapshots)
  /-- Another handler changes the open workspace, or moves its terminals into sessions. -/
  | workspaceChanged (explorer : ExplorerState) (staleFilesystem : Bool)
      (contributions : SortedMap String Json) (terminalMigrated : Bool)
  /-- `ToggleHiddenFiles` and `ToggleIgnoredFiles`, with the options they lead to. -/
  | toggleExplorer (options : DiscoveryOptions) (snapshots : Snapshots)
  /-- The messages that request persistence. -/
  | persist (snapshots : Snapshots)
  /-- The messages that request a refresh. -/
  | refresh
  /-- The refresh with the number ends. -/
  | filesRefreshed (index : Nat) (found : Bool)
  /-- The write with the number ends; `failure` is the step of it that fails. -/
  | workspacePersisted (index : Nat) (failure : Option Nat)

namespace WorkspaceStore

def save (store : WorkspaceStore) (state : WorkspaceState) : WorkspaceStore :=
  { store with saved := state :: store.saved }

def recordRecent (store : WorkspaceStore) (root : WorkspaceRoot) : WorkspaceStore :=
  { store with recent := (root.path :: store.recent.filter (· ≠ root.path)).take 20 }

/-- `persist_workspace_batch`: the state is saved, then each root is recorded. The steps before the
failing one take effect. -/
def persistBatch (store : WorkspaceStore) (state : WorkspaceState)
    (recentRoots : List WorkspaceRoot) : Option Nat → WorkspaceStore
  | none => recentRoots.foldl recordRecent (store.save state)
  | some 0 => store
  | some (n + 1) => (recentRoots.take n).foldl recordRecent (store.save state)

end WorkspaceStore

namespace PersistenceQueue

/-- The app before a workspace is opened. -/
def start : PersistenceQueue where
  workspace := none
  explorerOptions := ⟨false, false⟩
  terminalMigratedToSessions := false
  refreshGeneration := 0
  refreshInFlight := none
  refreshPending := false
  persistenceGeneration := 0
  persistenceInFlight := none
  persistencePending := none
  pendingRecentRoots := []
  activeRecentRoots := []
  store := some ⟨[], []⟩
  refreshes := []
  writes := []
  requested := []

def enqueueRecentRoot (q : PersistenceQueue) (root : WorkspaceRoot) : PersistenceQueue :=
  { q with pendingRecentRoots := q.pendingRecentRoots.filter (· ≠ root) ++ [root] }

def requeueRecentRoots (q : PersistenceQueue) (roots : List WorkspaceRoot) : PersistenceQueue :=
  { q with
    pendingRecentRoots := roots.reverse.foldl
      (fun pending root => root :: pending.filter (· ≠ root)) q.pendingRecentRoots }

def isCurrentRoot (q : PersistenceQueue) (root : PathBuf) : Bool :=
  q.workspace.any fun workspace => workspace.root.path = root

/-! ## Starting jobs -/

def startPersistence (q : PersistenceQueue) (state : WorkspaceState) : PersistenceQueue :=
  if q.store.isNone then q
  else
    let generation := q.persistenceGeneration + 1
    { q with
      persistenceGeneration := generation
      pendingRecentRoots := []
      activeRecentRoots := q.pendingRecentRoots
      persistenceInFlight := some (generation, state.root.path)
      writes := q.writes ++ [⟨generation, state, q.pendingRecentRoots⟩] }

/-- The state with what the subsystems contribute to it. -/
def contribute (q : PersistenceQueue) (snapshots : Snapshots) (state : WorkspaceState) :
    WorkspaceState :=
  let state := state.setContribution shellContributionId snapshots.shell
  let state :=
    if q.terminalMigratedToSessions then state
    else (setTerminalContribution state snapshots.terminal).toOption.getD state
  let state := state.setContribution languageContributionId snapshots.language
  state.setContribution "editor" snapshots.editor

/-- The state waits while a job is in flight, in the place of one that waits already. -/
def enqueueState (q : PersistenceQueue) (state : WorkspaceState) : PersistenceQueue :=
  if q.persistenceInFlight.isSome ∨ q.refreshInFlight.isSome then
    { q with persistencePending := some state }
  else q.startPersistence state

def requestPersistence (q : PersistenceQueue) (recordRecent : Bool) (snapshots : Snapshots) :
    PersistenceQueue :=
  match q.workspace with
  | none => q
  | some workspace =>
    let state := q.contribute snapshots workspace
    let q := { q with workspace := some state, requested := state :: q.requested }
    (if recordRecent then q.enqueueRecentRoot state.root else q).enqueueState state

def startFileRefresh (q : PersistenceQueue) : PersistenceQueue :=
  match q.workspace with
  | none => q
  | some _ =>
    { q with
      refreshInFlight := some q.refreshGeneration
      refreshes := q.refreshes ++ [q.refreshGeneration] }

def requestFileRefresh (q : PersistenceQueue) : PersistenceQueue :=
  let q := { q with refreshGeneration := q.refreshGeneration + 1 }
  match q.workspace with
  | none => q
  | some workspace =>
    let explorer :=
      { workspace.explorer with
        showHidden := q.explorerOptions.showHidden
        showIgnored := q.explorerOptions.showIgnored }
    let q := { q with workspace := some { workspace with explorer := explorer } }
    if q.refreshInFlight.isSome then { q with refreshPending := true } else q.startFileRefresh

/-! ## Messages -/

/-- The state has a valid session contribution. -/
def hasSession (state : WorkspaceState) : Bool :=
  match sessionContribution state with
  | .ok (some _) => true
  | _ => false

def workspaceOpened (q : PersistenceQueue) (opened : WorkspaceState) (watched : Bool)
    (snapshots : Snapshots) : PersistenceQueue :=
  let q :=
    { q with
      workspace := some { opened with staleFilesystem := !watched }
      explorerOptions := ⟨opened.explorer.showHidden, opened.explorer.showIgnored⟩
      terminalMigratedToSessions := hasSession opened
      refreshGeneration := q.refreshGeneration + 1
      refreshPending := false }
  (q.requestPersistence true snapshots).requestFileRefresh

/-- The state that waits is written, unless a write is in flight. -/
def releasePending (q : PersistenceQueue) : PersistenceQueue :=
  match q.persistencePending with
  | none => q
  | some state => { q with persistencePending := none }.startPersistence state

def markFresh (state : WorkspaceState) : WorkspaceState := { state with staleFilesystem := false }

/-- `Message::FilesRefreshed`. -/
def filesRefreshed (q : PersistenceQueue) (generation : UInt64) (found : Bool) :
    PersistenceQueue :=
  if q.refreshInFlight ≠ some generation then q
  else
    let fresh := found ∧ generation = q.refreshGeneration
    let q :=
      { q with
        refreshInFlight := none
        workspace := if fresh then q.workspace.map markFresh else q.workspace }
    if q.refreshPending then { q with refreshPending := false }.startFileRefresh
    else if q.persistenceInFlight.isNone then q.releasePending
    else q

/-- `Message::WorkspacePersisted`. -/
def workspacePersisted (q : PersistenceQueue) (job : PersistJob) (failed : Bool) :
    PersistenceQueue :=
  if q.persistenceInFlight ≠ some (job.generation, job.state.root.path) ∨
      q.activeRecentRoots ≠ job.recentRoots then q
  else
    let q := { q with persistenceInFlight := none, activeRecentRoots := [] }
    (if failed then q.requeueRecentRoots job.recentRoots else q).releasePending

/-- What the job leaves in the store. -/
def finishWrite (q : PersistenceQueue) (index : Nat) (job : PersistJob) (failure : Option Nat) :
    PersistenceQueue :=
  { q with
    writes := q.writes.eraseIdx index
    store := q.store.map (·.persistBatch job.state job.recentRoots failure) }

def step (q : PersistenceQueue) : QueueMessage → Option PersistenceQueue
  | .workspaceOpened opened watched snapshots => some (q.workspaceOpened opened watched snapshots)
  | .workspaceChanged explorer staleFilesystem contributions terminalMigrated =>
    some
      { q with
        workspace := q.workspace.map fun workspace =>
          ⟨workspace.root, explorer, staleFilesystem, contributions⟩
        terminalMigratedToSessions := terminalMigrated }
  | .toggleExplorer options snapshots =>
    if q.workspace.isNone then some q
    else
      some ({ q with explorerOptions := options }.requestFileRefresh.requestPersistence false
        snapshots)
  | .persist snapshots => some (q.requestPersistence false snapshots)
  | .refresh => some q.requestFileRefresh
  | .filesRefreshed index found =>
    q.refreshes[index]?.map fun generation =>
      { q with refreshes := q.refreshes.eraseIdx index }.filesRefreshed generation found
  | .workspacePersisted index failure =>
    q.writes[index]?.map fun job =>
      (q.finishWrite index job failure).workspacePersisted job failure.isSome

end PersistenceQueue
end Strukt.App
