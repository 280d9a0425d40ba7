import Strukt.App.PersistenceQueue
import Strukt.Lib.Runs

/-!
# No state is lost

What the app still has to write, what it is writing and what it wrote (`outstanding`) has, for each
workspace, the state first whose persistence was requested last. A completion moves states along
`outstanding` and changes nothing else in it, and completions lead to a state in which nothing waits
or runs (`settles`): there the stored states are what `outstanding` says.

* **Runs** (`persistence_law`): every state is written in the end exactly in the runs where no
  workspace is opened while another one's state waits.
* **A state that is lost** (`hidden_files_lost`): a workspace that is opened while the first write is
  under way takes the place of the state that waits.
-/

namespace Strukt.App

namespace QueueMessage

/-- A job ends, and its writes succeed. -/
def IsCompletion : QueueMessage → Prop
  | .filesRefreshed _ _ => True
  | .workspacePersisted _ failure => failure = none
  | _ => False

def Succeeds : QueueMessage → Prop
  | .workspacePersisted _ failure => failure = none
  | _ => True

end QueueMessage

namespace PersistenceQueue

/-- The last state in the list, newest first, of the workspace. -/
def stateOf (id : WorkspaceId) (states : List WorkspaceState) : Option WorkspaceState :=
  states.find? (·.root.id = id)

def savedStates (q : PersistenceQueue) : List WorkspaceState := q.store.elim [] (·.saved)

/-- The states that wait, are written and were written, the newest first. -/
def outstanding (q : PersistenceQueue) : List WorkspaceState :=
  q.persistencePending.toList ++ q.writes.map (·.state) ++ q.savedStates

/-- Nothing waits and nothing is in flight. -/
structure Idle (q : PersistenceQueue) : Prop where
  pending : q.persistencePending = none
  writes : q.writes = []
  refreshes : q.refreshes = []

/-- A state that waits has a job to wait for, writes come one at a time, and whenever the jobs have
ended, each workspace has the state that was requested last. -/
structure Kept (q : PersistenceQueue) : Prop where
  flight : q.persistencePending.isSome → q.refreshes ≠ [] ∨ q.writes ≠ []
  single : q.writes.length ≤ 1
  written : ∀ (completions : List QueueMessage) (q' : PersistenceQueue),
    (∀ c ∈ completions, c.IsCompletion) → completions.foldlM step q = some q' → q'.Idle →
    ∀ id, stateOf id q'.savedStates = stateOf id q'.requested

/-- The message leads to a state in which nothing is lost. -/
def Keeps (q : PersistenceQueue) (m : QueueMessage) : Prop := ∀ q', q.step m = some q' → q'.Kept

/-- The workspace is the one whose state waits, or what waits is being written or was written. -/
def OverwritesNothing (q : PersistenceQueue) (opened : WorkspaceState) : Prop :=
  ∀ state, q.persistencePending = some state → state.root.id ≠ opened.root.id →
    stateOf state.root.id (q.writes.map (·.state) ++ q.savedStates) = some state

/-- No workspace is opened in place of the state that another one waits with. -/
def Careful (q : PersistenceQueue) : QueueMessage → Prop
  | .workspaceOpened opened _ _ => q.OverwritesNothing opened
  | _ => True

/-! ## The invariant of the queue -/

/-- The markers agree with the jobs. -/
structure Gated (q : PersistenceQueue) : Prop where
  store : q.store.isSome
  refreshes : q.refreshes = q.refreshInFlight.toList
  writes : q.writes = [] ∧ q.persistenceInFlight = none ∨
    ∃ job, q.writes = [job] ∧
      q.persistenceInFlight = some (job.generation, job.state.root.path) ∧
      q.activeRecentRoots = job.recentRoots

/-- A state waits only while a job is in flight. -/
def Waits (q : PersistenceQueue) : Prop :=
  q.persistencePending.isSome → q.refreshInFlight.isSome ∨ q.persistenceInFlight.isSome

/-- What waits is a state of the open workspace, and waits for a job. -/
structure Steady (q : PersistenceQueue) : Prop extends Gated q where
  waits : q.Waits
  current : ∀ state, q.persistencePending = some state →
    ∃ workspace, q.workspace = some workspace ∧ workspace.root = state.root

/-- For each workspace the state that was requested last is outstanding. -/
def Accounted (q : PersistenceQueue) : Prop :=
  ∀ id, stateOf id q.outstanding = stateOf id q.requested

variable {q q' : PersistenceQueue} {m : QueueMessage} {state : WorkspaceState}

theorem steady_start : start.Steady where
  store := rfl
  refreshes := rfl
  writes := .inl ⟨rfl, rfl⟩
  waits h := absurd h (by decide)
  current _ h := absurd h (by simp [start])

namespace Gated

theorem inFlight_of_writes (h : q.Gated) (hw : q.writes = []) : q.persistenceInFlight = none := by
  obtain ⟨-, hf⟩ | ⟨job, hj, -⟩ := h.writes
  · exact hf
  · rw [hw] at hj
    cases hj

theorem writes_of_inFlight (h : q.Gated) (hf : q.persistenceInFlight = none) : q.writes = [] := by
  obtain ⟨hw, -⟩ | ⟨job, -, hj, -⟩ := h.writes
  · exact hw
  · rw [hf] at hj
    cases hj

theorem single (h : q.Gated) : q.writes.length ≤ 1 := by
  obtain ⟨hw, -⟩ | ⟨job, hw, -⟩ := h.writes <;> rw [hw] <;> simp

end Gated

theorem Steady.flight (h : q.Steady) (hp : q.persistencePending.isSome) :
    q.refreshes ≠ [] ∨ q.writes ≠ [] := by
  obtain hr | hf := h.waits hp
  · left
    obtain ⟨generation, hg⟩ := Option.isSome_iff_exists.mp hr
    rw [h.refreshes, hg]
    simp
  · right
    intro hw
    rw [h.inFlight_of_writes hw] at hf
    cases hf

/-! ## What a request changes -/

theorem contribute_root (q : PersistenceQueue) (snapshots : Snapshots) (state : WorkspaceState) :
    (q.contribute snapshots state).root = state.root := by
  have hc : ∀ id payload (state : WorkspaceState),
      (state.setContribution id payload).root = state.root := by
    intro id payload state
    cases payload <;> rfl
  have ht : ∀ (state : WorkspaceState) (snapshot : TerminalSessionSnapshot),
      ((setTerminalContribution state snapshot).toOption.getD state).root = state.root := by
    intro state snapshot
    unfold setTerminalContribution
    cases snapshot.toJson <;> rfl
  unfold contribute
  simp only [hc]
  split
  · exact hc _ _ _
  · rw [ht, hc]

theorem startPersistence_eq (hs : q.store.isSome) : q.startPersistence state =
    { q with
      persistenceGeneration := q.persistenceGeneration + 1
      pendingRecentRoots := []
      activeRecentRoots := q.pendingRecentRoots
      persistenceInFlight := some (q.persistenceGeneration + 1, state.root.path)
      writes := q.writes ++ [⟨q.persistenceGeneration + 1, state, q.pendingRecentRoots⟩] } := by
  obtain ⟨store, hs⟩ := Option.isSome_iff_exists.mp hs
  unfold startPersistence
  simp only [hs, Option.isNone_some, Bool.false_eq_true, if_false]

/-- A write that is started where none is in flight and nothing waits. -/
theorem startPersistence_spec (h : q.Gated) (hf : q.persistenceInFlight = none)
    (hp : q.persistencePending = none) (state : WorkspaceState) :
    (q.startPersistence state).Steady ∧
      (q.startPersistence state).outstanding = state :: q.outstanding ∧
      (q.startPersistence state).requested = q.requested := by
  have hw := h.writes_of_inFlight hf
  rw [startPersistence_eq h.store]
  refine ⟨⟨⟨h.store, h.refreshes, .inr ⟨_, by rw [hw]; rfl, rfl, rfl⟩⟩, fun hs => ?_,
    fun _ hs => ?_⟩, ?_, rfl⟩
  · rw [hp] at hs
    cases hs
  · rw [hp] at hs
    cases hs
  · simp [outstanding, savedStates, hw, hp]

/-- A request puts the open workspace's state first, in place of the one that waits. -/
theorem requestPersistence_spec (h : q.Gated) (hp : q.Waits) (recordRecent : Bool) (snapshots : Snapshots)
    {workspace : WorkspaceState} (hw : q.workspace = some workspace) :
    ∃ state, state.root = workspace.root ∧
      (q.requestPersistence recordRecent snapshots).Steady ∧
      (q.requestPersistence recordRecent snapshots).outstanding =
        state :: (q.writes.map (·.state) ++ q.savedStates) ∧
      (q.requestPersistence recordRecent snapshots).requested = state :: q.requested := by
  refine ⟨q.contribute snapshots workspace, q.contribute_root snapshots workspace, ?_⟩
  have hroot := q.contribute_root snapshots workspace
  generalize hst : q.contribute snapshots workspace = state at hroot ⊢
  have hq : ∃ q₁ : PersistenceQueue,
      q.requestPersistence recordRecent snapshots = q₁.enqueueState state ∧ q₁.Gated ∧
        q₁.Waits ∧ q₁.workspace = some state ∧ q₁.persistencePending = q.persistencePending ∧
        q₁.writes = q.writes ∧ q₁.savedStates = q.savedStates ∧
        q₁.requested = state :: q.requested := by
    unfold requestPersistence
    simp only [hw, hst]
    cases recordRecent with
    | true => exact ⟨_, rfl, ⟨h.store, h.refreshes, h.writes⟩, hp, rfl, rfl, rfl, rfl, rfl⟩
    | false => exact ⟨_, rfl, ⟨h.store, h.refreshes, h.writes⟩, hp, rfl, rfl, rfl, rfl, rfl⟩
  obtain ⟨q₁, he, hg, hwt, hw₁, hp₁, hwr₁, hs₁, hr₁⟩ := hq
  rw [he]
  unfold enqueueState
  by_cases hf : q₁.persistenceInFlight.isSome ∨ q₁.refreshInFlight.isSome
  · rw [if_pos hf]
    refine ⟨⟨⟨hg.store, hg.refreshes, hg.writes⟩, fun _ => hf.symm, ?_⟩, ?_, hr₁⟩
    · rintro s ⟨⟩
      exact ⟨state, hw₁, rfl⟩
    · rw [← hwr₁, ← hs₁]
      rfl
  · rw [if_neg hf]
    obtain ⟨hfp, hfr⟩ := not_or.mp hf
    have hpn : q₁.persistencePending = none := by
      by_contra hne
      exact hf (hwt (Option.isSome_iff_ne_none.mpr hne)).symm
    have hfn : q₁.persistenceInFlight = none := Option.not_isSome_iff_eq_none.mp hfp
    obtain ⟨hst', ho, hrq⟩ := startPersistence_spec hg hfn hpn state
    refine ⟨hst', ?_, hrq.trans hr₁⟩
    rw [ho, ← hwr₁, ← hs₁]
    simp [outstanding, hpn]

/-- What a request of a refresh and a started one leave. -/
structure Same (q q' : PersistenceQueue) : Prop where
  steady : q'.Steady
  outstanding : q'.outstanding = q.outstanding
  requested : q'.requested = q.requested

theorem startFileRefresh_spec (h : q.Steady) (hf : q.refreshInFlight = none) :
    q.Same q.startFileRefresh := by
  unfold startFileRefresh
  cases hw : q.workspace with
  | none => exact ⟨h, rfl, rfl⟩
  | some workspace =>
    refine ⟨⟨⟨h.store, ?_, h.writes⟩, fun _ => .inl rfl, ?_⟩, rfl, rfl⟩
    · simp [h.refreshes, hf]
    · intro s hs
      obtain ⟨w, hw', hr⟩ := h.current s hs
      exact ⟨w, hw.symm.trans hw', hr⟩

theorem requestFileRefresh_spec (h : q.Steady) : q.Same q.requestFileRefresh := by
  unfold requestFileRefresh
  cases hw : q.workspace with
  | none =>
    refine ⟨⟨⟨h.store, h.refreshes, h.writes⟩, h.waits, fun s hs => ?_⟩, rfl, rfl⟩
    obtain ⟨w, hw', hr⟩ := h.current s hs
    exact ⟨w, hw.symm.trans hw', hr⟩
  | some workspace =>
    simp only
    have hc : ∀ s, q.persistencePending = some s → workspace.root = s.root := by
      intro s hs
      obtain ⟨w, hw', hr⟩ := h.current s hs
      rw [hw] at hw'
      cases hw'
      exact hr
    split
    · exact ⟨⟨⟨h.store, h.refreshes, h.writes⟩, h.waits, fun s hs => ⟨_, rfl, hc s hs⟩⟩, rfl, rfl⟩
    · next hf =>
      have hs := startFileRefresh_spec (q :=
        { q with
          refreshGeneration := q.refreshGeneration + 1
          workspace := some
            { workspace with
              explorer :=
                { workspace.explorer with
                  showHidden := q.explorerOptions.showHidden
                  showIgnored := q.explorerOptions.showIgnored } } })
        ⟨⟨h.store, h.refreshes, h.writes⟩, h.waits, fun s hs => ⟨_, rfl, hc s hs⟩⟩
        (Option.not_isSome_iff_eq_none.mp hf)
      exact ⟨hs.steady, hs.outstanding, hs.requested⟩

/-! ## Completions -/

/-- How much there is to end: a state that waits is written by a job that ends after it. -/
def workload (q : PersistenceQueue) : Nat :=
  q.refreshes.length + q.refreshPending.toNat + 2 * q.persistencePending.toList.length +
    q.writes.length

/-- A completion leaves the outstanding states as they are, and less to end. -/
structure Ends (q q' : PersistenceQueue) : Prop extends Same q q' where
  workload : q'.workload < q.workload

/-- The state that waits is written, where no write is in flight. -/
theorem releasePending_spec (h : q.Gated) (hf : q.persistenceInFlight = none) :
    q.Same q.releasePending ∧ q.releasePending.workload ≤ q.workload := by
  unfold releasePending
  cases hp : q.persistencePending with
  | none =>
    refine ⟨⟨⟨h, fun hs => ?_, fun s hs => ?_⟩, rfl, rfl⟩, le_rfl⟩
    · rw [hp] at hs
      cases hs
    · rw [hp] at hs
      cases hs
  | some state =>
    have hg : ({ q with persistencePending := none } : PersistenceQueue).Gated :=
      ⟨h.store, h.refreshes, h.writes⟩
    obtain ⟨hs, ho, hr⟩ := startPersistence_spec hg hf rfl state
    have hw := h.writes_of_inFlight hf
    refine ⟨⟨hs, ?_, hr⟩, ?_⟩
    · simpa [outstanding, savedStates, hw, hp] using ho
    · simp only
      rw [startPersistence_eq hg.store]
      simp [workload, hp]
      omega

theorem filesRefreshed_ends (h : q.Steady) {generation : UInt64}
    (hf : q.refreshInFlight = some generation) (found : Bool) :
    q.Ends ({ q with refreshes := [] }.filesRefreshed generation found) := by
  have hl : q.refreshes.length = 1 := by rw [h.refreshes, hf]; rfl
  unfold filesRefreshed
  simp only [hf, ne_eq, not_true, if_false]
  generalize hws : (if (found = true ∧ generation = q.refreshGeneration) then
    q.workspace.map markFresh else q.workspace) = workspace
  have hc : ∀ s, q.persistencePending = some s →
      ∃ w, workspace = some w ∧ w.root = s.root := by
    intro s hs
    obtain ⟨w, hw, hr⟩ := h.current s hs
    rw [← hws, hw]
    split
    · exact ⟨_, rfl, hr⟩
    · exact ⟨_, rfl, hr⟩
  by_cases hr : q.refreshPending
  · -- The refresh that waits is started, and the state that waits goes on waiting.
    simp only [hr, if_true]
    unfold startFileRefresh
    cases workspace with
    | none =>
      have hp : q.persistencePending = none := by
        by_contra hne
        obtain ⟨s, hs⟩ := Option.ne_none_iff_exists'.mp hne
        obtain ⟨w, hw, -⟩ := hc s hs
        cases hw
      refine ⟨⟨⟨⟨h.store, rfl, h.writes⟩, fun hs => ?_, fun s hs => ?_⟩, rfl, rfl⟩, ?_⟩
      · simp only [hp] at hs
        cases hs
      · simp only [hp] at hs
        cases hs
      · simp [workload, hl, hr]
    | some w =>
      refine ⟨⟨⟨⟨h.store, rfl, h.writes⟩, fun _ => .inl rfl, hc⟩, rfl, rfl⟩, ?_⟩
      simp [workload, hl, hr]
  · rw [if_neg hr]
    by_cases hp : q.persistenceInFlight.isNone
    · rw [if_pos hp]
      obtain ⟨hs, hl'⟩ := releasePending_spec (q :=
        { q with refreshes := [], refreshInFlight := none, workspace := workspace })
        ⟨h.store, rfl, h.writes⟩ (Option.isNone_iff_eq_none.mp hp)
      refine ⟨⟨hs.steady, hs.outstanding, hs.requested⟩, ?_⟩
      simp [workload, hl] at hl' ⊢
      omega
    · rw [if_neg hp]
      have hp' : q.persistenceInFlight.isSome := by
        rw [Option.isSome_iff_ne_none]
        simpa using hp
      refine ⟨⟨⟨⟨h.store, rfl, h.writes⟩, fun _ => .inr hp', hc⟩, rfl, rfl⟩, ?_⟩
      simp [workload, hl]

theorem workspacePersisted_ends (h : q.Steady) {job : PersistJob} (hw : q.writes = [job]) :
    q.Ends ((q.finishWrite 0 job none).workspacePersisted job false) := by
  obtain ⟨hn, -⟩ | ⟨j, hj, hf, ha⟩ := h.writes
  · rw [hw] at hn
    cases hn
  obtain rfl : job = j := by simpa [hw] using hj
  obtain ⟨store, hst⟩ := Option.isSome_iff_exists.mp h.store
  have hsaved : ∀ (roots : List WorkspaceRoot) (s : WorkspaceStore),
      (roots.foldl WorkspaceStore.recordRecent s).saved = s.saved := by
    intro roots
    induction roots with
    | nil => exact fun _ => rfl
    | cons root roots ih => exact fun s => ih _
  unfold workspacePersisted finishWrite
  simp only [hf, ha, ne_eq, not_true, or_false, if_false, Bool.false_eq_true]
  obtain ⟨hs, hl⟩ := releasePending_spec (q :=
    { q with
      writes := q.writes.eraseIdx 0
      store := q.store.map (·.persistBatch job.state job.recentRoots none)
      persistenceInFlight := none
      activeRecentRoots := [] })
    ⟨by simp [hst], h.refreshes, .inl ⟨by simp [hw], rfl⟩⟩ rfl
  refine ⟨⟨hs.steady, hs.outstanding.trans ?_, hs.requested⟩, ?_⟩
  · simp [outstanding, savedStates, hw, hst, WorkspaceStore.persistBatch, hsaved,
      WorkspaceStore.save]
  · simp [workload, hw] at hl ⊢
    omega

theorem completion_ends (h : q.Steady) (hm : m.IsCompletion) (hs : q.step m = some q') :
    q.Ends q' := by
  cases m with
  | filesRefreshed index found =>
    obtain ⟨generation, hg, rfl⟩ := Option.map_eq_some_iff.mp hs
    have hf : q.refreshInFlight.isSome := by
      rw [Option.isSome_iff_ne_none]
      intro hn
      simp [h.refreshes, hn] at hg
    obtain ⟨g, hf⟩ := Option.isSome_iff_exists.mp hf
    have hr : q.refreshes = [g] := by rw [h.refreshes, hf]; rfl
    obtain ⟨rfl, rfl⟩ : index = 0 ∧ g = generation := by
      simpa [hr, List.getElem?_singleton] using hg
    have he : q.refreshes.eraseIdx 0 = [] := by rw [hr]; rfl
    rw [he]
    exact filesRefreshed_ends h hf found
  | workspacePersisted index failure =>
    obtain rfl : failure = none := hm
    obtain ⟨job, hj, rfl⟩ := Option.map_eq_some_iff.mp hs
    obtain ⟨hn, -⟩ | ⟨j, hw, -⟩ := h.writes
    · simp [hn] at hj
    · obtain ⟨rfl, rfl⟩ : index = 0 ∧ j = job := by
        simpa [hw, List.getElem?_singleton] using hj
      exact workspacePersisted_ends h hw
  | _ => exact hm.elim

theorem completions_end {completions : List QueueMessage} (h : q.Steady)
    (hc : ∀ c ∈ completions, c.IsCompletion) (hr : completions.foldlM step q = some q') :
    q.Same q' := by
  refine foldlM_keeps (I := q.Same) ⟨h, rfl, rfl⟩ ?_ hr
  intro q₁ c q₂ hmem hs hstep
  have he := completion_ends hs.steady (hc c hmem) hstep
  exact ⟨he.steady, he.outstanding.trans hs.outstanding, he.requested.trans hs.requested⟩

/-- There is a completion to deliver unless nothing waits or runs. -/
theorem completion_exists (h : q.Steady) (hi : ¬q.Idle) :
    ∃ m q', m.IsCompletion ∧ q.step m = some q' := by
  have hne : q.refreshes ≠ [] ∨ q.writes ≠ [] := by
    by_contra hn
    obtain ⟨hr, hw⟩ := not_or.mp hn
    refine hi ⟨?_, not_not.mp hw, not_not.mp hr⟩
    by_contra hp
    exact hn (h.flight (Option.isSome_iff_ne_none.mpr hp))
  obtain hr | hw := hne
  · obtain ⟨g, gs, hg⟩ := List.exists_cons_of_ne_nil hr
    exact ⟨.filesRefreshed 0 true, _, trivial, by simp only [step, hg]; rfl⟩
  · obtain ⟨j, js, hj⟩ := List.exists_cons_of_ne_nil hw
    exact ⟨.workspacePersisted 0 none, _, rfl, by simp only [step, hj]; rfl⟩

/-- Completions lead to a state in which nothing waits or runs. -/
theorem settles (h : q.Steady) : ∃ (completions : List QueueMessage) (q' : PersistenceQueue),
    (∀ c ∈ completions, c.IsCompletion) ∧ completions.foldlM step q = some q' ∧ q'.Idle := by
  induction hn : q.workload using Nat.strong_induction_on generalizing q with
  | _ n ih =>
    by_cases hi : q.Idle
    · exact ⟨[], q, fun _ hc => absurd hc List.not_mem_nil, rfl, hi⟩
    · obtain ⟨m, q₁, hm, hs⟩ := completion_exists h hi
      have he := completion_ends h hm hs
      obtain ⟨cs, q', hcs, hr, hq⟩ := ih _ (hn ▸ he.workload) he.steady rfl
      refine ⟨m :: cs, q', ?_, ?_, hq⟩
      · intro c hc
        obtain rfl | hc := List.mem_cons.mp hc
        · exact hm
        · exact hcs c hc
      · rw [List.foldlM_cons, hs]
        exact hr

theorem Idle.outstanding_eq (h : q.Idle) : q.outstanding = q.savedStates := by
  simp [outstanding, h.pending, h.writes]

/-- Nothing is lost exactly where what is outstanding accounts for what was requested. -/
theorem kept_iff (h : q.Steady) : q.Kept ↔ q.Accounted := by
  constructor
  · intro hk id
    obtain ⟨cs, q', hcs, hr, hi⟩ := settles h
    have hs := completions_end h hcs hr
    have hw := hk.written cs q' hcs hr hi id
    rwa [← hi.outstanding_eq, hs.outstanding, hs.requested] at hw
  · intro ha
    refine ⟨h.flight, h.single, fun cs q' hcs hr hi id => ?_⟩
    have hs := completions_end h hcs hr
    rw [← hi.outstanding_eq, hs.outstanding, hs.requested]
    exact ha id

/-! ## Messages -/

theorem stateOf_cons (id : WorkspaceId) (state : WorkspaceState) (states : List WorkspaceState) :
    stateOf id (state :: states) =
      if state.root.id = id then some state else stateOf id states := by
  unfold stateOf
  by_cases h : state.root.id = id <;> simp [h]

/-- A request accounts for every state exactly when it takes the place of no other workspace's. -/
theorem accounted_iff (ha : q.Accounted) (opened : WorkspaceState) (hroot : state.root = opened.root)
    (ho : q'.outstanding = state :: (q.writes.map (·.state) ++ q.savedStates))
    (hr : q'.requested = state :: q.requested) : q'.Accounted ↔ q.OverwritesNothing opened := by
  constructor
  · intro hA waiting hp hne
    have hid : state.root.id ≠ waiting.root.id := by rw [hroot]; exact hne.symm
    have h := hA waiting.root.id
    rw [ho, hr, stateOf_cons, stateOf_cons, if_neg hid, if_neg hid, ← ha] at h
    rw [h]
    simp [outstanding, hp, stateOf_cons]
  · intro hO id
    rw [ho, hr, stateOf_cons, stateOf_cons]
    by_cases hid : state.root.id = id
    · rw [if_pos hid, if_pos hid]
    · rw [if_neg hid, if_neg hid, ← ha]
      cases hp : q.persistencePending with
      | none => simp [outstanding, hp]
      | some waiting =>
        have hout : q.outstanding = waiting :: (q.writes.map (·.state) ++ q.savedStates) := by
          simp [outstanding, hp]
        rw [hout, stateOf_cons]
        split
        · next hw =>
          subst hw
          exact hO waiting hp fun he => hid (by rw [hroot, he])
        · rfl

/-- A request for the open workspace. -/
theorem request_spec (h : q.Steady) (snapshots : Snapshots) :
    (q.requestPersistence false snapshots).Steady ∧
      (q.Accounted → (q.requestPersistence false snapshots).Accounted) := by
  cases hw : q.workspace with
  | none =>
    have hq : q.requestPersistence false snapshots = q := by
      unfold requestPersistence
      simp only [hw]
    rw [hq]
    exact ⟨h, id⟩
  | some workspace =>
    obtain ⟨state, hroot, hs, ho, hr⟩ := requestPersistence_spec h.toGated h.waits false snapshots hw
    refine ⟨hs, fun ha => (accounted_iff ha _ hroot ho hr).mpr fun waiting hp hne => ?_⟩
    obtain ⟨w, hw', he⟩ := h.current waiting hp
    rw [hw] at hw'
    cases hw'
    exact absurd (congrArg (·.id) he.symm) hne

theorem Same.accounted (h : q.Same q') : q'.Accounted ↔ q.Accounted := by
  unfold Accounted
  rw [h.outstanding, h.requested]

theorem workspaceOpened_spec (h : q.Steady) (opened : WorkspaceState) (watched : Bool)
    (snapshots : Snapshots) :
    (q.workspaceOpened opened watched snapshots).Steady ∧
      (q.Accounted →
        ((q.workspaceOpened opened watched snapshots).Accounted ↔ q.OverwritesNothing opened)) := by
  unfold workspaceOpened
  obtain ⟨state, hroot, hs, ho, hr⟩ := requestPersistence_spec (q :=
    { q with
      workspace := some { opened with staleFilesystem := !watched }
      explorerOptions := ⟨opened.explorer.showHidden, opened.explorer.showIgnored⟩
      terminalMigratedToSessions := hasSession opened
      refreshGeneration := q.refreshGeneration + 1
      refreshPending := false }) ⟨h.store, h.refreshes, h.writes⟩ h.waits true snapshots rfl
  have hsame := requestFileRefresh_spec hs
  exact ⟨hsame.steady, fun ha =>
    hsame.accounted.trans (accounted_iff ha opened hroot ho hr)⟩

/-- What one message does to the invariant, and when it loses nothing. -/
theorem step_spec (h : q.Steady) (hm : m.Succeeds) (hs : q.step m = some q') :
    q'.Steady ∧ (q.Accounted → (q'.Accounted ↔ q.Careful m)) := by
  have keep (hq : q'.Steady ∧ (q.Accounted → q'.Accounted)) (hc : q.Careful m) :
      q'.Steady ∧ (q.Accounted → (q'.Accounted ↔ q.Careful m)) :=
    ⟨hq.1, fun ha => ⟨fun _ => hc, fun _ => hq.2 ha⟩⟩
  cases m with
  | workspaceOpened opened watched snapshots =>
    cases hs
    exact workspaceOpened_spec h opened watched snapshots
  | workspaceChanged explorer staleFilesystem contributions terminalMigrated =>
    cases hs
    refine keep ⟨⟨⟨h.store, h.refreshes, h.writes⟩, h.waits, fun s hs => ?_⟩, id⟩ trivial
    obtain ⟨w, hw, hr⟩ := h.current s hs
    exact ⟨⟨w.root, explorer, staleFilesystem, contributions⟩, by simp only [hw, Option.map_some],
      hr⟩
  | toggleExplorer options snapshots =>
    simp only [step] at hs
    split at hs
    · cases hs
      exact keep ⟨h, id⟩ trivial
    · cases hs
      have hsame := requestFileRefresh_spec (q := { q with explorerOptions := options })
        ⟨⟨h.store, h.refreshes, h.writes⟩, h.waits, h.current⟩
      obtain ⟨hs, ha⟩ := request_spec hsame.steady snapshots
      exact keep ⟨hs, fun hq => ha (hsame.accounted.mpr hq)⟩ trivial
  | persist snapshots =>
    cases hs
    exact keep (request_spec h snapshots) trivial
  | refresh =>
    cases hs
    have hsame := requestFileRefresh_spec h
    exact keep ⟨hsame.steady, hsame.accounted.mpr⟩ trivial
  | filesRefreshed index found =>
    have he := completion_ends h (m := .filesRefreshed index found) trivial hs
    exact keep ⟨he.steady, he.toSame.accounted.mpr⟩ trivial
  | workspacePersisted index failure =>
    have he := completion_ends h (m := .workspacePersisted index failure) hm hs
    exact keep ⟨he.steady, he.toSame.accounted.mpr⟩ trivial

/-- Every state that is requested is written in the end exactly in the runs where no workspace is
opened in place of the state that another one waits with. -/
theorem persistence_law (messages : List QueueMessage) (hm : ∀ m ∈ messages, m.Succeeds) :
    Along step Keeps messages start ↔ Along step Careful messages start := by
  refine along_iff_of_mem (I := fun q => q.Steady ∧ q.Accounted)
    ⟨steady_start, fun _ => rfl⟩ ?_ ?_
  · intro q m hmem ⟨h, ha⟩
    constructor
    · intro hk
      cases hs : q.step m with
      | none => cases m <;> trivial
      | some q' =>
        obtain ⟨hst, hiff⟩ := step_spec h (hm m hmem) hs
        exact (hiff ha).mp ((kept_iff hst).mp (hk q' hs))
    · intro hc q' hs
      obtain ⟨hst, hiff⟩ := step_spec h (hm m hmem) hs
      exact (kept_iff hst).mpr ((hiff ha).mpr hc)
  · intro q m q' hmem ⟨h, ha⟩ hk hs
    obtain ⟨hst, -⟩ := step_spec h (hm m hmem) hs
    exact ⟨hst, (kept_iff hst).mp (hk q' hs)⟩

/-! ## A state that is lost -/

/-- What the subsystems have where nothing is encoded but empty terminals. -/
def noSnapshots : Snapshots := ⟨none, ⟨1, [], none, .empty⟩, none, none⟩

def rootNamed (name : String) : WorkspaceRoot := ⟨⟨name⟩, ⟨[]⟩, name, ⟨name⟩, 0, 0⟩

def workspaceNamed (name : String) : WorkspaceState :=
  ⟨rootNamed name, ⟨true, false, false⟩, false, .empty⟩

/-- The user shows hidden files while the first write is under way. -/
def revisited : List QueueMessage :=
  [.workspaceOpened (workspaceNamed "first") true noSnapshots,
    .toggleExplorer ⟨true, false⟩ noSnapshots, .filesRefreshed 0 true, .filesRefreshed 0 true,
    .workspacePersisted 0 none, .workspacePersisted 0 none]

theorem revisited_kept : Along step Keeps revisited start := by
  refine (persistence_law revisited (by simp [revisited, QueueMessage.Succeeds])).mpr ?_
  refine ⟨fun state hp _ => ?_, fun _ _ => ?_⟩
  · cases hp
  · simp [Along, Careful]

/-- The user shows hidden files while the first write is under way, and opens another workspace. -/
def overtaken : List QueueMessage :=
  [.workspaceOpened (workspaceNamed "first") true noSnapshots,
    .toggleExplorer ⟨true, false⟩ noSnapshots,
    .workspaceOpened (workspaceNamed "second") true noSnapshots, .filesRefreshed 0 true,
    .filesRefreshed 0 true, .workspacePersisted 0 none, .workspacePersisted 0 none]

/-- The first workspace's choice to show hidden files is not written. -/
theorem hidden_files_lost : ¬∀ (messages : List QueueMessage) (q : PersistenceQueue),
    (∀ m ∈ messages, m.Succeeds) → messages.foldlM step start = some q → q.Idle →
    ∀ id, stateOf id q.savedStates = stateOf id q.requested := by
  intro h
  have hs := h overtaken _ (by simp [overtaken, QueueMessage.Succeeds]) rfl ⟨rfl, rfl, rfl⟩
    ⟨"first"⟩
  have he := congrArg (Option.map (·.explorer)) hs
  revert he
  decide

end PersistenceQueue
end Strukt.App
