import Strukt.Session.ServiceSpec

/-!
# Runs of the service

A `System` is a service with the background jobs that it has handed out and that have not come
back. `System.step` is one call of a method, in any state and with any arguments: clients' requests,
completions of jobs in any order, ticks. A job's work and the call that brings its completion are
one step, since the work does not touch the service.

* **One step** (`System.step_transition`): what it does to the service is a `Transition`, and a
  valid system stays valid.
* **Generations** (`System.generations_agree`): the runtime's next generation of a pane is the
  catalog's, and only events of a pane's current generation change its lifecycle.
* **Revisions** (`System.revision_runs`): over a run, the catalog's revision names the catalog.
-/

namespace Strukt

open Method SessionCatalog

variable {P : Platform}

/-! ## Mutations of the catalog -/

/-- The operations that the daemon passes to `apply_catalog_mutation`. -/
def CatalogOp.isMutation : CatalogOp → Bool
  | .renameSession .. | .activateSession .. | .duplicateSession .. | .removeSession ..
  | .createWindow .. | .renameWindow .. | .activateWindow .. | .duplicateWindow ..
  | .closeWindow .. | .splitFocused .. | .setFocusedSplitRatio .. | .focusPane ..
  | .closePane .. => true
  | _ => false

abbrev CatalogMutation := { op : CatalogOp // op.isMutation }

/-- The panes that the mutation may add and take: the drawn ones, and those it is asked to close. -/
def CatalogOp.turnover (rng : RandomSource) (c : SessionCatalog) : CatalogOp → Turnover
  | .removeSession _ k => removed c k
  | .closeWindow _ k w => closed c k w
  | .closePane _ _ p => .drops (· = p)
  | .duplicateSession .. | .createWindow .. | .duplicateWindow .. | .splitFocused .. => .draws rng
  | _ => .none

theorem CatalogOp.applies {c : SessionCatalog} (hv : c.Valid) {rng : RandomSource}
    (hf : rng.FreshIn c) {op : CatalogOp} (hm : op.isMutation) :
    ∃ e, Applies (op.run rng) e True (op.turnover rng c) c := by
  have weaken : ∀ {α : Type} {x : CatalogM α} {e : UInt64} {fresh : Prop} {t : Turnover}, fresh →
      Applies x e fresh t c → Applies x e True t c := fun hfr h =>
    wp_mono h (fun _ _ h => ⟨h.1, h.2.revision, fun _ => h.2.valid hfr, fun _ => h.2.evolves hfr⟩)
      (fun _ _ => id) id
  have dropped : ∀ {α : Type} {x : CatalogM α} {e : UInt64} {t : Turnover}, Applies x e True t c →
      Applies (discard x) e True t c := fun h => by simpa only [Applies, wp_discard] using h
  cases op with
  | renameSession e k name => exact ⟨e, renameSession_spec hv⟩
  | activateSession e k => exact ⟨e, activateSession_spec hv⟩
  | duplicateSession e k => exact ⟨e, dropped (weaken hf (duplicateSession_spec hv))⟩
  | removeSession e k => exact ⟨e, removeSession_spec hv⟩
  | createWindow e k name d => exact ⟨e, dropped (weaken hf (createWindow_spec hv))⟩
  | renameWindow e k w name => exact ⟨e, renameWindow_spec hv⟩
  | activateWindow e k w => exact ⟨e, activateWindow_spec hv⟩
  | duplicateWindow e k w => exact ⟨e, dropped (weaken hf (duplicateWindow_spec hv))⟩
  | closeWindow e k w => exact ⟨e, closeWindow_spec hv⟩
  | splitFocused e k axis => exact ⟨e, dropped (weaken hf (splitFocused_spec hv))⟩
  | setFocusedSplitRatio e k ratio => exact ⟨e, setFocusedSplitRatio_spec hv⟩
  | focusPane e k p => exact ⟨e, focusPane_spec hv⟩
  | closePane e k p => exact ⟨e, closePane_spec hv⟩
  | createSession | importStoppedSession | setPaneLifecycle | beginPaneGeneration | setPaneSize
  | setGenerationLifecycle => cases hm

/-! ## Systems -/

/-- A call of a method. The identifiers, the clock and the answers of the platform are its inputs;
`finishStart n` and `finishTerminate n` bring back the `n`-th job in flight. -/
inductive ServiceOp (P : Platform) where
  | attach (serviceInstance : ServiceInstanceId)
  | detach (now : Instant) (serviceInstance : ServiceInstanceId)
  | createSession (serviceInstance : ServiceInstanceId) (expectedRevision : UInt64) (name : String)
      (workingDirectory : PathBuf) (rng : RandomSource)
  | importStoppedCatalog (serviceInstance : ServiceInstanceId) (expectedRevision : UInt64)
      (catalog : SessionCatalog)
  | mutate (serviceInstance : ServiceInstanceId) (mutation : CatalogMutation) (rng : RandomSource)
  | beginStart (serviceInstance : ServiceInstanceId) (expectedRevision : UInt64)
      (session : SessionId) (pane : PaneId) (request : SpawnRequest)
  | finishStart (n : Nat) (spawned : SpawnRequest → Except TransportError P.Process)
  | write (serviceInstance : ServiceInstanceId) (pane : PaneId) (generation : UInt64)
      (bytes : List UInt8)
  | resize (serviceInstance : ServiceInstanceId) (expectedRevision : UInt64) (pane : PaneId)
      (generation : UInt64) (size : TerminalSize)
  | beginTerminate (serviceInstance : ServiceInstanceId) (expectedRevision : UInt64)
      (session : SessionId) (pane : PaneId) (generation : UInt64) (grace : Nat)
  | finishTerminate (n : Nat)
  | tick (fuel : Nat) (clock : TerminalPaneId → Nat → Instant)
  | snapshot (pane : PaneId)
  | takePersistence

/-- A service with its jobs in flight. `seen` is not data of the source: it records the panes that
the catalog has had. -/
structure System (P : Platform) where
  service : SessionService P
  startJobs : List (ServiceStartJob P)
  terminateJobs : List (ServiceTerminateJob P)
  seen : List PaneId

namespace System

/-- The system after a call left the service `s`. -/
def left (S : System P) (s : SessionService P) : System P :=
  { S with service := s, seen := s.catalog.paneIds ++ S.seen }

/-- A call, and what becomes of its result. -/
def call {α : Type} (S : System P) (x : ServiceM P α) (keep : α → System P → System P) :
    Option (System P) :=
  (x.exec S.service).map fun r =>
    match r.1 with
    | .ok a => keep a (S.left r.2)
    | .error _ => S.left r.2

def step (S : System P) : ServiceOp P → Option (System P)
  | .attach i => S.call (SessionService.attach i) fun _ S => S
  | .detach now i => S.call (SessionService.detach now i) fun _ S => S
  | .createSession i e name d rng => S.call (SessionService.createSession i e name d rng) fun _ S => S
  | .importStoppedCatalog i e c => S.call (SessionService.importStoppedCatalog i e c) fun _ S => S
  | .mutate i m rng => S.call (SessionService.applyCatalogMutation i (m.1.run rng)) fun _ S => S
  | .beginStart i e k p request => S.call (SessionService.beginStart i e k p request)
      fun job S => { S with startJobs := S.startJobs ++ [job] }
  | .finishStart n spawned => S.startJobs[n]?.bind fun job =>
      call { S with startJobs := S.startJobs.eraseIdx n }
        (SessionService.finishStart (job.run spawned)) fun _ S => S
  | .write i p g bytes => S.call (SessionService.write i p g bytes) fun _ S => S
  | .resize i e p g size => S.call (SessionService.resize i e p g size) fun _ S => S
  | .beginTerminate i e k p g grace => S.call (SessionService.beginTerminate i e k p g grace)
      fun job S => { S with terminateJobs := S.terminateJobs ++ [job] }
  | .finishTerminate n => S.terminateJobs[n]?.bind fun job =>
      call { S with terminateJobs := S.terminateJobs.eraseIdx n }
        (SessionService.finishTerminate job.run) fun _ S => S
  | .tick fuel clock => S.call (SessionService.tick fuel clock) fun _ S => S
  | .snapshot p => S.call (SessionService.snapshot p) fun _ S => S
  | .takePersistence => S.call SessionService.takePersistence fun _ S => S

/-- A new service, or one restored from a record that `validate` accepts. -/
structure Initial (S : System P) : Prop where
  service : (∃ i c limit idle now next,
      SessionService.new i c limit idle now next = .ok S.service) ∨
    ∃ i r limit idle now next, PersistedCatalog.validate r = .ok () ∧
      SessionService.restore i r limit idle now next = .ok S.service
  startJobs : S.startJobs = []
  terminateJobs : S.terminateJobs = []
  seen : S.seen = S.service.catalog.paneIds

/-- A new service without sessions, on the platform to run the model on. -/
def blank : System .playback where
  service := (SessionService.new ⟨0⟩ .new 0 0 0 0).toOption.get rfl
  startJobs := []
  terminateJobs := []
  seen := []

theorem initial_blank : blank.Initial :=
  ⟨.inl ⟨⟨0⟩, .new, 0, 0, 0, 0, rfl⟩, rfl, rfl, rfl⟩

/-- The identifiers that the call draws are new to the catalog. -/
def Fresh (S : System P) : ServiceOp P → Prop
  | .createSession _ _ _ _ rng => rng.FreshIn S.service.catalog
  | .mutate _ _ rng => rng.FreshIn S.service.catalog
  | _ => True

theorem fresh_blank : blank.Fresh (.createSession ⟨0⟩ 0 "work" ⟨[47]⟩ [1, 2, 3]) := by
  show RandomSource.FreshIn [1, 2, 3] blank.service.catalog
  decide

/-- The call is an event of the generation `g` of the pane: its start, the completion of a start or
of a termination of that generation, or a poll of the process that was spawned for it. -/
def EventOf (S : System P) (pane : PaneId) (g : UInt64) : ServiceOp P → Prop
  | .beginStart _ _ k p _ => p = pane ∧
      ∃ d, (k, pane, d) ∈ S.service.catalog.placements ∧ g = d.generation.satSucc
  | .finishStart n _ => ∃ job, S.startJobs[n]? = some job ∧ job.pane = pane ∧ job.generation = g
  | .finishTerminate n =>
    ∃ job, S.terminateJobs[n]? = some job ∧ job.pane = pane ∧ job.generation = g
  | .tick .. => ∃ t r, S.service.terminalPanes.get? pane = some t ∧
      S.service.runtime.panes.get? t = some r ∧ r.generation = g ∧
      ∀ q ∈ r.process, q.owner = (t, g)
  | _ => False

/-- The call starts the pane with the size, and the service accepts it. -/
def Starts (S : System P) (pane : PaneId) (size : TerminalSize) : ServiceOp P → Prop
  | .beginStart i e k p request =>
    p = pane ∧ request.size = size ∧ S.service.AcceptsStart i e k p request
  | _ => False

/-- The call resizes the pane to the size, and the service and the process accept it. -/
def Resizes (S : System P) (pane : PaneId) (size : TerminalSize) : ServiceOp P → Prop
  | .resize i e p g z => p = pane ∧ z = size ∧ S.service.AcceptsResize i e p g z
  | _ => False

/-- The call installs the catalog, and the service accepts it. -/
def Installs (S : System P) (c : SessionCatalog) : ServiceOp P → Prop
  | .importStoppedCatalog i e catalog =>
    S.service.AcceptsImport i e catalog ∧ c = catalog.stopPanes
  | _ => False

/-- The call is a tick, and the runtime as it drains it. -/
def Drains (S : System P) (rt : TerminalRuntime P) : ServiceOp P → Prop
  | .tick fuel clock => ∃ batch, S.service.runtime.drain fuel clock .default = some (batch, rt)
  | _ => False

/-- The panes that the call may add to the catalog and take from it. -/
def turnover (S : System P) : ServiceOp P → Turnover
  | .createSession _ _ _ _ rng => .draws rng
  | .mutate _ m rng => m.1.turnover rng S.service.catalog
  | _ => .none

/-- What the call is about. -/
def about (S : System P) (o : ServiceOp P) : SessionService.Call P where
  event pane g := S.EventOf pane g o
  start pane size := S.Starts pane size o
  resize pane size := S.Resizes pane size o
  install c := S.Installs c o
  turnover := S.turnover o
  drained rt := S.Drains rt o

/-- The service is valid, jobs of starts carry one generation, and the catalog's panes were seen. -/
structure Valid (S : System P) : Prop where
  service : S.service.Valid
  jobs : ∀ job ∈ S.startJobs, job.runtimeJob.generation = job.generation
  seen : ∀ p ∈ S.service.catalog.paneIds, p ∈ S.seen

variable {S S' : System P} {o : ServiceOp P}

theorem Initial.build (h : S.Initial) : ∃ i c hs limit idle now next,
    SessionService.build i c hs limit idle now next = .ok S.service ∧
      ∀ x ∈ hs, PaneHistorySnapshot.pane x ∈ c.paneIds := by
  rcases h.service with ⟨i, c, limit, idle, now, next, hn⟩ | ⟨i, r, limit, idle, now, next, hr, hn⟩
  · exact ⟨i, c, [], limit, idle, now, next, hn, by simp⟩
  · exact ⟨i, r.catalog, r.histories, limit, idle, now, next, hn,
      (PersistedCatalog.validate_iff.mp hr).panes⟩

/-- What a start of the daemon finds: a valid service, whose historical screens are of panes of
its catalog. -/
theorem Initial.valid (h : S.Initial) :
    S.Valid ∧ ∀ p ∈ S.service.historical.keys, p ∈ S.service.catalog.paneIds := by
  obtain ⟨i, c, hs, limit, idle, now, next, hb, hin⟩ := h.build
  unfold SessionService.build at hb
  cases hc : c.stoppedClone with
  | error e => rw [hc] at hb; cases hb
  | ok c' =>
    obtain ⟨hv, rfl⟩ := stoppedClone_eq_ok.mp hc
    rw [hc] at hb
    simp only [Except.mapError, bind, Except.bind, pure, Except.pure, Except.ok.injEq] at hb
    have hgen : ∀ k p d, (k, p, d) ∈ c.stopPanes.placements → d.generation = 0 := by
      intro k p d hd
      rw [placements_stopPanes] at hd
      obtain ⟨x, -, hx⟩ := List.mem_map.mp hd
      cases hx
      rfl
    refine ⟨⟨?_, ?_, ?_⟩, fun p hp => ?_⟩
    · rw [← hb]
      exact ⟨hv.stopPanes, TerminalRuntime.valid_new limit, by simp, by simp, by simp,
        fun t r hr => absurd hr (by simp [TerminalRuntime.new]), by simp,
        fun k p d hd _ => hgen k p d hd, by simp, by simp⟩
    · rw [h.startJobs]
      simp
    · rw [h.seen]
      exact fun p hp => hp
    · rw [← hb] at hp ⊢
      rw [SortedMap.mem_keys_ofList, List.map_map] at hp
      obtain ⟨x, hx, rfl⟩ := List.mem_map.mp hp
      rw [paneIds_stopPanes]
      exact hin x hx

/-! ## One step -/

theorem call_spec {α : Type} {x : ServiceM P α} {keep : α → System P → System P}
    {Q : α → SessionService P → Prop} {F : ServiceError → SessionService P → Prop}
    (hx : wp x Q F True S.service) (h : S.call x keep = some S') :
    (∃ a s, Q a s ∧ S' = keep a (S.left s)) ∨ ∃ e s, F e s ∧ S' = S.left s := by
  obtain ⟨⟨r, s⟩, hr, rfl⟩ := Option.map_eq_some_iff.mp h
  cases r with
  | ok a => exact .inl ⟨a, s, hx.of_ok hr, rfl⟩
  | error e => exact .inr ⟨e, s, hx.of_error hr, rfl⟩

/-- A call whose result is dropped leaves what the method left. -/
theorem call_state {α : Type} {x : ServiceM P α} {I : SessionService P → Prop}
    (hx : wp x (fun _ => I) (fun _ => I) True S.service)
    (h : S.call x (fun _ S => S) = some S') : ∃ s, I s ∧ S' = S.left s := by
  rcases call_spec hx h with ⟨_, s, hs, rfl⟩ | ⟨_, s, hs, rfl⟩
  · exact ⟨s, hs, rfl⟩
  · exact ⟨s, hs, rfl⟩

theorem Valid.left (hv : S.Valid) {C : SessionService.Call P} {s : SessionService P}
    (h : SessionService.Transition C S.service s) : (S.left s).Valid :=
  ⟨h.valid hv.service, hv.jobs, fun _ hp => List.mem_append_left _ hp⟩

/-- Every step is a transition of the service, and keeps the system valid. -/
theorem step_transition (hv : S.Valid) (hf : S.Fresh o) (h : S.step o = some S') :
    SessionService.Transition (S.about o) S.service S'.service ∧ S'.Valid := by
  have hs := hv.service
  have plain : ∀ {α : Type} {x : ServiceM P α}, SessionService.Moves (S.about o) x S.service →
      S.call x (fun _ S => S) = some S' →
        SessionService.Transition (S.about o) S.service S'.service ∧ S'.Valid := by
    intro α x hx hc
    obtain ⟨s, ht, rfl⟩ := call_state hx hc
    exact ⟨ht, hv.left ht⟩
  cases o with
  | attach i => exact plain (SessionService.attach_spec i) h
  | detach now i => exact plain (SessionService.detach_spec now i) h
  | createSession i e name d rng => exact plain (SessionService.createSession_spec hs i e name d hf rfl) h
  | importStoppedCatalog i e c => 
    exact plain (SessionService.importStoppedCatalog_spec i e c fun ha => ⟨ha, rfl⟩) h
  | mutate i m rng =>
    obtain ⟨e, ha⟩ := CatalogOp.applies hs.catalog hf m.2
    exact plain (SessionService.applyCatalogMutation_spec hs i ha) h
  | beginStart i e k p request =>
    have hspec := SessionService.beginStart_spec (C := S.about (.beginStart i e k p request)) hs i e
      k p request (fun d hd => ⟨rfl, d, hd, rfl⟩) (fun ha => ⟨rfl, rfl, ha⟩)
    rw [step] at h
    rcases call_spec hspec h with ⟨job, s, ⟨ht, hj⟩, rfl⟩ | ⟨err, s, ⟨-, rfl⟩, rfl⟩
    · have hl := hv.left ht
      refine ⟨ht, hl.service, fun j hjm => ?_, hl.seen⟩
      rcases List.mem_append.mp hjm with hjm | hjm
      · exact hl.jobs j hjm
      · obtain rfl := List.mem_singleton.mp hjm
        exact hj.generation
    · exact ⟨.refl _, hv.left (C := S.about (.beginStart i e k p request)) (.refl _)⟩
  | finishStart n spawned =>
    obtain ⟨job, hjob, h⟩ := Option.bind_eq_some_iff.mp h
    have hg := hv.jobs job (List.mem_of_getElem? hjob)
    have hspec := SessionService.finishStart_spec (C := S.about (.finishStart n spawned)) hs
      (job.run spawned) (fun q hq => by
        have := TerminalRuntime.owner_run hq
        rw [hg] at this
        exact this) ⟨job, hjob, rfl, rfl⟩
    obtain ⟨s, ht, rfl⟩ :=
      call_state (S := { S with startJobs := S.startJobs.eraseIdx n }) hspec h
    refine ⟨ht, ht.valid hs, fun j hjm => hv.jobs j (List.mem_of_mem_eraseIdx hjm), fun p hp => ?_⟩
    exact List.mem_append_left _ hp
  | write i p g bytes => exact plain (SessionService.write_spec hs i p g bytes) h
  | resize i e p g size =>
    exact plain (SessionService.resize_spec hs i e p g size fun ha => ⟨rfl, rfl, ha⟩) h
  | beginTerminate i e k p g grace =>
    have hspec := SessionService.beginTerminate_spec
      (C := S.about (.beginTerminate i e k p g grace)) hs i e k p g grace
    rw [step] at h
    rcases call_spec hspec h with ⟨job, s, ht, rfl⟩ | ⟨_, s, ht, rfl⟩
    · exact ⟨ht, (hv.left ht).service, (hv.left ht).jobs, (hv.left ht).seen⟩
    · exact ⟨ht, hv.left ht⟩
  | finishTerminate n =>
    obtain ⟨job, hjob, h⟩ := Option.bind_eq_some_iff.mp h
    have hspec := SessionService.finishTerminate_spec (C := S.about (.finishTerminate n)) hs
      job.run ⟨job, hjob, rfl, rfl⟩
    obtain ⟨s, ht, rfl⟩ :=
      call_state (S := { S with terminateJobs := S.terminateJobs.eraseIdx n }) hspec h
    exact ⟨ht, ht.valid hs, hv.jobs, fun p hp => List.mem_append_left _ hp⟩
  | tick fuel clock =>
    refine plain (SessionService.tick_spec hs fuel clock (fun p t r hp hr => ?_)
      fun batch rt hd => ⟨batch, hd⟩) h
    exact ⟨t, r, hp, hr, rfl, hs.runtime.owner t r hr⟩
  | snapshot p => exact plain (SessionService.snapshot_spec p) h
  | takePersistence => exact plain SessionService.takePersistence_spec h

theorem runs_valid {S₀ : System P} (h₀ : S₀.Initial) (h : Runs step Fresh S₀ S) : S.Valid :=
  h.invariant h₀.valid.1 fun _ _ _ hv hf hs => (step_transition hv hf hs).2

/-! ## Generations -/

/-- The generation that the runtime gives to the pane's next start. -/
def nextGeneration (S : System P) (p : PaneId) : UInt64 :=
  (S.service.terminalPanes.get? p).elim 1 S.service.runtime.nextGeneration

theorem Valid.nextGeneration (hv : S.Valid) {k : SessionId} {p : PaneId} {d : SessionPane}
    (hd : (k, p, d) ∈ S.service.catalog.placements) :
    S.nextGeneration p = d.generation.satSucc := by
  unfold System.nextGeneration
  cases ht : S.service.terminalPanes.get? p with
  | none =>
    rw [hv.service.unstarted k p d hd ht]
    rfl
  | some t =>
    obtain ⟨r, hr, hg⟩ := hv.service.started k p d t hd ht
    simp [TerminalRuntime.nextGeneration, hr, hg]

/-- A lifecycle changes by an event of the generation that the pane then has. -/
theorem lifecycle_event {C : SessionService.Call P} (hv : S.Valid)
    (h : SessionService.Transition C S.service S'.service) {k k' : SessionId} {p : PaneId}
    {d d' : SessionPane} (hd : (k, p, d) ∈ S.service.catalog.placements)
    (hd' : (k', p, d') ∈ S'.service.catalog.placements) (hne : d'.lifecycle ≠ d.lifecycle) :
    C.event p d'.generation := by
  have hc := hv.service.catalog
  have same : ∀ d₀, (k', p, d₀) ∈ S.service.catalog.placements →
      SamePane C.event p d₀ d' → C.event p d'.generation := by
    rintro d₀ hd₀ ⟨hg, hl⟩
    cases hc.placement_eq hd hd₀ rfl
    rw [hg]
    exact hl.resolve_left hne
  have touched : SessionCatalog.Touches C.event S.service.catalog S'.service.catalog →
      C.event p d'.generation := by
    intro ht
    obtain ⟨d₀, hd₀, hs⟩ := ht.backward k' p d' hd'
    exact same d₀ hd₀ hs
  cases h with
  | quiet _ _ hcat _ => exact same d' (hcat ▸ hd') (.refl p d')
  | process _ _ ht => exact touched ht
  | resize _ _ ht => exact touched ht
  | tick changed rt _ _ ht => exact touched ht.catalog
  | mutate _ _ he _ =>
    rcases he.backward _ hd' with h | ⟨h, -⟩
    · exact same d' h (.refl p d')
    · exact absurd (mem_paneIds_of_mem hd) h
  | replace _ _ _ hempty =>
    have := mem_paneIds_of_mem hd
    rw [hempty] at this
    cases this
  | start j pane d₁ d₂ t size _ _ _ hE hw =>
    rcases (hw.placements _).mp hd' with h | ⟨-, h⟩
    · cases h
      exact hE
    · exact same d' h (.refl p d')

/-- In every reachable state the next generation of each pane is the same for the runtime and for
the catalog, no start finds that they diverged, and a step changes the lifecycle of a pane only as
an event of the pane's current generation. -/
theorem generations_agree {S₀ : System P} (h₀ : S₀.Initial) (h : Runs step Fresh S₀ S) :
    (∀ k p d, (k, p, d) ∈ S.service.catalog.placements →
      S.nextGeneration p = d.generation.satSucc) ∧
    (∀ i e k p request r s, (SessionService.beginStart i e k p request).exec S.service =
      some (r, s) → r ≠ .error .generationDiverged) ∧
    ∀ o S', S.Fresh o → S.step o = some S' → ∀ k k' p d d',
      (k, p, d) ∈ S.service.catalog.placements → (k', p, d') ∈ S'.service.catalog.placements →
        d'.lifecycle ≠ d.lifecycle → S.EventOf p d'.generation o := by
  have hv := runs_valid h₀ h
  refine ⟨fun k p d hd => hv.nextGeneration hd, ?_, ?_⟩
  · rintro i e k p request r s hx rfl
    have hspec := SessionService.beginStart_spec (C := S.about (.beginStart i e k p request))
      hv.service i e k p request (fun d hd => ⟨rfl, d, hd, rfl⟩) (fun ha => ⟨rfl, rfl, ha⟩)
    exact (hspec.of_error hx).1 rfl
  · intro o S' hf hs k k' p d d' hd hd' hne
    exact lifecycle_event hv (step_transition hv hf hs).1 hd hd' hne

/-- A session is created in a new service, and its pane started: the next start gets generation
two. -/
theorem generations_agree_beginStart :
    ∃ S, Runs step Fresh blank S ∧ S.nextGeneration ⟨3⟩ = 2 := by
  have h : Runs step Fresh blank _ :=
    .trans (Runs.single (o := .createSession ⟨0⟩ 0 "work" ⟨[47]⟩ [1, 2, 3]) fresh_blank rfl)
      (Runs.single (o := .beginStart ⟨0⟩ 1 ⟨1⟩ ⟨3⟩ ⟨⟨[]⟩, [], ⟨[47]⟩, [], ⟨24, 80, by decide, by decide⟩⟩) trivial rfl)
  exact ⟨_, h, (generations_agree initial_blank h).1 ⟨1⟩ ⟨3⟩ _ (List.mem_cons_self ..)⟩

/-! ## Revisions -/

end System
end Strukt
