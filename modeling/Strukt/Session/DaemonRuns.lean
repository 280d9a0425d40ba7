import Strukt.Lib.Frame
import Strukt.Lib.Runs
import Strukt.Session.Daemon

/-!
# The controlling client

The slot of the daemon and the count of the service are written by different branches: a request
attaches or detaches, a connection that ends detaches, and everything else leaves both alone.

* **The service** (`KeepsClients`): no other method of it touches its instance or its count.
* **Requests** (`Handled`): what a request can do, and which client it takes.
* **The law** (`controller_law`): the slot is occupied exactly while one client is counted, only its
  client changes anything, and the end of its connection frees it.
-/

namespace Strukt

open Method

variable {P : Platform}

namespace SessionService

/-! ## Methods that leave the clients alone -/

theorem build_attachedClients {serviceInstance : ServiceInstanceId} {catalog : SessionCatalog}
    {histories : List PaneHistorySnapshot} {scrollbackLimit idleTimeout nextTerminal : Nat}
    {now : Instant} {s : SessionService P}
    (h : build serviceInstance catalog histories scrollbackLimit idleTimeout now nextTerminal =
      .ok s) : s.attachedClients = 0 := by
  unfold build at h
  cases hc : catalog.stoppedClone with
  | error e =>
    rw [hc] at h
    cases h
  | ok stopped =>
    rw [hc] at h
    cases h
    rfl

/-- What the service knows of itself and its clients. -/
def attachment (s : SessionService P) : ServiceInstanceId × Nat :=
  (s.serviceInstance, s.attachedClients)

abbrev KeepsClients {α : Type} (x : ServiceM P α) : Prop := Preserves attachment x

section Keeping

variable {α : Type} {o : Outside P} {session : SessionId} {pane : PaneId}

theorem keeps_onCatalog (x : CatalogM α) : KeepsClients (onCatalog x : ServiceM P α) :=
  preserves_focus fun _ _ => rfl

theorem keeps_onRuntime (x : RuntimeM P α) : KeepsClients (onRuntime x) :=
  preserves_focus fun _ _ => rfl

theorem keeps_markDirty : KeepsClients (markDirty : ServiceM P Unit) :=
  preserves_modify fun _ => rfl

theorem keeps_expectInstance (serviceInstance : ServiceInstanceId) :
    KeepsClients (expectInstance serviceInstance : ServiceM P Unit) :=
  preserves_get.bind fun _ => preserves_ensure _ _

theorem keeps_expectCatalogRevision (expected : UInt64) :
    KeepsClients (expectCatalogRevision expected : ServiceM P Unit) :=
  preserves_get.bind fun _ => preserves_ensure _ _

theorem keeps_definition : KeepsClients (definition pane : ServiceM P (SessionId × SessionPane)) :=
  preserves_get.bind fun _ => (preserves_okOr _ _).bind fun ⟨_, _, _⟩ => preserves_pure _

theorem keeps_runtimePane : KeepsClients (runtimePane pane : ServiceM P TerminalPaneId) :=
  preserves_get.bind fun _ => preserves_okOr _ _

theorem keeps_expectGeneration (generation : UInt64) :
    KeepsClients (expectGeneration session pane generation : ServiceM P Unit) :=
  preserves_get.bind fun _ => preserves_ensure _ _

theorem keeps_ensureRuntimePane :
    KeepsClients (ensureRuntimePane pane : ServiceM P TerminalPaneId) := by
  refine preserves_of_wp fun s => ?_
  simp only [ensureRuntimePane, wp_bind, wp_get]
  cases s.terminalPanes.get? pane with
  | some terminal => rfl
  | none => rfl

theorem keeps_recordLifecycle (generation : UInt64) (terminal : TerminalPaneId) :
    KeepsClients (recordLifecycle session pane generation terminal : ServiceM P Unit) :=
  preserves_get.bind fun _ => (preserves_okOr _ _).bind fun _ =>
    (keeps_onCatalog _).discard.bind fun _ => keeps_markDirty

theorem keeps_createSession (serviceInstance : ServiceInstanceId) (expectedRevision : UInt64)
    (name : String) (workingDirectory : PathBuf) (rng : RandomSource) :
    KeepsClients (createSession serviceInstance expectedRevision name workingDirectory rng :
      ServiceM P SessionId) :=
  (keeps_expectInstance _).bind fun _ => (keeps_onCatalog _).bind fun _ =>
    keeps_markDirty.bind fun _ => preserves_pure _

theorem keeps_importStoppedCatalog (serviceInstance : ServiceInstanceId)
    (expectedRevision : UInt64) (catalog : SessionCatalog) :
    KeepsClients (importStoppedCatalog serviceInstance expectedRevision catalog :
      ServiceM P Unit) :=
  (keeps_expectInstance _).bind fun _ => (keeps_expectCatalogRevision _).bind fun _ =>
    preserves_get.bind fun _ => (preserves_ensure _ _).bind fun _ =>
      (preserves_ofExcept _).bind fun _ => preserves_modify fun _ => rfl

theorem attachment_prune (panes : List PaneId) (s : SessionService P) :
    (panes.foldl prunePane s).attachment = s.attachment := by
  induction panes generalizing s with
  | nil => rfl
  | cons pane panes ih => exact ih _

theorem keeps_applyCatalogMutation (serviceInstance : ServiceInstanceId) (mutation : CatalogM α) :
    KeepsClients (applyCatalogMutation serviceInstance mutation : ServiceM P α) :=
  (keeps_expectInstance _).bind fun _ => (keeps_onCatalog _).bind fun _ =>
    (preserves_modify fun s => attachment_prune _ s).bind fun _ =>
      keeps_markDirty.bind fun _ => preserves_pure _

theorem keeps_beginStart (serviceInstance : ServiceInstanceId) (expectedRevision : UInt64)
    (request : SpawnRequest) :
    KeepsClients (beginStart serviceInstance expectedRevision session pane request :
      ServiceM P (ServiceStartJob P)) := by
  unfold beginStart
  refine (keeps_expectInstance _).bind fun _ => keeps_definition.bind fun ⟨_, _⟩ => ?_
  refine (preserves_ensure _ _).bind fun _ => (keeps_expectCatalogRevision _).bind fun _ => ?_
  refine keeps_ensureRuntimePane.bind fun _ => preserves_modify_bind (fun _ => rfl) ?_
  refine (keeps_onRuntime _).bind fun _ => (keeps_onCatalog _).bind fun _ => ?_
  dsimp only
  split
  · exact (keeps_onRuntime _).bind fun _ => preserves_throw _
  · exact keeps_markDirty.bind fun _ => preserves_pure _

theorem keeps_finishStart (completion : ServiceStartCompletion P) :
    KeepsClients (finishStart completion) :=
  (keeps_expectInstance _).bind fun _ => (keeps_expectGeneration _).bind fun _ =>
    (keeps_onRuntime _).attempt.bind fun _ => (keeps_recordLifecycle _ _).bind fun _ =>
      preserves_ofExcept _

theorem keeps_write (serviceInstance : ServiceInstanceId) (generation : UInt64)
    (bytes : List UInt8) :
    KeepsClients (write serviceInstance pane generation bytes : ServiceM P Unit) :=
  (keeps_expectInstance _).bind fun _ => keeps_definition.bind fun ⟨_, _⟩ =>
    (keeps_expectGeneration _).bind fun _ => keeps_runtimePane.bind fun _ => keeps_onRuntime _

theorem keeps_resize (serviceInstance : ServiceInstanceId) (expectedRevision generation : UInt64)
    (size : TerminalSize) :
    KeepsClients (resize serviceInstance expectedRevision pane generation size :
      ServiceM P Unit) :=
  (keeps_expectInstance _).bind fun _ => (keeps_expectCatalogRevision _).bind fun _ =>
    keeps_definition.bind fun ⟨_, _⟩ => (keeps_expectGeneration _).bind fun _ =>
      keeps_runtimePane.bind fun _ => (keeps_onRuntime _).bind fun _ =>
        (keeps_onCatalog _).bind fun _ => keeps_markDirty

theorem keeps_beginTerminate (serviceInstance : ServiceInstanceId)
    (expectedRevision generation : UInt64) (grace : Nat) :
    KeepsClients (beginTerminate serviceInstance expectedRevision session pane generation grace :
      ServiceM P (ServiceTerminateJob P)) :=
  (keeps_expectInstance _).bind fun _ => (keeps_expectCatalogRevision _).bind fun _ =>
    (keeps_expectGeneration _).bind fun _ => keeps_runtimePane.bind fun _ =>
      (keeps_onRuntime _).bind fun _ => preserves_pure _

theorem keeps_finishTerminate (completion : ServiceTerminateCompletion) :
    KeepsClients (finishTerminate completion : ServiceM P Unit) :=
  (keeps_expectInstance _).bind fun _ => (keeps_expectGeneration _).bind fun _ =>
    (keeps_onRuntime _).attempt.bind fun _ => (keeps_recordLifecycle _ _).bind fun _ =>
      preserves_ofExcept _

theorem keeps_snapshot : KeepsClients (snapshot pane : ServiceM P PaneScreenSnapshot) := by
  unfold snapshot
  refine keeps_definition.bind fun ⟨_, _⟩ => preserves_get.bind fun s => ?_
  refine (preserves_orPanic _).bind fun viewed => ?_
  dsimp only
  split
  · refine (preserves_okOr _ _).bind fun screen => ?_
    split
    · split
      · exact preserves_modify_bind (fun _ => rfl)
          (preserves_modify_bind (fun _ => rfl) (preserves_pure _))
      · exact preserves_modify_bind (fun _ => rfl) (preserves_pure _)
    · exact preserves_pure _
  · refine (preserves_okOr _ _).bind fun screen => (preserves_ofExcept _).bind fun screen => ?_
    split
    · exact preserves_modify_bind (fun _ => rfl) (preserves_pure _)
    · exact preserves_pure _

/-! ### Ticks and records -/

theorem keeps_tickPane (terminal : TerminalPaneId) :
    KeepsClients (tickPane terminal : ServiceM P (Option PaneId)) := by
  refine preserves_of_wp fun s => ?_
  simp only [tickPane, wp_bind, wp_get]
  split
  · rfl
  split
  · simp only [wp_ite, wp_bind, wp_pure, wp_orPanic, wp_modify, wp_discard, wp_attempt]
    refine ⟨fun _ => trivial, fun _ => ⟨fun _ => ⟨fun visible _ => ?_, fun _ => trivial⟩,
      fun _ => ?_⟩⟩
    · exact ⟨fun _ => (keeps_onCatalog _).wp _, fun _ => (keeps_onCatalog _).wp _⟩
    · exact ⟨fun _ => (keeps_onCatalog _).wp _, fun _ => (keeps_onCatalog _).wp _⟩
  · rfl

theorem keeps_tickPanes (panes : List TerminalPaneId) (changed : SortedMap PaneId Unit) :
    KeepsClients (tickPanes panes changed : ServiceM P (SortedMap PaneId Unit)) := by
  induction panes generalizing changed with
  | nil => exact preserves_pure _
  | cons terminal panes ih => exact (keeps_tickPane terminal).bind fun _ => ih _

theorem keeps_tick (fuel : Nat) (clock : TerminalPaneId → Nat → Instant) :
    KeepsClients (tick fuel clock : ServiceM P (SortedMap PaneId Unit)) := by
  unfold tick
  refine preserves_get.bind fun _ => (preserves_orPanic _).bind fun ⟨_, _⟩ => ?_
  refine preserves_modify_bind (fun _ => rfl) ((keeps_tickPanes _ _).bind fun _ => ?_)
  split
  · exact preserves_pure _
  · exact keeps_markDirty.bind fun _ => preserves_pure _

/-- A record that is taken for the store leaves the service as it is, but for the mark. -/
theorem takePersistence_clean :
    Preserves (fun s => { s with dirty := false }) (takePersistence (P := P)) := by
  unfold takePersistence
  refine preserves_get.bind fun s => ?_
  split
  · exact preserves_pure _
  · exact (preserves_ofExcept _).bind fun _ => (preserves_ofExcept _).bind fun _ =>
      preserves_modify_bind (fun _ => rfl) (preserves_pure _)

/-! ### What the controlling client asks for -/

theorem keeps_listedPanes (expectedRevision : UInt64) :
    KeepsClients (listedPanes expectedRevision session :
      ServiceM P (List (PaneId × UInt64 × PaneLifecycle))) :=
  (keeps_expectCatalogRevision _).bind fun _ => preserves_get.bind fun _ =>
    (preserves_okOr _ _).bind fun _ => preserves_pure _

theorem keeps_paneWorkingDirectory :
    KeepsClients (paneWorkingDirectory pane : ServiceM P PathBuf) :=
  keeps_definition.bind fun ⟨_, _⟩ => preserves_pure _

theorem keeps_finishPaneStart (expectedRevision : UInt64) (spawn : SpawnRequest) :
    KeepsClients (finishPaneStart o expectedRevision session pane spawn) :=
  preserves_get.bind fun _ => (keeps_beginStart _ _ _).bind fun _ =>
    (keeps_finishStart _).bind fun _ => preserves_pure _

theorem keeps_startDefaultPane (expectedRevision : UInt64) (rows columns : UInt16) :
    KeepsClients (startDefaultPane o expectedRevision session pane rows columns) :=
  keeps_paneWorkingDirectory.bind fun _ => (preserves_ofExcept _).bind fun _ =>
    (preserves_ofExcept _).bind fun _ => keeps_finishPaneStart _ _

theorem keeps_startFixturePane (expectedRevision : UInt64) (mode : FixtureMode)
    (size : TerminalSize) :
    KeepsClients (startFixturePane o expectedRevision session pane mode size) :=
  (preserves_okOr _ _).bind fun _ => keeps_paneWorkingDirectory.bind fun _ =>
    keeps_finishPaneStart _ _

theorem keeps_terminatePane (expectedRevision generation : UInt64) :
    KeepsClients (terminatePane expectedRevision session pane generation : ServiceM P Unit) :=
  preserves_get.bind fun _ => (keeps_beginTerminate _ _ _ _).bind fun _ =>
    keeps_finishTerminate _

theorem keeps_terminatePanes (panes : List (PaneId × UInt64 × PaneLifecycle))
    (counts : UInt16 × UInt16) :
    KeepsClients (terminatePanes session panes counts : ServiceM P (UInt16 × UInt16)) := by
  induction panes generalizing counts with
  | nil => exact preserves_pure _
  | cons p panes ih =>
    obtain ⟨pane, generation, lifecycle⟩ := p
    unfold terminatePanes
    split
    · exact (preserves_get.bind fun _ => keeps_terminatePane _ _).attempt.bind fun _ => ih _
    · exact ih _

theorem keeps_terminateSession (expectedRevision : UInt64) :
    KeepsClients (terminateSession expectedRevision session : ServiceM P ResponseBody) :=
  (keeps_listedPanes _).bind fun _ => (keeps_terminatePanes _ _).bind fun ⟨_, _⟩ =>
    preserves_pure _

theorem keeps_restartPane (rows columns : UInt16) (generation : UInt64)
    (lifecycle : PaneLifecycle) :
    KeepsClients (restartPane o session rows columns pane generation lifecycle) := by
  have hstart : KeepsClients (do
      discard (startDefaultPane o (← get).catalog.revision session pane rows columns) :
      ServiceM P Unit) :=
    preserves_get.bind fun _ => (keeps_startDefaultPane _ _ _).discard
  unfold restartPane
  split
  · exact preserves_get.bind fun _ => (keeps_terminatePane _ _).bind fun _ => hstart
  · exact hstart

theorem keeps_restartPanes (rows columns : UInt16)
    (panes : List (PaneId × UInt64 × PaneLifecycle)) (counts : UInt16 × UInt16) :
    KeepsClients (restartPanes o session rows columns panes counts) := by
  induction panes generalizing counts with
  | nil => exact preserves_pure _
  | cons p panes ih => exact (keeps_restartPane _ _ _ _).attempt.bind fun _ => ih _

theorem keeps_restartSession (expectedRevision : UInt64) (rows columns : UInt16) :
    KeepsClients (restartSession o expectedRevision session rows columns) :=
  (keeps_listedPanes _).bind fun _ => (keeps_restartPanes _ _ _ _).bind fun ⟨_, _⟩ =>
    preserves_pure _

theorem keeps_changeCatalog (mutation : CatalogM Unit) :
    KeepsClients (changeCatalog mutation : ServiceM P ResponseBody) :=
  preserves_get.bind fun _ => (keeps_applyCatalogMutation _ _).bind fun _ =>
    preserves_get.bind fun _ => preserves_pure _

theorem keeps_createInCatalog (respond : α → ResponseBody) (mutation : CatalogM α) :
    KeepsClients (createInCatalog respond mutation : ServiceM P ResponseBody) :=
  preserves_get.bind fun _ => (keeps_applyCatalogMutation _ _).bind fun _ => preserves_pure _

theorem keeps_controlledResponse (expectedRevision : UInt64) (request : RequestBody) :
    KeepsClients (controlledResponse o expectedRevision request) := by
  cases request with
  | createSession name workingDirectory =>
    exact preserves_get.bind fun _ => (keeps_createSession _ _ _ _ _).bind fun _ =>
      preserves_pure _
  | importStoppedCatalog catalog =>
    exact preserves_get.bind fun _ => (keeps_importStoppedCatalog _ _ _).bind fun _ =>
      preserves_get.bind fun _ => preserves_pure _
  | restartSession session rows columns => exact keeps_restartSession _ _ _
  | terminateSession session => exact keeps_terminateSession _
  | startPane session pane rows columns => exact keeps_startDefaultPane _ _ _
  | startFixturePane session pane mode rows columns =>
    exact (preserves_ofExcept _).bind fun _ => keeps_startFixturePane _ _ _
  | writePane pane generation bytes =>
    exact preserves_get.bind fun _ => (keeps_write _ _ _).bind fun _ => preserves_pure _
  | resizePane pane generation rows columns =>
    exact (preserves_ofExcept _).bind fun _ => preserves_get.bind fun _ =>
      (keeps_resize _ _ _ _).bind fun _ => preserves_pure _
  | snapshot pane => exact keeps_snapshot.bind fun _ => preserves_pure _
  | terminatePane session pane generation =>
    exact (keeps_terminatePane _ _).bind fun _ => preserves_pure _
  | shutdown =>
    exact preserves_get.bind fun _ => (preserves_ensure _ _).bind fun _ => preserves_pure _
  | duplicateSession | createWindow | duplicateWindow | splitPane =>
    exact keeps_createInCatalog _ _
  | renameSession | activateSession | removeSession | renameWindow | activateWindow
  | closeWindow | focusPane | setSplitRatio | closePane => exact keeps_changeCatalog _
  | catalog | attach | reconnect | detach => exact preserves_throw _

theorem keeps_handleControlledRequest (expectedRevision : UInt64) (request : RequestBody) :
    KeepsClients (handleControlledRequest o expectedRevision request) :=
  (keeps_controlledResponse _ _).bind fun _ => preserves_pure _

end Keeping

end SessionService

/-- The requests for the slot. -/
def RequestBody.attaches : RequestBody → Bool
  | .attach | .reconnect _ => true
  | _ => false

namespace Daemon

open SessionService

variable {α : Type} {o : Outside P} {client : UInt64} {request : RequestEnvelope}
  {d d' : Daemon P}

/-! ## The slot and the count -/

/-- The slot, beside what the service knows of its clients. -/
def clients (d : Daemon P) : Option UInt64 × ServiceInstanceId × Nat :=
  (d.controllingClient, d.service.attachment)

/-- The service counts the client of the slot, and no other. -/
def Consistent (d : Daemon P) : Prop :=
  d.service.attachedClients = d.controllingClient.toList.length

theorem Consistent.of_clients (h : d.Consistent) (he : d'.clients = d.clients) :
    d'.Consistent := by
  have hslot : d'.controllingClient = d.controllingClient := congrArg (·.1) he
  have hcount : d'.service.attachedClients = d.service.attachedClients := congrArg (·.2.2) he
  rw [Consistent, hslot, hcount]
  exact h

theorem keeps_onService {x : ServiceM P α} (hx : KeepsClients x) :
    Preserves clients (onService x) :=
  hx.focus fun d _ h => congrArg (Prod.mk d.controllingClient) h

/-! ## Requests -/

theorem wp_requireController {Q : Unit → Daemon P → Prop} {E : ServiceError → Daemon P → Prop}
    {p : Prop} : wp (requireController client) Q E p d ↔
      (d.controllingClient = some client → Q () d) ∧
      (d.controllingClient ≠ some client → E .noAttachedClient d) := by
  simp only [requireController, wp_bind, wp_get, wp_ensure, ne_eq]

/-- The daemon after the client has taken the free slot. -/
def taken (d : Daemon P) (client : UInt64) : Daemon P :=
  ⟨{ d.service with attachedClients := 1 }, some client⟩

/-- The daemon after its client has been let go. -/
def released (d : Daemon P) (now : Instant) : Daemon P :=
  ⟨{ d.service with attachedClients := 0, detachedSince := now }, none⟩

theorem attachClient_spec :
    wp (attachClient client)
      (fun _ d' => d.controllingClient = none ∧ d' = d.taken client ∨
        d.controllingClient = some client ∧ d' = d)
      (fun _ d' => d' = d) False d := by
  simp only [attachClient, wp_bind, wp_get, wp_ensure, wp_ite, wp_pure, wp_modify, onService,
    wp_focus, attach, expectInstance]
  refine ⟨fun hslot => ⟨fun hfree => ?_, fun hne => .inr ⟨?_, trivial⟩⟩, fun _ => trivial⟩
  · exact ⟨fun _ => ⟨fun _ => .inl ⟨hfree, rfl⟩, fun _ => trivial⟩, fun _ => trivial⟩
  · obtain ⟨owner, howner⟩ := Option.ne_none_iff_exists'.mp hne
    rw [howner, Option.all_some, decide_eq_true_eq] at hslot
    rw [howner, hslot]

theorem detachClient_spec :
    wp (detachClient o client)
      (fun _ d' => d.controllingClient = some client ∧ d' = d.released o.now)
      (fun _ d' => d' = d) False d := by
  simp only [detachClient, wp_bind, wp_requireController, wp_get, wp_pure, wp_modify, onService,
    wp_focus, detach, expectInstance, wp_ensure]
  exact ⟨fun hslot => ⟨fun _ => ⟨fun _ => ⟨hslot, rfl⟩, fun _ => trivial⟩, fun _ => trivial⟩,
    fun _ => trivial⟩

/-- What a request does to the daemon: an answer may come with a client taken or let go, an error
comes with neither. -/
inductive Handled (o : Outside P) (client : UInt64) (request : RequestEnvelope) (d : Daemon P) :
    Bool → Daemon P → Prop
  | same {answered : Bool} : Handled o client request d answered d
  | taken (free : d.controllingClient = none) (asked : request.body.attaches) :
      Handled o client request d true (d.taken client)
  | released (owns : d.controllingClient = some client) :
      Handled o client request d true (d.released o.now)
  | controlled {answered : Bool} {d' : Daemon P} (owns : d.controllingClient = some client)
      (kept : d'.clients = d.clients) : Handled o client request d answered d'

theorem handleRequest_spec : wp (handleRequest o client request)
    (fun _ => Handled o client request d true) (fun _ => Handled o client request d false)
    True d := by
  have hattach (asked : request.body.attaches) :
      wp (do return (← attachClient client, false) : DaemonM P ServiceError (ResponseBody × Bool))
        (fun _ => Handled o client request d true) (fun _ => Handled o client request d false)
        True d := by
    rw [wp_bind]
    refine wp_mono attachClient_spec ?_ (fun _ _ h => h ▸ .same) fun _ => trivial
    rintro _ _ (⟨hfree, rfl⟩ | ⟨-, rfl⟩)
    · exact .taken hfree asked
    · exact .same
  have hcontrolled (body : RequestBody) : wp (do
        requireController client
        onService (handleControlledRequest o request.expectedCatalogRevision body) :
        DaemonM P ServiceError (ResponseBody × Bool))
      (fun _ => Handled o client request d true) (fun _ => Handled o client request d false)
      True d := by
    rw [wp_bind, wp_requireController]
    refine ⟨fun owns => ?_, fun _ => .same⟩
    exact wp_mono ((keeps_onService (keeps_handleControlledRequest _ _)).wp d)
      (fun _ _ h => .controlled owns h) (fun _ _ h => .controlled owns h) id
  unfold handleRequest
  rw [wp_bind, wp_ofExcept]
  refine ⟨fun _ _ => ?_, fun _ _ => .same⟩
  cases hb : request.body with
  | catalog => exact .same
  | attach => exact hattach (by rw [hb]; rfl)
  | reconnect cursors => exact hattach (by rw [hb]; rfl)
  | detach =>
    dsimp only
    rw [wp_bind]
    refine wp_mono detachClient_spec ?_ (fun _ _ h => h ▸ .same) False.elim
    rintro _ _ ⟨owns, rfl⟩
    exact .released owns
  | _ => exact hcontrolled _

theorem Handled.consistent {answered : Bool} (h : Handled o client request d answered d')
    (hd : d.Consistent) : d'.Consistent := by
  cases h with
  | same => exact hd
  | taken => exact rfl
  | released => exact rfl
  | controlled _ kept => exact hd.of_clients kept

/-! ## Rounds -/

/-- The daemon but for the mark of the service that the store is behind. -/
def settled (d : Daemon P) : Daemon P := { d with service := { d.service with dirty := false } }

theorem persistIfDirty_settled (saved : PersistedCatalog → Bool) :
    Preserves settled (persistIfDirty saved : DaemonM P LoopError Unit) := by
  unfold persistIfDirty
  refine (takePersistence_clean.focus fun d _ h => ?_).bind fun record => ?_
  · exact congrArg (Daemon.mk · d.controllingClient) h
  · cases record with
    | none => exact preserves_pure _
    | some record => exact preserves_ensure _ _

theorem clients_settled (h : d'.settled = d.settled) : d'.clients = d.clients :=
  (congrArg clients h :)

theorem persistIfDirty_clients (saved : PersistedCatalog → Bool) :
    Preserves clients (persistIfDirty saved : DaemonM P LoopError Unit) :=
  fun d r d' h => clients_settled (persistIfDirty_settled saved d r d' h)

/-- A request is handled, and then the store brought up to date. -/
theorem serveRequest_spec : wp (serveRequest o client request)
    (fun r d' => ∃ d₁, Handled o client request d r.toBool d₁ ∧ d'.settled = d₁.settled)
    (fun _ d' => ∃ d₁ answered, Handled o client request d answered d₁ ∧ d'.settled = d₁.settled)
    True d := by
  unfold serveRequest
  rw [wp_bind, wp_attempt]
  refine wp_mono handleRequest_spec (fun _ d₁ h => ?_) (fun _ d₁ h => ?_) id
  · rw [wp_bind]
    exact wp_mono ((persistIfDirty_settled o.saved).wp d₁) (fun _ _ hp => ⟨d₁, h, hp⟩)
      (fun _ _ hp => ⟨d₁, _, h, hp⟩) id
  · rw [wp_bind]
    exact wp_mono ((persistIfDirty_settled o.saved).wp d₁) (fun _ _ hp => ⟨d₁, h, hp⟩)
      (fun _ _ hp => ⟨d₁, _, h, hp⟩) id

/-- The end of a connection lets its client go; another client's changes nothing. -/
theorem serveDisconnect_spec (hd : d.Consistent) : wp (serveDisconnect o client)
    (fun _ d' => d.controllingClient = some client ∧ d' = d.released o.now ∨
      d.controllingClient ≠ some client ∧ d' = d) (fun _ _ => False) False d := by
  simp only [serveDisconnect, wp_bind, wp_get, wp_ite, wp_discard, wp_attempt, wp_modify, wp_pure,
    onService, wp_focus, detach, expectInstance, wp_ensure]
  refine ⟨fun hslot => ⟨fun _ => ⟨fun _ => .inl ⟨hslot, rfl⟩, fun hcount => ?_⟩,
    fun hi => absurd trivial hi⟩, fun hslot => .inr ⟨hslot, trivial⟩⟩
  rw [Consistent, hslot] at hd
  exact absurd (fun h => Nat.one_ne_zero (hd.symm.trans h)) hcount

theorem settle_clients : Preserves clients (settle o : DaemonM P LoopError Bool) := by
  unfold settle
  refine (keeps_onService (keeps_tick _ _)).attempt.discard.bind fun _ => ?_
  split
  · exact (persistIfDirty_clients _).bind fun _ => preserves_get.bind fun _ => preserves_pure _
  · exact preserves_get.bind fun _ => preserves_pure _

/-- Whatever a round does, the slot and the count stay together. -/
theorem runRound_consistent (hd : d.Consistent) (event : Option ClientEvent) :
    wp (runRound o event) (fun _ => Consistent) (fun _ => Consistent) True d := by
  have hsettle {β : Type} {d₁ : Daemon P} (f : Bool → β) (h : d₁.Consistent) :
      wp (do return f (← settle o) : DaemonM P LoopError β) (fun _ => Consistent)
        (fun _ => Consistent) True d₁ := by
    rw [wp_bind]
    exact wp_mono (settle_clients.wp d₁) (fun _ _ hc => h.of_clients hc)
      (fun _ _ hc => h.of_clients hc) id
  match event with
  | none => exact hsettle _ hd
  | some (.disconnected client) =>
    unfold runRound
    rw [wp_bind]
    refine wp_mono (serveDisconnect_spec hd) ?_ (fun _ _ => False.elim) False.elim
    rintro _ _ (⟨-, rfl⟩ | ⟨-, rfl⟩)
    · exact hsettle _ rfl
    · exact hsettle _ hd
  | some (.request client request) =>
    unfold runRound
    rw [wp_bind]
    refine wp_mono serveRequest_spec ?_ ?_ id
    · rintro r d' ⟨d₁, hh, hs⟩
      have hd' : d'.Consistent := (hh.consistent hd).of_clients (clients_settled hs)
      cases r with
      | error error => exact hd'
      | ok answer => exact hsettle _ hd'
    · rintro _ d' ⟨d₁, _, hh, hs⟩
      exact (hh.consistent hd).of_clients (clients_settled hs)

/-! ## The law -/

theorem Initial.consistent (h : d.Initial) : d.Consistent := by
  have hcount : d.service.attachedClients = 0 := by
    rcases h.service with ⟨_, _, _, _, _, hs⟩ | ⟨_, _, _, _, _, _, hs⟩
    · exact build_attachedClients hs
    · exact build_attachedClients hs
  rw [Consistent, h.free, hcount]
  rfl

theorem step_consistent {e : Outside P × Option ClientEvent} (hd : d.Consistent)
    (h : d.step e = some d') : d'.Consistent := by
  unfold step at h
  split at h
  · next round d₁ hr =>
    split at h
    · cases h
    · cases h
      exact (runRound_consistent hd e.2).of_ok hr
  · cases h

/-- What holds of the slot after any events: of its occupation, of the requests of the other
clients, and of the ends of connections. -/
structure SingleController (d : Daemon P) : Prop where
  single : ∀ client client', wp (requireController client) (fun _ _ => True) (fun _ _ => False)
      False d → wp (requireController client') (fun _ _ => True) (fun _ _ => False) False d →
    client = client'
  occupied : d.controllingClient.isSome ↔ d.service.attachedClients = 1
  free : d.controllingClient = none ↔ d.service.attachedClients = 0
  /-- A request of another client only takes the free slot, by an answered attach or reconnect. -/
  others : ∀ o client request r d', d.controllingClient ≠ some client →
    (serveRequest o client request).exec d = some (r, d') →
      d'.service.catalog = d.service.catalog ∧ d'.service.runtime = d.service.runtime ∧
        (d'.service.attachedClients = d.service.attachedClients ∧
            d'.controllingClient = d.controllingClient ∨
          d.controllingClient = none ∧ request.body.attaches ∧ (∀ e, r ≠ .ok (.error e)) ∧
            d'.service.attachedClients = 1 ∧ d'.controllingClient = some client)
  freed : ∀ o client r d', d.controllingClient = some client →
    (serveDisconnect o client).exec d = some (r, d') →
      d'.controllingClient = none ∧ d'.service.attachedClients = 0
  ended : ∀ o client r d', d.controllingClient ≠ some client →
    (serveDisconnect o client).exec d = some (r, d') → d' = d

theorem Handled.other {answered : Bool} {d₁ : Daemon P}
    (h : Handled o client request d answered d₁) (hother : d.controllingClient ≠ some client)
    (hs : d'.settled = d₁.settled) :
    d'.service.catalog = d.service.catalog ∧ d'.service.runtime = d.service.runtime ∧
      (d'.service.attachedClients = d.service.attachedClients ∧
          d'.controllingClient = d.controllingClient ∨
        d.controllingClient = none ∧ request.body.attaches ∧ answered = true ∧
          d'.service.attachedClients = 1 ∧ d'.controllingClient = some client) := by
  have hcatalog : d'.service.catalog = d₁.service.catalog := (congrArg (·.service.catalog) hs :)
  have hruntime : d'.service.runtime = d₁.service.runtime := (congrArg (·.service.runtime) hs :)
  have hcount : d'.service.attachedClients = d₁.service.attachedClients :=
    (congrArg (·.service.attachedClients) hs :)
  have hslot : d'.controllingClient = d₁.controllingClient :=
    (congrArg (·.controllingClient) hs :)
  cases h with
  | same => exact ⟨hcatalog, hruntime, .inl ⟨hcount, hslot⟩⟩
  | taken free asked => exact ⟨hcatalog, hruntime, .inr ⟨free, asked, rfl, hcount, hslot⟩⟩
  | released owns => exact absurd owns hother
  | controlled owns => exact absurd owns hother

theorem Consistent.singleController (hd : d.Consistent) : SingleController d where
  single client client' h h' := by
    rw [wp_requireController] at h h'
    have howns : d.controllingClient = some client := not_not.mp h.2
    have howns' : d.controllingClient = some client' := not_not.mp h'.2
    exact Option.some.inj (howns.symm.trans howns')
  occupied := by
    rw [hd]
    cases d.controllingClient <;> simp
  free := by
    rw [hd]
    cases d.controllingClient <;> simp
  others o client request r d' hother hr := by
    cases r with
    | ok answer =>
      obtain ⟨d₁, hh, hs⟩ := serveRequest_spec.of_ok hr
      obtain ⟨hcatalog, hruntime, hsame | ⟨hfree, hasked, hanswered, htaken⟩⟩ :=
        hh.other hother hs
      · exact ⟨hcatalog, hruntime, .inl hsame⟩
      · refine ⟨hcatalog, hruntime, .inr ⟨hfree, hasked, fun e he => ?_, htaken⟩⟩
        cases he
        cases hanswered
    | error e =>
      obtain ⟨d₁, _, hh, hs⟩ := serveRequest_spec.of_error hr
      obtain ⟨hcatalog, hruntime, hsame | ⟨hfree, hasked, -, htaken⟩⟩ := hh.other hother hs
      · exact ⟨hcatalog, hruntime, .inl hsame⟩
      · exact ⟨hcatalog, hruntime, .inr ⟨hfree, hasked, nofun, htaken⟩⟩
  freed o client r d' howns hr := by
    cases r with
    | ok u =>
      obtain ⟨-, rfl⟩ | ⟨hother, -⟩ := (serveDisconnect_spec hd).of_ok hr
      · exact ⟨rfl, rfl⟩
      · exact absurd howns hother
    | error e => exact ((serveDisconnect_spec hd).of_error hr).elim
  ended o client r d' hother hr := by
    cases r with
    | ok u =>
      obtain ⟨howns, -⟩ | ⟨-, rfl⟩ := (serveDisconnect_spec hd).of_ok hr
      · exact absurd howns hother
      · rfl
    | error e => exact ((serveDisconnect_spec hd).of_error hr).elim

/-- **At most one client is in control, and nobody else changes anything.** -/
theorem controller_law {d₀ d : Daemon P} (h₀ : d₀.Initial) (h : Runs step (fun _ _ => True) d₀ d) :
    SingleController d :=
  (h.invariant h₀.consistent fun _ _ _ hd _ hs => step_consistent hd hs).singleController

/-- The daemon as it starts without a record. -/
def fresh : Daemon Platform.playback where
  service := {
    serviceInstance := ⟨0⟩
    catalog := .new
    runtime := .new 100
    terminalPanes := .empty
    sessionPanes := .empty
    outputRevisions := .empty
    terminalRevisions := .empty
    unreadCounts := .empty
    attention := .empty
    historical := .empty
    attachedClients := 0
    detachedSince := 0
    idleTimeout := 600000
    dirty := false
    nextTerminal := 1 }
  controllingClient := none

/-- A host without a shell, on which the store always succeeds. -/
def quiet : Outside Platform.playback where
  now := 0
  rng := default
  fixture := none
  shell := .error .shellUnavailable
  spawned _ _ := .error .shellUnavailable
  fuel := 4
  clock _ n := n
  saved _ := true
  persistDue := false
  savedLate _ := true

theorem fresh_initial : fresh.Initial :=
  ⟨.inl ⟨⟨0⟩, 100, 600000, 0, 1, rfl⟩, rfl⟩

/-- One client attaches, another one asks for the slot in vain and is gone. -/
theorem controller_law_attached : ∃ d : Daemon Platform.playback,
    Runs step (fun _ _ => True) fresh d ∧ d.controllingClient = some 1 ∧ SingleController d := by
  let events : List (Outside Platform.playback × Option ClientEvent) :=
    [(quiet, some (.request 1 (.new 1 0 .attach))), (quiet, some (.request 2 (.new 2 0 .attach))),
      (quiet, some (.disconnected 2))]
  have hends : (events.foldlM step fresh).map (·.controllingClient) = some (some 1) := by decide
  obtain ⟨d, hd, hslot⟩ := Option.map_eq_some_iff.mp hends
  have hruns : Runs step (fun _ _ => True) fresh d := (along_true events fresh).runs hd
  exact ⟨d, hruns, hslot, controller_law fresh_initial hruns⟩

/-- A client without cursors reconnects, and is counted: an attach is not the only way. -/
theorem reconnect_takes_slot :
    ¬∀ (d₀ d d' : Daemon Platform.playback) (o : Outside Platform.playback) (client : UInt64)
        (request : RequestEnvelope)
        (r : Except LoopError (Except ServiceError (ResponseBody × Bool))),
      d₀.Initial → Runs step (fun _ _ => True) d₀ d → d.controllingClient ≠ some client →
        (serveRequest o client request).exec d = some (r, d') →
          d'.service.attachedClients ≠ d.service.attachedClients →
            request.body = .attach ∧ d.controllingClient = none := by
  intro h
  have hcount : ((serveRequest quiet 1 (.new 1 0 (.reconnect []))).exec fresh).map
      (·.2.service.attachedClients) = some 1 := by decide
  obtain ⟨⟨r, d'⟩, hr, hcount⟩ := Option.map_eq_some_iff.mp hcount
  have hne : d'.service.attachedClients ≠ fresh.service.attachedClients := by
    rw [hcount]
    decide
  obtain ⟨hbody, -⟩ := h fresh fresh d' quiet 1 _ r fresh_initial .refl (by decide) hr hne
  cases hbody

end Daemon
end Strukt
