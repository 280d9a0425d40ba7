import Strukt.App.LanguageEffects

/-!
# Who owns the language processes

`LanguageHost` is the language system of the open workspace, with the processes that are still being
spawned for workspaces that were open before. Opening a workspace starts over: its processes are
dropped with the runtime, but a spawn ends when it ends, and its message is checked against the
workspace only.

* **Ownership** (`Owned`): each installed process is of its server's generation, and the server is
  starting or ready, or the process was asked to shut down.
* **Replacement** (`NeverOlder`): no process is replaced by one of an older generation.
* **Carefulness** (`Careful`): a process is installed while the server of its generation starts or
  is ready, no server is started anew, disabled or failed over a process that runs on, and no client
  refuses what it is sent.
-/

namespace Strukt.App

open Strukt.Language Method LanguageCoordinator

/-! ## The system over several workspaces -/

/-- A process that is being spawned for a workspace that was open before. -/
structure EarlierSpawn where
  workspaceId : String
  languageId : String
  generation : UInt64
  deriving DecidableEq

structure LanguageHost where
  system : LanguageSystem
  earlier : List EarlierSpawn

inductive HostStep where
  | system (step : LanguageStep)
  | workspaceOpened (workspaceId : String) (restored : RestoredLanguageSession)
  | earlierStarted (spawn : EarlierSpawn) (now : Duration)
  | earlierFailed (spawn : EarlierSpawn) (message : String)

namespace LanguageHost

def start (workspaceId : String) (restored : RestoredLanguageSession) : LanguageHost :=
  ⟨.start workspaceId restored, []⟩

/-- The processes that are being spawned, once another workspace is open. -/
def leftBehind (s : LanguageSystem) : List EarlierSpawn :=
  s.spawning.map fun spawn => ⟨s.coordinator.workspaceId, spawn.1, spawn.2⟩

/-- `finish_start` of a spawn that succeeded. -/
def install (s : LanguageSystem) (languageId : String) (generation : UInt64) (now : Duration) :
    Option LanguageSystem :=
  (RunningLanguage.start s.coordinator.workspaceId languageId generation now).map fun running =>
    { s with processes := s.processes.insert languageId running }

/-- A message for another workspace than the open one is dropped. -/
def step (env : LanguageEnv) (uri : PathBuf → String) (s : LanguageHost) :
    HostStep → Option LanguageHost
  | .system o => (s.system.step env uri o).map fun system => { s with system }
  | .workspaceOpened workspaceId restored =>
    some ⟨.start workspaceId restored, s.earlier ++ leftBehind s.system⟩
  | .earlierStarted spawn now =>
    if spawn ∈ s.earlier then
      let earlier := s.earlier.filter (· ≠ spawn)
      if spawn.workspaceId ≠ s.system.coordinator.workspaceId then some { s with earlier }
      else (install s.system spawn.languageId spawn.generation now).map fun system =>
        ⟨system, earlier⟩
    else none
  | .earlierFailed spawn message =>
    if spawn ∈ s.earlier then
      let earlier := s.earlier.filter (· ≠ spawn)
      if spawn.workspaceId ≠ s.system.coordinator.workspaceId then some { s with earlier }
      else
        some ⟨{ s.system with
          coordinator :=
            s.system.coordinator.failWithMessage spawn.languageId spawn.generation message },
          earlier⟩
    else none

end LanguageHost

/-! ## Ownership -/

/-- A process of the server's generation is expected. -/
def expects : LanguageState → Bool
  | .starting | .ready => true
  | _ => false

/-- Each process is of its server's generation, and it is expected or was asked to shut down. -/
def Owned (c : LanguageCoordinator) (r : LanguageRuntime) : Prop :=
  ∀ l running, r.get? l = some running → ∃ server, c.servers.get? l = some server ∧
    server.generation = running.generation ∧
      (expects server.state = true ∨ running.client.state = .stopping)

/-- A process that is there before and after is not of an older generation then. -/
def NeverOlder (r r' : LanguageRuntime) : Prop :=
  ∀ l running running', r.get? l = some running → r'.get? l = some running' →
    running.generation ≤ running'.generation

/-- A process of the language was asked to shut down, or there is none. -/
def Settled (r : LanguageRuntime) (l : String) : Prop :=
  ∀ running ∈ r.get? l, running.client.state = .stopping

/-- A process of the generation is expected. -/
def Expected (c : LanguageCoordinator) (l : String) (generation : UInt64) : Prop :=
  ∃ server ∈ c.servers.get? l, server.generation = generation ∧ expects server.state = true

namespace CoordinatorOp

/-- The document is opened where its server is to be started first. -/
def Starts (c : LanguageCoordinator) (document : DocumentBinding) (l : String) : Prop :=
  document.languageId = l ∧ document.eligible = true ∧ c.selectionEnabled l = true ∧
    canStart (c.serverOrNew l).state = true

/-- The operation starts the server of the language anew. -/
def Begins (env : LanguageEnv) (c : LanguageCoordinator) (l : String) : CoordinatorOp → Prop
  | .openDocument _ path languageOverride revision text =>
    Starts c (binding env path languageOverride revision text) l
  | .setOverride id languageOverride =>
    ∃ previous ∈ c.documents.get? id, Starts c (overridden env previous languageOverride) l
  | .retry k => k = l ∧ ∃ server ∈ c.servers.get? l, canRetry server.state = true
  | .enableLanguage k =>
    k = l ∧ (c.selectionOf env l true).isSome ∧ (c.serverOrNew l).shutdownPending = false ∧
      c.hasDocument l = true
  | _ => False

/-- The operation takes the server of the language out of its state without a shutdown. -/
def Retires (env : LanguageEnv) (c : LanguageCoordinator) (l : String) : CoordinatorOp → Prop
  | .disableLanguage k =>
    k = l ∧ (c.selectionOf env l false).isSome ∧ (c.serverOrNew l).state ≠ .ready
  | .enableLanguage k =>
    k = l ∧ (c.selectionOf env l true).isSome ∧ (c.serverOrNew l).shutdownPending = false
  | _ => False

variable {env : LanguageEnv} {c : LanguageCoordinator} {op : CoordinatorOp} {l : String}

/-- The server stays in its generation, and it is expected as it was. -/
structure Tended (c c' : LanguageCoordinator) (l : String) : Prop where
  kept : ∀ server, c.servers.get? l = some server → ∃ server', c'.servers.get? l = some server' ∧
    server'.generation = server.generation ∧
      (expects server.state = true → expects server'.state = true)

theorem Tended.refl (c : LanguageCoordinator) (l : String) : Tended c c l :=
  ⟨fun server hg => ⟨server, hg, rfl, fun h => h⟩⟩

theorem Tended.of_eq {c' : LanguageCoordinator} (h : c'.servers.get? l = c.servers.get? l) :
    Tended c c' l :=
  ⟨fun server hg => ⟨server, h.trans hg, rfl, fun h => h⟩⟩

theorem tended_ensure (h : canStart (c.serverOrNew l).state = false) :
    Tended c (c.ensureLanguageStarted l).1 l := by
  obtain ⟨-, he⟩ | ⟨hs, -⟩ := ensure_cases c l
  · rw [he]
    exact .refl c l
  · rw [h] at hs
    cases hs

theorem tended_openBinding {id : DocumentId} {document : DocumentBinding}
    (h : ¬Starts c document l) : Tended c (c.openBinding id document).1 l := by
  by_cases hl : document.languageId = l
  · obtain ⟨-, he⟩ | ⟨heligible, henabled, ⟨server, -, -, he⟩ | ⟨-, he⟩⟩ :=
      openBinding_cases c id document
    · rw [he]
      exact .of_eq rfl
    · rw [he]
      exact .of_eq rfl
    · rw [he, hl]
      have hno : canStart (c.serverOrNew l).state = false := by
        cases hs : canStart (c.serverOrNew l).state with
        | false => rfl
        | true => exact absurd ⟨hl, heligible, hl ▸ henabled, hs⟩ h
      have hens : Tended (c.withDocument id document)
          ((c.withDocument id document).ensureLanguageStarted l).1 l := tended_ensure hno
      exact ⟨hens.kept⟩
  · exact .of_eq (same_openBinding hl).server

/-- An operation that neither starts a server anew nor retires it. -/
theorem tended_run (hop : op.ofUser = true) (hshutdown : op.shutdown env c = none)
    (hb : ¬op.Begins env c l) (hr : ¬op.Retires env c l) : Tended c (op.run env c).1 l := by
  by_cases hl : op.language env c = some l
  · cases op with
    | openDocument id path languageOverride revision text => exact tended_openBinding hb
    | setOverride id languageOverride =>
      obtain ⟨previous, hd, hlang⟩ := Option.map_eq_some_iff.mp hl
      have hrun : (CoordinatorOp.run env c (.setOverride id languageOverride)).1 =
          ((c.closeDocument id).1.openBinding id (overridden env previous languageOverride)).1 := by
        show (LanguageCoordinator.setOverride env c id languageOverride).1 = _
        rw [setOverride_eq hd]
      have hservers := (closeDocument_fields c id).2.2.1
      have hselections := (closeDocument_fields c id).2.2.2
      have hnot : ¬Starts (c.closeDocument id).1 (overridden env previous languageOverride) l := by
        rintro ⟨h₁, h₂, h₃, h₄⟩
        refine hb ⟨previous, hd, h₁, h₂, ?_, ?_⟩
        · unfold selectionEnabled at h₃ ⊢
          rwa [hselections] at h₃
        · unfold serverOrNew at h₄ ⊢
          rwa [hservers] at h₄
      rw [hrun]
      refine ⟨fun server hg => ?_⟩
      exact (tended_openBinding hnot).kept server (by rw [hservers]; exact hg)
    | discovered workspaceId languageId generation result =>
      obtain rfl := Option.some.inj hl
      obtain h | ⟨server, pending, hg, -, hst, h⟩ :=
        discovered_cases c workspaceId languageId generation result
      · exact .of_eq (by rw [show (CoordinatorOp.run env c (.discovered workspaceId languageId
          generation result)).1 = c from h])
      · refine ⟨fun server' hg' => ?_⟩
        obtain rfl := Option.some.inj (hg.symm.trans hg')
        refine ⟨{ server with
          state := DiscoveryResult.state result, pendingApproval := pending }, ?_, rfl, ?_⟩
        · rw [show (CoordinatorOp.run env c (.discovered workspaceId languageId generation
            result)).1 = _ from h, get?_setServer, if_pos rfl]
        · rw [hst]
          intro he
          cases he
    | approve languageId =>
      obtain rfl := Option.some.inj hl
      obtain h | ⟨server, state, hg, hst, -, -, h⟩ := approve_cases c languageId
      · exact .of_eq (by rw [show (CoordinatorOp.run env c (.approve languageId)).1 = c from h])
      · refine ⟨fun server' hg' => ?_⟩
        obtain rfl := Option.some.inj (hg.symm.trans hg')
        refine ⟨{ server with pendingApproval := none, state }, ?_, rfl, ?_⟩
        · rw [show (CoordinatorOp.run env c (.approve languageId)).1.servers = _ from h,
            SortedMap.get?_insert, if_pos rfl]
        · rw [hst]
          intro he
          cases he
    | deny languageId =>
      obtain rfl := Option.some.inj hl
      obtain h | ⟨server, hg, hst, -, h⟩ := deny_cases c languageId
      · exact .of_eq (by rw [show (CoordinatorOp.run env c (.deny languageId)).1 = c from h])
      · refine ⟨fun server' hg' => ?_⟩
        obtain rfl := Option.some.inj (hg.symm.trans hg')
        refine ⟨{ server with pendingApproval := none, state := .disabled }, ?_, rfl, ?_⟩
        · rw [show (CoordinatorOp.run env c (.deny languageId)).1.servers = _ from h,
            SortedMap.get?_insert, if_pos rfl]
        · rw [hst]
          intro he
          cases he
    | retry languageId =>
      obtain rfl := Option.some.inj hl
      obtain ⟨-, h⟩ | ⟨server, hg, hcan, -⟩ := retry_cases c languageId
      · exact .of_eq (by rw [show CoordinatorOp.run env c (.retry languageId) = _ from h])
      · exact absurd ⟨rfl, server, hg, hcan⟩ hb
    | disableLanguage languageId =>
      obtain rfl := Option.some.inj hl
      obtain ⟨-, h⟩ | ⟨selection, hsel, -, hgen, h⟩ := disableLanguage_cases env c languageId
      · exact .of_eq (by
          rw [show (CoordinatorOp.run env c (.disableLanguage languageId)).1 =
            (c.disableLanguage env languageId).1 from rfl, h])
      · refine absurd ⟨rfl, by rw [hsel]; rfl, fun hready => ?_⟩ hr
        have hnone : (c.disableLanguage env languageId).2 = none :=
          Option.map_eq_none_iff.mp hshutdown
        rw [hgen, if_pos hready] at hnone
        cases hnone
    | enableLanguage languageId =>
      obtain rfl := Option.some.inj hl
      obtain ⟨-, h⟩ | ⟨selection, hsel, -, ⟨-, h⟩ | ⟨hp, -⟩⟩ :=
        enableLanguage_cases env c languageId
      · exact .of_eq (by rw [show CoordinatorOp.run env c (.enableLanguage languageId) = _ from h])
      · exact .of_eq (by
          rw [show CoordinatorOp.run env c (.enableLanguage languageId) = _ from h]
          rfl)
      · exact absurd ⟨rfl, by rw [hsel]; rfl, hp⟩ hr
    | restartLanguage languageId =>
      obtain h | ⟨server, -, -, -, h⟩ := restartLanguage_cases c languageId
      · exact .of_eq (by
          rw [show (CoordinatorOp.run env c (.restartLanguage languageId)).1 =
            (c.restartLanguage languageId).1 from rfl, h])
      · have hnone : (c.restartLanguage languageId).2 = none := Option.map_eq_none_iff.mp hshutdown
        rw [h] at hnone
        cases hnone
    | markReady _ _ _ _ | markStopped _ _ | failWithMessage _ _ _ => cases hop
    | _ => cases hl
  · exact .of_eq (run_of_ne op hl).server

end CoordinatorOp

/-! ## Processes that go on -/

/-- The processes are of before, in their generations, and those that were asked to shut down
still are. -/
def Continued (r r' : LanguageRuntime) : Prop :=
  ∀ l running', r'.get? l = some running' → ∃ running, r.get? l = some running ∧
    running'.generation = running.generation ∧
      (running.client.state = .stopping → running'.client.state = .stopping)

theorem continued_refl (r : LanguageRuntime) : Continued r r :=
  fun _ running h => ⟨running, h, rfl, fun h => h⟩

theorem continued_remove (r : LanguageRuntime) (l : String) : Continued r (r.remove l) := by
  intro k running h
  rw [SortedMap.get?_remove] at h
  split at h
  · cases h
  · exact ⟨running, h, rfl, fun h => h⟩

theorem continued_insert {r : LanguageRuntime} {l : String} {running running' : RunningLanguage}
    (hg : r.get? l = some running) (hgen : running'.generation = running.generation)
    (hstop : running.client.state = .stopping → running'.client.state = .stopping) :
    Continued r (r.insert l running') := by
  intro k other hk
  rw [SortedMap.get?_insert] at hk
  split at hk
  · next hkl =>
    cases hk
    exact ⟨running, by rw [hkl]; exact hg, hgen, hstop⟩
  · exact ⟨other, hk, rfl, fun h => h⟩

theorem Continued.trans {r r' r'' : LanguageRuntime} (h : Continued r r')
    (h' : Continued r' r'') : Continued r r'' := by
  intro l running'' hg
  obtain ⟨running', hg', hgen', hstop'⟩ := h' l running'' hg
  obtain ⟨running, hg, hgen, hstop⟩ := h l running' hg'
  exact ⟨running, hg, hgen'.trans hgen, fun hs => hstop' (hstop hs)⟩

theorem continued_touches {targets : List (String × UInt64)} {r r' : LanguageRuntime}
    (h : LanguageRuntime.Touches targets r r') : Continued r r' := by
  intro l running' hg
  have ho := h.outline l
  rw [hg, Option.map_some] at ho
  obtain ⟨running, hrun, he⟩ := Option.map_eq_some_iff.mp ho.symm
  obtain ⟨hgen, hstate⟩ := Prod.mk.inj he
  exact ⟨running, hrun, hgen.symm, fun hs => hstate.symm.trans hs⟩

theorem Continued.neverOlder {r r' : LanguageRuntime} (h : Continued r r') : NeverOlder r r' := by
  intro l running running' hg hg'
  obtain ⟨running₀, hg₀, hgen, -⟩ := h l running' hg'
  obtain rfl := Option.some.inj (hg.symm.trans hg₀)
  exact hgen ▸ UInt64.le_refl _

/-- Processes that go on under servers that do, or that were asked to shut down. -/
theorem Owned.next {c c' : LanguageCoordinator} {r r' : LanguageRuntime} (h : Owned c r)
    (hr : Continued r r')
    (hc : ∀ l running server, r'.get? l = some running → c.servers.get? l = some server →
      ∃ server', c'.servers.get? l = some server' ∧ server'.generation = server.generation ∧
        (expects server.state = true →
          expects server'.state = true ∨ running.client.state = .stopping)) : Owned c' r' := by
  intro l running' hg'
  obtain ⟨running, hg, hgen, hstop⟩ := hr l running' hg'
  obtain ⟨server, hs, hsg, hstate⟩ := h l running hg
  obtain ⟨server', hs', hgen', hexpects⟩ := hc l running' server hg' hs
  refine ⟨server', hs', (hgen'.trans hsg).trans hgen.symm, ?_⟩
  obtain he | hs := hstate
  · exact hexpects he
  · exact .inr (hstop hs)

theorem Owned.tended {c c' : LanguageCoordinator} {r r' : LanguageRuntime} (h : Owned c r)
    (hr : Continued r r')
    (hc : ∀ l running, r'.get? l = some running → CoordinatorOp.Tended c c' l) : Owned c' r' := by
  refine h.next hr fun l running server hg hs => ?_
  obtain ⟨server', hs', hgen, hexpects⟩ := (hc l running hg).kept server hs
  exact ⟨server', hs', hgen, fun he => .inl (hexpects he)⟩

/-- A server that fails: its process was asked to shut down, or there is none. -/
theorem Owned.failWithMessage {c : LanguageCoordinator} {r : LanguageRuntime} {l : String}
    {generation : UInt64} (h : Owned c r)
    (hsettled : ∀ server, c.servers.get? l = some server → server.generation = generation →
      Settled r l) (message : String) : Owned (c.failWithMessage l generation message) r := by
  obtain ⟨-, hc⟩ | ⟨server, hg, hgen, hc⟩ := failWithMessage_cases c l generation message
  · rw [hc]
    exact h
  · rw [hc]
    refine h.next (continued_refl r) fun k running server' hk hs => ?_
    by_cases hkl : k = l
    · subst hkl
      obtain rfl := Option.some.inj (hg.symm.trans hs)
      refine ⟨{ server with
        state := .failed, lastError := some (takeChars 2048 message) }, ?_, rfl,
        fun _ => .inr (hsettled server hg hgen running hk)⟩
      exact get?_setServer.trans (if_pos rfl)
    · refine ⟨server', ?_, rfl, fun he => .inl he⟩
      exact (get?_setServer.trans (if_neg hkl)).trans hs

theorem Owned.removed {c : LanguageCoordinator} {r : LanguageRuntime} (h : Owned c r) (l : String) :
    Owned c (r.remove l) :=
  h.tended (continued_remove r l) fun k _ _ => .refl _ k

/-- A server that fails, once its process has gone. -/
theorem Owned.failed {s : LanguageSystem} {l : String} (generation : UInt64)
    (h : Owned s.coordinator (s.processes.remove l)) (message : String) :
    Owned (s.failed l generation message).coordinator (s.failed l generation message).processes := by
  refine h.failWithMessage (fun _ _ _ running hrun => ?_) message
  rw [SortedMap.get?_remove, if_pos rfl] at hrun
  cases hrun

/-- A server that stopped, once its process has gone. -/
theorem Owned.stopped {s : LanguageSystem} {l : String} (generation : UInt64)
    (h : Owned s.coordinator (s.processes.remove l)) :
    Owned (s.stopped l generation).coordinator (s.stopped l generation).processes := by
  refine h.tended (continued_refl _) fun k running hk => ?_
  by_cases hkl : l = k
  · change (s.processes.remove l).get? k = _ at hk
    rw [SortedMap.get?_remove, if_pos hkl.symm] at hk
    cases hk
  · exact .of_eq (same_markStopped hkl).server

/-! ## Clients on their own -/

/-- A client that was asked to shut down keeps waiting until it times out. -/
theorem stopping_pollTimeouts (now : Duration) (client : LanguageClient) :
    wp (LanguageClient.pollTimeouts now)
      (fun timeouts c' => client.state = .stopping → .initialization ∉ timeouts →
        .shutdown ∉ timeouts → c'.state = .stopping) (fun _ _ => False) True client := by
  have hinitialize : wp (LanguageClient.expireInitialize now)
      (fun timeouts c' => .initialization ∉ timeouts → c' = client) (fun _ _ => False) False
      client := by
    simp only [LanguageClient.expireInitialize, wp_bind, wp_get, wp_ite, wp_modify, wp_pure]
    exact ⟨fun _ hnot => absurd (List.mem_singleton.mpr rfl) hnot, fun _ _ => trivial⟩
  have hshutdown (c : LanguageClient) : wp (LanguageClient.expireShutdown now)
      (fun timeouts c' => .shutdown ∉ timeouts → c' = c) (fun _ _ => False) False c := by
    simp only [LanguageClient.expireShutdown, wp_bind, wp_get, wp_ite, wp_modify, wp_pure]
    exact ⟨fun _ hnot => absurd (List.mem_singleton.mpr rfl) hnot, fun _ _ => trivial⟩
  simp only [LanguageClient.pollTimeouts, wp_bind, wp_pure]
  refine wp_mono hinitialize (fun initialization c₁ h₁ => ?_) (fun _ _ h => h) False.elim
  refine wp_mono (expireRequests_spec now c₁) (fun requests c₂ h₂ => ?_)
    (fun _ _ h => h) False.elim
  refine wp_mono (hshutdown c₂) (fun shutdown c₃ h₃ => ?_) (fun _ _ h => h) False.elim
  refine wp_mono (expireIdle_spec now c₃) (fun idle c' h₄ => ?_) (fun _ _ h => h)
    fun h => h
  intro hstopping hinit hshut
  simp only [List.mem_append, not_or] at hinit hshut
  obtain rfl := h₁ hinit.1.1.1
  obtain rfl := h₃ hshut.1.2
  have h₂' : c₃.state = .stopping := by
    obtain ⟨state, queued, cancels, rfl, -, -, rfl | ⟨hready, -⟩⟩ := h₂.cancelled
    · exact hstopping
    · rw [hstopping] at hready
      cases hready
  cases h₄ with
  | not => exact h₂'
  | shutdown _ hready | full _ hready | exhausted hready =>
    rw [h₂'] at hready
    cases hready

section Clients

variable {running : RunningLanguage}

theorem polled_stopping (now : Duration) (running : RunningLanguage) :
    wp (RunningLanguage.pollTimeouts now)
      (fun timeouts running' => running'.generation = running.generation ∧
        (.initialization ∉ timeouts → .shutdown ∉ timeouts → running.client.state = .stopping →
          running'.client.state = .stopping))
      (fun _ _ => True) True running := by
  simp only [RunningLanguage.pollTimeouts, RunningLanguage.onClient, RunningLanguage.flushClient,
    wp_bind, wp_focus, wp_modify, wp_ite, wp_discard, LanguageClient.wp_flushChanges, wp_pure]
  refine wp_mono (stopping_pollTimeouts now running.client) (fun timeouts client hs => ?_)
    (fun _ _ _ => trivial) fun h => h
  exact ⟨fun _ => ⟨trivial, fun h₁ h₂ h₃ => hs h₃ h₁ h₂⟩,
    fun _ => ⟨trivial, fun h₁ h₂ h₃ => hs h₃ h₁ h₂⟩⟩

theorem continued_outline {r : LanguageRuntime} {l : String} {running' : RunningLanguage}
    (hg : r.get? l = some running) (ho : running'.outline = running.outline) :
    Continued r (r.insert l running') := by
  obtain ⟨hgen, hstate⟩ := Prod.mk.inj ho
  exact continued_insert hg hgen fun hs => hstate.trans hs

/-- A shutdown that is asked of an active process takes effect even where it fails. -/
theorem beginShutdown_stopping (now : Duration) (running : RunningLanguage) :
    wp (RunningLanguage.beginShutdown now)
      (fun _ r => r.generation = running.generation ∧ r.client.state = .stopping)
      (fun _ r => r.generation = running.generation ∧
        (running.client.Active ∨ running.client.state = .stopping → r.client.state = .stopping))
      True running := by
  simp only [RunningLanguage.beginShutdown, RunningLanguage.onClient, wp_bind, wp_focus, wp_modify,
    wp_beginShutdown]
  refine ⟨fun _ => ⟨fun _ => ⟨fun deadline _ => ?_, fun _ => trivial⟩, fun _ => ?_⟩,
    fun hinactive => ?_⟩
  · exact ⟨trivial, rfl⟩
  · exact ⟨trivial, fun _ => rfl⟩
  · refine ⟨trivial, fun h => ?_⟩
    obtain hactive | hstopping := h
    · exact absurd hactive hinactive
    · exact hstopping

/-- What `begin_shutdown` leaves of the processes. -/
theorem beginShutdown_continued (l : String) (generation : UInt64) (now : Duration)
    (r : LanguageRuntime) :
    wp (LanguageRuntime.beginShutdown l generation now)
      (fun _ r' => Continued r r' ∧ Settled r' l)
      (fun _ r' => Continued r r' ∧ ∀ running, r.get? l = some running →
        running.generation = generation →
          running.client.Active ∨ running.client.state = .stopping → Settled r' l) True r := by
  simp only [LanguageRuntime.beginShutdown, wp_bind, wp_get]
  cases hg : r.get? l with
  | none =>
    refine wp_throw.mpr ⟨continued_refl r, fun running h => ?_⟩
    cases h
  | some running =>
    simp only [wp_bind, wp_ensure, wp_focus]
    have settled (running' : RunningLanguage) (h : running'.client.state = .stopping) :
        Settled (r.insert l running') l := by
      intro other ho
      rw [SortedMap.get?_insert, if_pos rfl] at ho
      cases ho
      exact h
    refine ⟨fun _ => ?_, fun hstale => ⟨continued_refl r, fun other ho hgen => ?_⟩⟩
    · refine wp_mono (beginShutdown_stopping now running) (fun _ running' h => ?_)
        (fun _ running' h => ?_) fun h => h
      · exact ⟨continued_insert hg h.1 fun _ => h.2, settled running' h.2⟩
      · refine ⟨continued_insert hg h.1 fun hs => h.2 (.inr hs), fun other ho _ hor => ?_⟩
        cases ho
        exact settled running' (h.2 hor)
    · cases ho
      exact absurd hgen hstale

end Clients

end Strukt.App
