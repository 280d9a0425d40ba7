import Strukt.App.Agreement

/-!
# The effects that a server accepts

The coordinator and the client of each process have their own view of which documents are open, and
of whether the server is up.

* **Agreement**: every orderly step keeps `Agrees` (`agrees_step`).
* **Disorder**: the two part where a document is closed while the server starts
  (`closed_while_starting`); where the client stops on its own, on a restart or while it is idle,
  and the coordinator still takes it for ready; where a document is opened while its language is
  disabled and the server ready, or is the same file as another one.
* `effects_law`: otherwise no client refuses an effect.
-/

namespace Strukt.App

open Strukt.Language Method LanguageCoordinator

section Agreement

variable {env : LanguageEnv} {uri : PathBuf → String} {c c' : LanguageCoordinator}
  {r r' : LanguageRuntime} {id : DocumentId}

/-! ### The other operations of the user -/

/-- The operation neither opens, changes, saves nor closes a document. -/
def plain : CoordinatorOp → Bool
  | .openDocument .. | .editDocument .. | .saveDocument _ | .closeDocument _ | .setOverride .. =>
    false
  | op => op.ofUser

theorem plain_run (env : LanguageEnv) (c : LanguageCoordinator) {op : CoordinatorOp}
    (h : plain op = true) :
    (op.run env c).1.documents = c.documents ∧
      ∀ l generation, effectsFor (op.run env c).2 l generation = [] := by
  cases op with
  | discovered workspaceId languageId generation result =>
    refine ⟨?_, fun _ _ => rfl⟩
    obtain h | ⟨server, pending, -, -, -, h⟩ :=
      discovered_cases c workspaceId languageId generation result
    · exact congrArg LanguageCoordinator.documents h
    · exact (congrArg LanguageCoordinator.documents h).trans rfl
  | approve languageId =>
    refine ⟨?_, fun _ _ => rfl⟩
    obtain h | ⟨_, _, -, -, -, hrest, -⟩ := approve_cases c languageId
    · exact congrArg LanguageCoordinator.documents h
    · exact hrest.documents
  | deny languageId =>
    refine ⟨?_, fun _ _ => rfl⟩
    obtain h | ⟨_, -, -, hrest, -⟩ := deny_cases c languageId
    · exact congrArg LanguageCoordinator.documents h
    · exact hrest.documents
  | retry languageId =>
    change (c.retry languageId).1.documents = _ ∧ ∀ l generation,
      effectsFor (c.retry languageId).2 l generation = []
    obtain ⟨-, h⟩ | ⟨_, -, -, h⟩ := retry_cases c languageId
    · rw [h]
      exact ⟨rfl, fun _ _ => rfl⟩
    · rw [h]
      exact ⟨rfl, fun _ _ => rfl⟩
  | disableLanguage languageId =>
    refine ⟨?_, fun _ _ => rfl⟩
    obtain ⟨-, h⟩ | ⟨_, -, -, -, h⟩ := disableLanguage_cases env c languageId
    · exact congrArg (fun x => x.1.documents) h
    · exact (congrArg LanguageCoordinator.documents h).trans rfl
  | enableLanguage languageId =>
    change (c.enableLanguage env languageId).1.documents = _ ∧ ∀ l generation,
      effectsFor (c.enableLanguage env languageId).2 l generation = []
    obtain ⟨-, h⟩ | ⟨selection, -, -, ⟨-, h⟩ | ⟨-, h⟩⟩ := enableLanguage_cases env c languageId
    · rw [h]
      exact ⟨rfl, fun _ _ => rfl⟩
    · rw [h]
      exact ⟨rfl, fun _ _ => rfl⟩
    · rw [h]
      split
      · exact ⟨(rest_ensure _ languageId).documents, effectsFor_ensure _ _⟩
      · exact ⟨rfl, fun _ _ => rfl⟩
  | restartLanguage languageId =>
    refine ⟨?_, fun _ _ => rfl⟩
    obtain h | ⟨_, -, -, -, h⟩ := restartLanguage_cases c languageId
    · exact congrArg (fun x => x.1.documents) h
    · exact congrArg (fun x => x.1.documents) h
  | publishDiagnostics order languageId generation path version diagnostics =>
    refine ⟨?_, fun _ _ => rfl⟩
    change (c.publishDiagnostics order languageId generation path version
      diagnostics).documents = _
    unfold publishDiagnostics
    split
    · rfl
    · split
      · rfl
      · split
        · rfl
        · dsimp only
          split
          · rfl
          · rfl
  | dismissFeatures | setProblemFilter _ | toggleProblems => exact ⟨rfl, fun _ _ => rfl⟩
  | openDocument _ _ _ _ _ | editDocument _ _ _ | saveDocument _ | closeDocument _
  | setOverride _ _ | markReady _ _ _ _ | markStopped _ _ | failWithMessage _ _ _
  | beginFeature _ _ _ | acceptFeatureResponse _ _ _ | expireFeature _ => cases h

/-- A server is spawned once its discovery or approval ended in it. -/
theorem spawned_cases (env : LanguageEnv) {op : CoordinatorOp} {l : String} {generation : UInt64}
    (h : op.spawned c = some (l, generation)) :
    plain op = true ∧ op.shutdown env c = none ∧ waiting (c.serverOrNew l).state = true ∧
      (c.serverOrNew l).generation = generation ∧
        ((op.run env c).1.serverOrNew l).generation = generation ∧
          ((op.run env c).1.serverOrNew l).state = .starting := by
  cases op with
  | discovered workspaceId languageId g result =>
    cases result with
    | available =>
      obtain ⟨server, hd, he⟩ := Option.map_eq_some_iff.mp h
      cases he
      obtain ⟨hg, hgen, hst⟩ := discovering_eq_some hd
      have hrun : (CoordinatorOp.run env c (.discovered workspaceId l generation .available)).1 =
          c.setServer l { server with state := .starting } := by
        change c.discoveryAvailable workspaceId l generation = _
        unfold discoveryAvailable
        rw [hd]
      have hnew : (c.setServer l { server with state := .starting }).serverOrNew l =
          { server with state := .starting } :=
        serverOrNew_of_get? (by rw [get?_setServer, if_pos rfl])
      rw [hrun, hnew, serverOrNew_of_get? hg, hst]
      exact ⟨rfl, rfl, rfl, hgen, hgen, rfl⟩
    | approvalRequired _ | unavailable | disabled | error => cases h
  | approve languageId =>
    obtain ⟨⟨g, discovered⟩, ha, he⟩ := Option.map_eq_some_iff.mp h
    cases he
    have hrun : (CoordinatorOp.run env c (.approve l)).1 = (c.approve l).1 := rfl
    rw [hrun]
    unfold approve at ha ⊢
    split at ha
    · cases ha
    · next server hf =>
      obtain ⟨hg, hp⟩ := get?_filter_eq_some.mp hf
      split at ha
      · cases ha
      · dsimp only at ha
        split at ha
        · cases ha
        · cases ha
          dsimp only
          simp only [serverOrNew, setServer, SortedMap.get?_insert, if_true, Option.getD_some, hg,
            of_decide_eq_true hp]
          exact ⟨rfl, rfl, rfl, trivial, trivial, trivial⟩
  | _ => cases h

/-! ### Clients on their own -/

theorem steady_polled {c c' : LanguageClient} (h : Polled c c') :
    c'.documents = c.documents ∧ (c'.state = .ready → c.state = .ready) ∧
      (c'.state = .starting → c.state = .starting) := by
  refine ⟨(LanguageClient.Polled.fewer h).documents, ?_⟩
  obtain ⟨c₁, c₂, c₃, h₁, h₂, h₃, h₄⟩ := h
  have hs₁ : (c₁.state = .ready → c.state = .ready) ∧
      (c₁.state = .starting → c.state = .starting) := by
    obtain rfl | ⟨-, rfl⟩ := h₁
    · exact ⟨fun h => h, fun h => h⟩
    · exact ⟨by simp, by simp⟩
  have hs₂ : (c₂.state = .ready → c₁.state = .ready) ∧
      (c₂.state = .starting → c₁.state = .starting) := by
    obtain ⟨state, requests, cancels, rfl, -, -, rfl | ⟨-, rfl⟩⟩ := h₂.cancelled
    · exact ⟨fun h => h, fun h => h⟩
    · exact ⟨by simp, by simp⟩
  have hs₃ : (c₃.state = .ready → c₂.state = .ready) ∧
      (c₃.state = .starting → c₂.state = .starting) := by
    obtain rfl | ⟨-, rfl⟩ := h₃
    · exact ⟨fun h => h, fun h => h⟩
    · exact ⟨by simp, by simp⟩
  have hs₄ : (c'.state = .ready → c₃.state = .ready) ∧
      (c'.state = .starting → c₃.state = .starting) := by
    cases h₄ with
    | not => exact ⟨fun h => h, fun h => h⟩
    | shutdown | full | exhausted =>
      exact ⟨by simp [LanguageClient.shuttingDown, LanguageClient.stopping, LanguageClient.queue],
        by simp [LanguageClient.shuttingDown, LanguageClient.stopping, LanguageClient.queue]⟩
  exact ⟨fun h => hs₁.1 (hs₂.1 (hs₃.1 (hs₄.1 h))), fun h => hs₁.2 (hs₂.2 (hs₃.2 (hs₄.2 h)))⟩

section Steady

variable {running : RunningLanguage} {now : Duration} {order : HashOrder}

theorem Steady.of_outline {r : RunningLanguage} (ho : r.outline = running.outline)
    (hd : r.client.documents = running.client.documents) : Steady running r := by
  obtain ⟨hgeneration, hs⟩ := Prod.mk.inj ho
  exact ⟨hgeneration, hd, fun h => hs.symm.trans h, fun h => hs.symm.trans h⟩

theorem steady_beginShutdown (now : Duration) (running : RunningLanguage) :
    wp (RunningLanguage.beginShutdown now) (fun _ r => Steady running r)
      (fun _ r => Steady running r) True running := by
  simp only [RunningLanguage.beginShutdown, RunningLanguage.onClient, wp_bind, wp_focus, wp_modify,
    wp_beginShutdown]
  refine ⟨fun _ => ⟨fun _ => ⟨fun deadline _ => ?_, fun _ => trivial⟩, fun _ => ?_⟩, fun _ => ?_⟩
  · exact ⟨rfl, rfl, by simp [LanguageClient.shuttingDown, LanguageClient.stopping],
      by simp [LanguageClient.shuttingDown, LanguageClient.stopping]⟩
  · exact ⟨rfl, rfl, by simp [LanguageClient.stopping], by simp [LanguageClient.stopping]⟩
  · exact .of_outline rfl rfl

theorem requestFeature_outline (kind : FeatureRequestKind) (document : String) (revision : UInt64)
    (position : LspPosition) (now : Duration) (order : HashOrder) (running : RunningLanguage) :
    wp (RunningLanguage.requestFeature kind document revision position now order)
      (fun _ r => r.outline = running.outline ∧ r.client.documents = running.client.documents)
      (fun _ r => r.outline = running.outline ∧ r.client.documents = running.client.documents) True
      running := by
  have hspec := ClientOp.run_spec (.requestFeature kind document revision position now order)
    running.client
  simp only [ClientOp.run, wp_discard] at hspec
  simp only [RunningLanguage.requestFeature, RunningLanguage.onClient, RunningLanguage.flushClient,
    wp_bind, wp_focus, wp_modify, wp_pure]
  refine wp_mono hspec (fun _ client hd => ?_) (fun _ client hf => ?_) fun h => h
  · obtain ⟨-, -, -, request, rfl⟩ := hd
    exact ⟨rfl, rfl⟩
  · obtain rfl | ⟨-, -, ids, rfl⟩ := hf <;> exact ⟨rfl, rfl⟩

theorem steady_pollTimeouts (now : Duration) (running : RunningLanguage) :
    wp (RunningLanguage.pollTimeouts now) (fun _ r => Steady running r) (fun _ _ => True) True
      running := by
  simp only [RunningLanguage.pollTimeouts, RunningLanguage.onClient, RunningLanguage.flushClient,
    wp_bind, wp_focus, wp_modify, wp_ite, wp_discard, LanguageClient.wp_flushChanges, wp_pure]
  refine wp_mono (pollTimeouts_spec now running.client) (fun _ client hp => ?_)
    (fun _ _ _ => trivial) fun h => h
  obtain ⟨hd, hr, hs⟩ := steady_polled hp
  exact ⟨fun _ => ⟨rfl, hd, hr, hs⟩, fun _ => ⟨rfl, hd, hr, hs⟩⟩

theorem acceptResponse_outline (id : RequestId) (running : RunningLanguage) :
    wp (RunningLanguage.acceptResponse id)
      (fun _ r => r.outline = running.outline ∧ r.client.documents = running.client.documents)
      (fun _ _ => True) True running := by
  have hshutdown := ClientOp.run_spec (.acceptShutdown id) running.client
  simp only [RunningLanguage.acceptResponse, RunningLanguage.onClient, RunningLanguage.flushClient,
    wp_bind, wp_get, wp_ite, wp_focus, wp_modify, wp_pure]
  refine ⟨fun _ => ?_, fun _ => ?_⟩
  · refine wp_mono hshutdown (fun _ client hd => ?_) (fun _ _ _ => trivial) fun h => h
    obtain ⟨-, -, -, rfl⟩ := hd
    exact ⟨rfl, rfl⟩
  · cases running.featureRequests.get? id with
    | none => exact wp_pure.mpr ⟨rfl, rfl⟩
    | some request =>
      have hspec := ClientOp.run_spec (.acceptFeatureResponse request) running.client
      simp only [ClientOp.run, wp_discard] at hspec
      simp only [wp_bind, wp_modify, wp_focus, wp_pure]
      refine wp_mono hspec (fun _ client hd => ?_) (fun _ _ _ => trivial) fun h => h
      cases hd
      exact ⟨rfl, rfl⟩

end Steady

/-! ### The steps -/

section Steps

variable {s s' : LanguageSystem} {now : Duration} {order : HashOrder}

theorem allSteady_beginShutdown (l : String) (generation : UInt64) (now : Duration)
    (r : LanguageRuntime) :
    wp (LanguageRuntime.beginShutdown l generation now) (fun _ r' => AllSteady r r')
      (fun _ r' => AllSteady r r') True r := by
  simp only [LanguageRuntime.beginShutdown, wp_bind, wp_get]
  cases hg : r.get? l with
  | none => exact wp_throw.mpr (allSteady_refl r)
  | some running =>
    simp only [wp_bind, wp_ensure, wp_focus]
    refine ⟨fun _ => ?_, fun _ => allSteady_refl r⟩
    exact wp_mono (steady_beginShutdown now running) (fun _ _ hs => allSteady_insert hg hs)
      (fun _ _ hs => allSteady_insert hg hs) fun h => h

variable {l : String}

theorem agrees_shutDown (h : Agrees uri s)
    (hmax : ∀ k, (s.coordinator.serverOrNew k).generation ≠ -1) {op : CoordinatorOp} {generation : UInt64}
    (hop : op.shutdown env s.coordinator = some (l, generation))
    (hs : s.shutDown op (op.run env s.coordinator).1 l generation now = some s') :
    Agrees uri s' := by
  cases op with
  | disableLanguage languageId =>
    have hmoved := (allKept_disable env s.coordinator languageId).moved
    have hplain : plain (.disableLanguage languageId) = true := rfl
    have hdocuments := (plain_run env s.coordinator hplain).1
    refine wp.observe (wp_mono (allSteady_beginShutdown l generation now s.processes)
      (fun _ r hr => ?_) (fun _ r hr => ?_) fun h => h) hs
    · exact agrees_steady h hmax hmoved hdocuments hr fun _ ht => ht
    · exact agrees_steady h hmax hmoved hdocuments hr fun _ ht => ht
  | restartLanguage languageId =>
    have hkept := allKept_restart s.coordinator languageId
    have hplain : plain (.restartLanguage languageId) = true := rfl
    have hdocuments := (plain_run env s.coordinator hplain).1
    refine wp.observe (wp_mono (allSteady_beginShutdown l generation now s.processes)
      (fun _ r hr => ?_) (fun _ r hr => ?_) fun h => h) hs
    · exact agrees_steady h hmax hkept.moved hdocuments hr fun _ ht => ht
    · exact agrees_steady h hmax (hkept.trans (allKept_failWithMessage _ _ _ _).moved)
        ((documents_failWithMessage _ _ _ _).trans hdocuments) hr fun _ ht => ht
  | _ => cases hop

/-- The spawn that the operation asks for is of a server that waited. -/
theorem servers_operate (h : Agrees uri s)
    (hmax : ∀ k, (s.coordinator.serverOrNew k).generation ≠ -1) {op : CoordinatorOp}
    (hop : op.ofUser = true) (l : String) :
    ServerOk ((op.run env s.coordinator).1.serverOrNew l)
      ((s.processes.get? l).map (·.outline)) fun generation =>
        (l, generation) ∈ s.spawning ++ (op.spawned s.coordinator).toList := by
  have hmoved := ((h.servers l).moved (allMoved_run env _ hop l) (hmax l))
  cases hsp : op.spawned s.coordinator with
  | none =>
    refine hmoved.fewer fun g hg => ?_
    rwa [Option.toList_none, List.append_nil] at hg
  | some target =>
    obtain ⟨k, generation⟩ := target
    obtain ⟨-, -, hw, hgen, hgen', hst⟩ := spawned_cases env hsp
    by_cases hk : l = k
    · subst hk
      refine (h.servers l).spawns hw (hgen'.trans hgen.symm) hst fun g hg => ?_
      obtain hg | hg := List.mem_append.mp hg
      · exact .inl hg
      · have he := List.mem_singleton.mp hg
        exact .inr ((congrArg Prod.snd he).trans hgen.symm)
    · refine hmoved.fewer fun g hg => ?_
      obtain hg | hg := List.mem_append.mp hg
      · exact hg
      · exact absurd (congrArg Prod.fst (List.mem_singleton.mp hg)) hk

theorem setOverride_eq {previous : DocumentBinding} (hg : c.documents.get? id = some previous)
    (languageOverride : Option String) :
    c.setOverride env id languageOverride =
      (((c.closeDocument id).1.openBinding id (overridden env previous languageOverride)).1,
        (c.closeDocument id).2 ++
          ((c.closeDocument id).1.openBinding id
            (overridden env previous languageOverride)).2) := by
  unfold setOverride
  rw [hg]
  rfl

theorem setOverride_none (hg : c.documents.get? id = none) (languageOverride : Option String) :
    c.setOverride env id languageOverride = (c, []) := by
  unfold setOverride
  rw [hg]

/-- What an orderly operation makes of the documents and asks of the processes. -/
theorem documents_run {op : CoordinatorOp} (hop : op.ofUser = true) (hdistinct : Distinct uri c)
    (hsynced : Synced uri c [] r) (hok : OrderlyOp env uri c r op) :
    Distinct uri (op.run env c).1 ∧ LanguageRuntime.Ready uri (op.run env c).2 r ∧
      Synced uri (op.run env c).1 (op.run env c).2 r := by
  cases hplain : plain op with
  | true =>
    obtain ⟨hdocuments, hnone⟩ := plain_run env c hplain
    exact ⟨hdistinct.of_eq hdocuments, ready_of_none hnone,
      synced_of_none hnone (hsynced.moved (allMoved_run env c hop) hdocuments (allSteady_refl r))⟩
  | false =>
    cases op with
    | openDocument id path languageOverride revision text =>
      have hnone : LanguageRuntime.Ready uri [] r := ready_of_none fun _ _ => rfl
      exact ⟨distinct_open hdistinct hok, ready_open hnone hok, synced_open hsynced hok⟩
    | editDocument id revision text =>
      exact ⟨distinct_edit hdistinct, ready_edit hsynced hok, synced_edit hsynced hdistinct⟩
    | saveDocument id => exact ⟨hdistinct, ready_save hsynced hok, synced_save hsynced⟩
    | closeDocument id =>
      exact ⟨distinct_close hdistinct, ready_close hsynced hok, synced_close hsynced hdistinct⟩
    | setOverride id languageOverride =>
      obtain ⟨hclose, hopen⟩ := hok
      change Distinct uri (c.setOverride env id languageOverride).1 ∧
        LanguageRuntime.Ready uri (c.setOverride env id languageOverride).2 r ∧
          Synced uri (c.setOverride env id languageOverride).1
            (c.setOverride env id languageOverride).2 r
      cases hg : c.documents.get? id with
      | none =>
        rw [setOverride_none hg]
        exact ⟨hdistinct, ready_of_none fun _ _ => rfl, hsynced⟩
      | some previous =>
        have hopen := openOk_close (hopen previous hg)
        rw [setOverride_eq hg]
        exact ⟨distinct_open (distinct_close hdistinct) hopen,
          ready_open (ready_close hsynced hclose) hopen,
          synced_open (synced_close hsynced hdistinct) hopen⟩
    | _ => exact absurd (hop.symm.trans hplain) (by simp)

theorem agrees_operate (h : Agrees uri s)
    (hmax : ∀ k, (s.coordinator.serverOrNew k).generation ≠ -1) {op : CoordinatorOp}
    (hop : op.ofUser = true) (hok : OrderlyOp env uri s.coordinator s.processes op)
    (hs : s.operate env uri op now order = some s') : Agrees uri s' := by
  unfold LanguageSystem.operate at hs
  dsimp only at hs
  cases hshut : op.shutdown env s.coordinator with
  | some target =>
    obtain ⟨l, generation⟩ := target
    rw [hshut] at hs
    have hnone : op.spawned s.coordinator = none := by
      cases hsp : op.spawned s.coordinator with
      | none => rfl
      | some spawn =>
        have := (spawned_cases env hsp).2.1
        rw [hshut] at this
        cases this
    rw [hnone, Option.toList_none, List.append_nil] at hs
    exact agrees_shutDown h hmax hshut hs
  | none =>
    rw [hshut] at hs
    obtain ⟨hdistinct, hready, hsynced⟩ := documents_run hop h.distinct h.synced hok
    refine agrees_apply ?_ hdistinct ?_ ?_ ?_ (failedFor_failAll _ _) hs
    · exact servers_operate h hmax hop
    · exact hready
    · exact hsynced
    · exact h.accepted

theorem agrees_stopped (h : Agrees uri s)
    (hmax : ∀ k, (s.coordinator.serverOrNew k).generation ≠ -1) (l : String) (generation : UInt64) :
    Agrees uri (s.stopped l generation) := by
  refine agrees_steady h hmax (allMoved_markStopped _ _ _) ?_ (allSteady_remove _ l) fun _ ht => ht
  obtain ⟨-, hm⟩ | ⟨server, -, -, hm⟩ := markStopped_cases s.coordinator l generation
  · rw [hm]
  · rw [hm]
    split
    · exact (rest_ensure _ l).documents
    · rfl

theorem agrees_failed (h : Agrees uri s)
    (hmax : ∀ k, (s.coordinator.serverOrNew k).generation ≠ -1) (l : String) (generation : UInt64)
    (message : String) : Agrees uri (s.failed l generation message) :=
  agrees_steady h hmax (allKept_failWithMessage _ _ _ _).moved (documents_failWithMessage _ _ _ _)
    (allSteady_remove _ l) fun _ ht => ht

/-- The process of a language changes, and the coordinator forgets or learns of features. -/
theorem agrees_insert (h : Agrees uri s)
    (hmax : ∀ k, (s.coordinator.serverOrNew k).generation ≠ -1)
    {running running' : RunningLanguage} (hg : s.processes.get? l = some running)
    (hsteady : Steady running running') (hservers : c.servers = s.coordinator.servers)
    (hdocuments : c.documents = s.coordinator.documents) :
    Agrees uri { s with coordinator := c, processes := s.processes.insert l running' } :=
  agrees_steady h hmax (allKept_of_eq hservers).moved hdocuments (allSteady_insert hg hsteady)
    fun _ ht => ht

theorem expireFeatures_fields (requests : List FeatureRequest) (c : LanguageCoordinator) :
    (requests.foldl (·.expireFeature ·) c).servers = c.servers ∧
      (requests.foldl (·.expireFeature ·) c).documents = c.documents := by
  induction requests generalizing c with
  | nil => exact ⟨rfl, rfl⟩
  | cons request requests ih => exact ih (c.expireFeature request)

theorem acceptFeature_fields (c : LanguageCoordinator) (generation : UInt64)
    (request : FeatureRequest) (result : FeatureResult) :
    (c.acceptFeatureResponse generation request result).servers = c.servers ∧
      (c.acceptFeatureResponse generation request result).documents = c.documents :=
  ⟨SortedMap.ext_get? fun k => (same_acceptFeature c generation request result k).server,
    (rest_acceptFeature c generation request result).documents⟩

/-- A fresh process takes the place of the one that was spawned. -/
theorem agrees_started (h : Agrees uri s) {generation : UInt64}
    (hin : (l, generation) ∈ s.spawning) {running : RunningLanguage}
    (hgen : running.generation = generation) (hstarting : running.client.state = .starting) :
    Agrees uri { s with
      processes := s.processes.insert l running
      spawning := s.spawning.filter (· ≠ (l, generation)) } := by
  refine ⟨fun k => ?_, h.distinct, fun id document other hd he hg hog hst hclient => ?_, h.accepted⟩
  · have hfewer : ∀ k g, (k, g) ∈ s.spawning.filter (· ≠ (l, generation)) → (k, g) ∈ s.spawning :=
      fun k g hg => List.mem_of_mem_filter hg
    dsimp only
    rw [SortedMap.get?_insert]
    by_cases hk : k = l
    · rw [if_pos hk]
      subst hk
      have hok := h.servers k
      refine ⟨fun g state he => ?_, fun g hg => hok.spawned g (hfewer k g hg), fun state he => ?_,
        fun hg => hok.starting (hfewer _ _ hg)⟩
      · rw [Option.map_some, RunningLanguage.outline, hgen, Option.some.injEq] at he
        cases he
        exact hok.spawned _ hin
      · rw [Option.map_some, RunningLanguage.outline, hgen, Option.some.injEq] at he
        obtain ⟨hge, hse⟩ := Prod.mk.inj he
        have hstart := hok.starting (hge ▸ hin)
        refine ⟨hstart.1, fun hg => ?_, fun hr => absurd hr hstart.2⟩
        have hne := of_decide_eq_true (List.mem_filter.mp hg).2
        exact hne (by rw [hge])
    · rw [if_neg hk]
      exact (h.servers k).fewer fun g hg => hfewer k g hg
  · dsimp only at hg
    rw [SortedMap.get?_insert] at hg
    split at hg
    · cases hg
      rw [hstarting] at hclient
      cases hclient
    · exact h.synced id document other hd he hg hog hst hclient

theorem start_spec {workspaceId l : String} {generation : UInt64} {running : RunningLanguage}
    (h : RunningLanguage.start workspaceId l generation now = some running) :
    running.generation = generation ∧ running.client.state = .starting := by
  unfold RunningLanguage.start at h
  cases hx : (LanguageClient.start now).exec (.new workspaceId l) with
  | none => rw [hx] at h; cases h
  | some outcome =>
    obtain ⟨e | message, client⟩ := outcome
    · rw [hx] at h
      cases h
    · rw [hx] at h
      obtain ⟨id, -, rfl⟩ := Option.map_eq_some_iff.mp h
      refine ⟨rfl, ?_⟩
      have hspec : wp (LanguageClient.start now) (fun _ c' => c'.state = .starting)
          (fun _ _ => True) True (.new workspaceId l) := by
        simp only [LanguageClient.start, wp_bind, wp_get, wp_ensure, wp_modify,
          LanguageClient.wp_nextId, wp_orPanic, wp_pure]
        exact ⟨fun _ => ⟨fun _ => ⟨fun _ _ => trivial, fun _ => trivial⟩, fun _ => trivial⟩,
          fun _ => trivial⟩
      exact hspec.of_ok hx

/-! ### The initialization -/

/-- The file and the revision that a message opens. -/
def opened (uri : PathBuf → String) : LanguageEffect → Option (String × UInt64)
  | .open _ _ _ path revision _ => some (uri path, revision)
  | _ => none

theorem revisions_opened {e : LanguageEffect} {file : String} {revision : UInt64}
    (h : opened uri e = some (file, revision)) (known : SortedMap String UInt64) :
    e.revisions uri known = known.insert file revision ∧ e.Fits uri known := by
  cases e with
  | «open» => cases h; exact ⟨rfl, trivial⟩
  | discover | change | save | close => cases h

theorem fitAll_opened {es : List LanguageEffect} (h : ∀ e ∈ es, (opened uri e).isSome)
    (known : SortedMap String UInt64) : LanguageEffect.FitAll uri known es := by
  induction es generalizing known with
  | nil => trivial
  | cons e es ih =>
    obtain ⟨⟨file, revision⟩, he⟩ := Option.isSome_iff_exists.mp (h e List.mem_cons_self)
    exact ⟨(revisions_opened he known).2, ih (fun e he => h e (List.mem_cons_of_mem _ he)) _⟩

/-- A file that is opened at one revision only is known at it. -/
theorem get?_opened {es : List LanguageEffect} {file : String} {revision : UInt64}
    {known : SortedMap String UInt64} (hall : ∀ e ∈ es, ∃ other, opened uri e = some other ∧
      (other.1 = file → other.2 = revision))
    (h : known.get? file = some revision ∨ ∃ e ∈ es, opened uri e = some (file, revision)) :
    (es.foldl (LanguageEffect.revisions uri) known).get? file = some revision := by
  induction es generalizing known with
  | nil =>
    obtain h | ⟨e, he, -⟩ := h
    · exact h
    · cases he
  | cons e es ih =>
    obtain ⟨⟨other, otherRevision⟩, he, hsame⟩ := hall e List.mem_cons_self
    rw [List.foldl_cons, (revisions_opened he known).1]
    refine ih (fun e he => hall e (List.mem_cons_of_mem _ he)) ?_
    rw [SortedMap.get?_insert]
    by_cases hfile : file = other
    · rw [if_pos hfile]
      exact .inl (congrArg some (hsame hfile.symm))
    · rw [if_neg hfile]
      obtain h | ⟨e', he', ho⟩ := h
      · exact .inl h
      · obtain rfl | he' := List.mem_cons.mp he'
        · rw [he] at ho
          cases ho
          exact absurd rfl hfile
        · exact .inr ⟨e', he', ho⟩

theorem acceptInitialize_spec (capabilities : ServerCapabilities) (running : RunningLanguage) :
    wp (RunningLanguage.acceptInitialize capabilities)
      (fun _ r => r.generation = running.generation ∧ running.client.state = .starting ∧
        r.client.state = .ready) (fun _ _ => True) True running := by
  simp only [RunningLanguage.acceptInitialize, RunningLanguage.onClient,
    RunningLanguage.flushClient, wp_bind, wp_get, wp_focus, wp_modify]
  refine wp_mono (ClientOp.run_spec (.acceptInitialize running.initializeId capabilities)
    running.client) (fun _ client hd => ?_) (fun _ _ _ => trivial) fun h => h
  obtain ⟨hstate, -, -, rfl⟩ := hd
  exact ⟨trivial, hstate, rfl⟩

/-- The documents that a server is told of when it is ready. -/
def announcements (c : LanguageCoordinator) (keys : KeyOrder DocumentId) (l : String)
    (generation : UInt64) : List LanguageEffect :=
  (keys.order c.documents.keys).filterMap fun id =>
    ((c.documents.get? id).filter fun document =>
      document.eligible && document.languageId = l).map fun document =>
        .open l generation id document.path document.revision document.text

theorem mem_announcements {keys : KeyOrder DocumentId} {generation : UInt64}
    {e : LanguageEffect} :
    e ∈ announcements c keys l generation ↔ ∃ id document, c.documents.get? id = some document ∧
      document.eligible = true ∧ document.languageId = l ∧
        e = .open l generation id document.path document.revision document.text := by
  rw [announcements, List.mem_filterMap]
  constructor
  · rintro ⟨id, -, he⟩
    obtain ⟨document, hf, rfl⟩ := Option.map_eq_some_iff.mp he
    obtain ⟨hg, hp⟩ := Option.filter_eq_some_iff.mp hf
    obtain ⟨hel, hl⟩ := Bool.and_eq_true_iff.mp hp
    exact ⟨id, document, hg, hel, of_decide_eq_true hl, rfl⟩
  · rintro ⟨id, document, hg, hel, hl, rfl⟩
    refine ⟨id, (keys.perm _).mem_iff.mpr (SortedMap.mem_keys_of_get? hg), ?_⟩
    rw [hg, Option.filter_some, hel, hl]
    simp

theorem markReady_announces (c : LanguageCoordinator) (keys : KeyOrder DocumentId) (l : String)
    (generation : UInt64) (positionEncoding : PositionEncoding) :
    c.markReady keys l generation positionEncoding = (c, []) ∨
      ∃ server, c.servers.get? l = some server ∧ server.generation = generation ∧
        server.state = .starting ∧
          c.markReady keys l generation positionEncoding =
            (c.setServer l { server with state := .ready, positionEncoding },
              announcements c keys l generation) := by
  unfold markReady
  cases hf : (c.servers.get? l).filter fun server =>
      server.generation = generation && server.state = .starting with
  | none => exact .inl rfl
  | some server =>
    obtain ⟨hg, hp⟩ := get?_filter_eq_some.mp hf
    simp only [Bool.and_eq_true, decide_eq_true_eq] at hp
    exact .inr ⟨server, hg, hp.1, hp.2, rfl⟩

/-- The documents of other languages are not announced. -/
theorem effectsFor_announcements {keys : KeyOrder DocumentId} {l k : String}
    {generation g : UInt64} :
    effectsFor (announcements c keys l generation) k g =
      if (k, g) = (l, generation) then announcements c keys l generation else [] := by
  split
  · next he =>
    refine List.filter_eq_self.mpr fun e hin => ?_
    obtain ⟨id, document, -, -, -, rfl⟩ := mem_announcements.mp hin
    exact decide_eq_true (congrArg some he.symm)
  · next hne =>
    refine List.filter_eq_nil_iff.mpr fun e hin ht => ?_
    obtain ⟨id, document, -, -, -, rfl⟩ := mem_announcements.mp hin
    exact hne (Option.some.inj (of_decide_eq_true ht)).symm

/-- A process whose client became ready, while its server was starting or is of no interest. -/
theorem servers_initialized (h : Agrees uri s) {running running' : RunningLanguage}
    (hg : s.processes.get? l = some running) (hgen : running'.generation = running.generation)
    (hstarting : running.client.state = .starting) (hready : running'.client.state = .ready)
    (k : String) : ServerOk (s.coordinator.serverOrNew k)
      (((s.processes.insert l running').get? k).map (·.outline))
      fun generation => (k, generation) ∈ s.spawning := by
  refine (h.servers k).process fun g state he => ?_
  rw [SortedMap.get?_insert] at he
  split at he
  · next hk =>
    rw [Option.map_some, RunningLanguage.outline, hready, Option.some.injEq] at he
    cases he
    refine ⟨.starting, ?_, fun h => by cases h⟩
    rw [hk, hg, Option.map_some, RunningLanguage.outline, hstarting, hgen]
  · exact ⟨state, he, fun h => h⟩

/-- The server that a process has while its client starts is not ready. -/
theorem not_ready_of_starting (h : Agrees uri s) {running : RunningLanguage}
    (hg : s.processes.get? l = some running) (hstarting : running.client.state = .starting)
    (hgen : running.generation = (s.coordinator.serverOrNew l).generation) :
    (s.coordinator.serverOrNew l).state ≠ .ready := by
  have hcurrent := (h.servers l).current .starting (by
    rw [hg, Option.map_some, RunningLanguage.outline, hstarting, hgen])
  exact fun hr => hcurrent.2.2 hr rfl

theorem agrees_initialized (h : Agrees uri s) {running running' : RunningLanguage}
    {keys : KeyOrder DocumentId} {positionEncoding : PositionEncoding}
    (hg : s.processes.get? l = some running) (hgen : running'.generation = running.generation)
    (hstarting : running.client.state = .starting) (hready : running'.client.state = .ready)
    {c : LanguageCoordinator} {effects : List LanguageEffect}
    (hc : s.coordinator.markReady keys l running'.generation positionEncoding = (c, effects))
    (hs : { s with processes := s.processes.insert l running' }.apply uri now order c
      (c.fail l running'.generation) effects = some s') : Agrees uri s' := by
  have hservers := servers_initialized h hg hgen hstarting hready
  have hnot : running'.generation = (s.coordinator.serverOrNew l).generation →
      (s.coordinator.serverOrNew l).state ≠ .ready :=
    fun he => not_ready_of_starting h hg hstarting (hgen.symm.trans he)
  obtain hm | ⟨server, hserver, hsgen, hsst, hm⟩ :=
    markReady_announces s.coordinator keys l running'.generation positionEncoding
  · obtain ⟨rfl, rfl⟩ := Prod.mk.inj (hm.symm.trans hc)
    refine agrees_apply ?_ h.distinct ?_ ?_ ?_ (failedFor_fail _ l _ (by simp)) hs
    · exact hservers
    · exact ready_of_none fun _ _ => rfl
    · intro id document other hd he ho hog hst hclient
      rw [SortedMap.get?_insert] at ho
      split at ho
      · next hl =>
        cases ho
        rw [hl] at hst hog
        exact absurd hst (hnot hog)
      · exact h.synced id document other hd he ho hog hst hclient
    · exact h.accepted
  · obtain ⟨rfl, rfl⟩ := Prod.mk.inj (hm.symm.trans hc)
    have hnew := serverOrNew_of_get? hserver
    have hset : ∀ k, (s.coordinator.setServer l
        { server with state := .ready, positionEncoding }).serverOrNew k =
          if k = l then { server with state := .ready, positionEncoding }
          else s.coordinator.serverOrNew k := fun k => serverOrNew_of_insert rfl k
    have htargets : ∀ t ∈ (announcements s.coordinator keys l running'.generation).filterMap
        (·.target), t = (l, running'.generation) := by
      intro t ht
      obtain ⟨e, hin, ht⟩ := List.mem_filterMap.mp ht
      obtain ⟨id, document, -, -, -, rfl⟩ := mem_announcements.mp hin
      exact (Option.some.inj ht).symm
    refine agrees_apply ?_ ?_ ?_ ?_ ?_ (failedFor_fail _ l _ htargets) hs
    · intro k
      rw [hset]
      split
      · next hk =>
        subst hk
        have hok := hservers k
        have hcur := hok.current .ready (by
          rw [SortedMap.get?_insert, if_pos rfl, Option.map_some, RunningLanguage.outline, hready,
            hnew, hsgen])
        rw [hnew] at hok hcur
        refine ⟨hok.known, hok.spawned, fun state he => ?_, fun hg => absurd hg hcur.2.1⟩
        refine ⟨rfl, hcur.2.1, fun _ hst => ?_⟩
        dsimp only at he
        rw [SortedMap.get?_insert, if_pos rfl, Option.map_some, RunningLanguage.outline, hready,
          Option.some.injEq] at he
        rw [← (Prod.mk.inj he).2] at hst
        cases hst
      · exact hservers k
    · exact h.distinct
    · intro k other ho hne
      rw [effectsFor_announcements] at hne ⊢
      split at hne
      · next he =>
        obtain ⟨rfl, -⟩ := Prod.mk.inj he
        rw [SortedMap.get?_insert, if_pos rfl] at ho
        cases ho
        rw [if_pos he]
        refine ⟨hready, fitAll_opened (fun e hin => ?_) _⟩
        obtain ⟨id, document, -, -, -, rfl⟩ := mem_announcements.mp hin
        rfl
      · exact absurd rfl hne
    · intro id document other hd he ho hog hst hclient
      rw [SortedMap.get?_insert] at ho
      rw [effectsFor_announcements]
      split at ho
      · next hl =>
        cases ho
        rw [hl, if_pos rfl]
        refine get?_opened (fun e hin => ?_) (.inr ?_)
        · obtain ⟨id', document', hd', he', hl', rfl⟩ := mem_announcements.mp hin
          refine ⟨_, rfl, fun hu => ?_⟩
          have hid := h.distinct id' id document' document hd' hd he' he (hl'.trans hl.symm) hu
          rw [hid] at hd'
          rw [Option.some.inj (hd'.symm.trans hd)]
        · exact ⟨_, mem_announcements.mpr ⟨id, document, hd, he, hl, rfl⟩, rfl⟩
      · next hl =>
        rw [if_neg fun hk => hl (Prod.mk.inj hk).1]
        rw [hset, if_neg hl] at hst hog
        exact h.synced id document other hd he ho hog hst hclient
    · exact h.accepted

/-- An orderly step keeps the agreement. -/
theorem agrees_step {o : LanguageStep} (h : Agrees uri s) (hok : Orderly env uri s o)
    (hs : s.step env uri o = some s') : Agrees uri s' := by
  have hentries : ∀ e ∈ s.coordinator.servers.entries, e.2.generation ≠ -1 := by
    cases o with
    | operate => exact hok.1
    | _ => exact hok
  have hmax : ∀ k, (s.coordinator.serverOrNew k).generation ≠ -1 := by
    intro k
    unfold serverOrNew
    cases hg : s.coordinator.servers.get? k with
    | none => exact by decide
    | some server => exact hentries (k, server) (SortedMap.get?_eq_some.mp hg)
  cases o with
  | operate op now order =>
    simp only [LanguageSystem.step] at hs
    split at hs
    · next hop => exact agrees_operate h hmax hop hok.2 hs
    · cases hs
  | started l generation now =>
    simp only [LanguageSystem.step] at hs
    split at hs
    · next hin =>
      obtain ⟨running, hrun, rfl⟩ := Option.map_eq_some_iff.mp hs
      obtain ⟨hgen, hstarting⟩ := start_spec hrun
      exact agrees_started h hin hgen hstarting
    · cases hs
  | startFailed l generation message =>
    simp only [LanguageSystem.step] at hs
    split at hs
    · cases hs
      exact agrees_steady h hmax (allKept_failWithMessage _ _ _ _).moved
        (documents_failWithMessage _ _ _ _) (allSteady_refl _)
        fun t ht => List.mem_of_mem_filter ht
    · cases hs
  | featureRequested id kind position now order =>
    obtain ⟨⟨l, generation, path, revision⟩, -, hs⟩ := Option.bind_eq_some_iff.mp hs
    obtain ⟨running, hf, hs⟩ := Option.bind_eq_some_iff.mp hs
    have hg := (Option.filter_eq_some_iff.mp hf).1
    refine wp.observe (wp_mono (requestFeature_outline kind (uri path) revision position now order
      running) (fun _ running' hr => ?_) (fun _ running' hr => ?_) fun h => h) hs
    · exact agrees_insert h hmax hg (.of_outline hr.1 hr.2) rfl rfl
    · exact agrees_insert h hmax hg (.of_outline hr.1 hr.2) rfl rfl
  | polled l now =>
    obtain ⟨running, hg, hs⟩ := Option.bind_eq_some_iff.mp hs
    refine wp.observe (wp_mono (steady_pollTimeouts now running) (fun timeouts running' hr => ?_)
      (fun e _ _ => agrees_failed h hmax l running.generation e.text) fun h => h) hs
    obtain ⟨hservers, hdocuments⟩ := expireFeatures_fields
      (timeouts.filterMap (LanguageSystem.expiredRequest running)) s.coordinator
    have hexpired := agrees_insert h hmax hg hr hservers hdocuments
    have hmax' : ∀ k, (((timeouts.filterMap (LanguageSystem.expiredRequest running)).foldl
        (·.expireFeature ·) s.coordinator).serverOrNew k).generation ≠ -1 := by
      intro k
      unfold serverOrNew
      rw [hservers]
      exact hmax k
    unfold LanguageSystem.timedOut
    dsimp only
    split
    · exact agrees_stopped hexpired hmax' l running.generation
    · split
      · exact agrees_failed hexpired hmax' l running.generation _
      · exact hexpired
  | initialized l capabilities keys now order =>
    obtain ⟨running, hg, hs⟩ := Option.bind_eq_some_iff.mp hs
    obtain ⟨inner, hobserve, hs⟩ := Option.bind_eq_some_iff.mp hs
    refine wp.observe (I := fun inner => inner = some s' → Agrees uri s')
      (wp_mono (acceptInitialize_spec capabilities running) (fun _ running' hr hs => ?_)
        (fun e _ _ hs => ?_) fun h => h) hobserve hs
    · exact agrees_initialized h hg hr.1 hr.2.1 hr.2.2 rfl hs
    · cases hs
      exact agrees_failed h hmax l running.generation _
  | answered l id result =>
    obtain ⟨running, hg, hs⟩ := Option.bind_eq_some_iff.mp hs
    refine wp.observe (wp_mono (acceptResponse_outline id running) (fun request running' hr => ?_)
      (fun e _ _ => agrees_failed h hmax l running.generation e.text) fun h => h) hs
    have hr : Steady running running' := .of_outline hr.1 hr.2
    cases request with
    | none => exact agrees_insert h hmax hg hr rfl rfl
    | some request =>
      obtain ⟨hservers, hdocuments⟩ :=
        acceptFeature_fields s.coordinator running.generation request result
      exact agrees_insert h hmax hg hr hservers hdocuments
  | exited l message =>
    obtain ⟨running, -, rfl⟩ := Option.map_eq_some_iff.mp hs
    split
    · exact agrees_stopped h hmax l running.generation
    · exact agrees_failed h hmax l running.generation message
  | broken l message =>
    obtain ⟨running, -, rfl⟩ := Option.map_eq_some_iff.mp hs
    exact agrees_failed h hmax l running.generation message

theorem agrees_start (uri : PathBuf → String) (workspaceId : String)
    (restored : RestoredLanguageSession) : Agrees uri (.start workspaceId restored) := by
  refine ⟨fun l => ⟨?_, ?_, ?_, ?_⟩, ?_, ?_, ?_⟩
  · intro g state he
    cases he
  · intro g hg
    cases hg
  · intro state he
    cases he
  · intro hg
    cases hg
  · intro id id' document document' hd
    cases hd
  · intro id document running hd
    cases hd
  · intro e he
    cases he

end Steps

end Agreement

instance (uri : PathBuf → String) (c : LanguageCoordinator) (r : LanguageRuntime) (id : DocumentId)
    (document : DocumentBinding) : Decidable (OpenOk uri c r id document) :=
  inferInstanceAs (Decidable (_ → _ ∧ _))

instance (c : LanguageCoordinator) (r : LanguageRuntime) (id : DocumentId)
    (p : DocumentBinding → Prop) [DecidablePred p] : Decidable (ClientReady c r id p) :=
  inferInstanceAs (Decidable (∀ document ∈ c.documents.get? id, _ → _))

instance (c : LanguageCoordinator) (r : LanguageRuntime) (id : DocumentId) :
    Decidable (CloseOk c r id) :=
  inferInstanceAs (Decidable (∀ document ∈ c.documents.get? id, _ → _))

instance OrderlyOp.decidable (env : LanguageEnv) (uri : PathBuf → String) (c : LanguageCoordinator)
    (r : LanguageRuntime) : ∀ op, Decidable (OrderlyOp env uri c r op)
  | .openDocument id path languageOverride revision text =>
    inferInstanceAs (Decidable
      (OpenOk uri c r id (binding env path languageOverride revision text)))
  | .editDocument id revision _ =>
    inferInstanceAs (Decidable (ClientReady c r id fun document => document.revision < revision))
  | .saveDocument id => inferInstanceAs (Decidable (ClientReady c r id fun _ => True))
  | .closeDocument id => inferInstanceAs (Decidable (CloseOk c r id))
  | .setOverride id languageOverride =>
    inferInstanceAs (Decidable (CloseOk c r id ∧ ∀ previous ∈ c.documents.get? id,
      OpenOk uri c r id (overridden env previous languageOverride)))
  | .discovered .. | .approve _ | .deny _ | .retry _ | .disableLanguage _ | .enableLanguage _
  | .restartLanguage _ | .markReady .. | .markStopped .. | .failWithMessage ..
  | .publishDiagnostics .. | .beginFeature .. | .acceptFeatureResponse .. | .expireFeature _
  | .dismissFeatures | .setProblemFilter _ | .toggleProblems => isTrue trivial

instance Orderly.decidable (env : LanguageEnv) (uri : PathBuf → String) (s : LanguageSystem) :
    ∀ o, Decidable (Orderly env uri s o)
  | .operate op _ _ =>
    inferInstanceAs (Decidable ((∀ e ∈ s.coordinator.servers.entries, e.2.generation ≠ -1) ∧
      OrderlyOp env uri s.coordinator s.processes op))
  | .started .. | .startFailed .. | .featureRequested .. | .polled .. | .initialized ..
  | .answered .. | .exited .. | .broken .. =>
    inferInstanceAs (Decidable (∀ e ∈ s.coordinator.servers.entries, e.2.generation ≠ -1))

namespace LanguageSystem

/-- Where documents are opened, changed, saved and closed in order, no client refuses an effect. -/
theorem effects_law (env : LanguageEnv) (uri : PathBuf → String) (workspaceId : String)
    (restored : RestoredLanguageSession) {s : LanguageSystem}
    (h : Runs (step env uri) (Orderly env uri) (start workspaceId restored) s) :
    ∀ e ∈ s.rejected, ¬Refusal e :=
  (h.invariant (agrees_start uri workspaceId restored) fun _ _ _ hI hc hs =>
    agrees_step hI hc hs).accepted

/-- A document is opened and its server is spawned. -/
def opening : List LanguageStep :=
  [.operate (.openDocument ⟨1⟩ ⟨[97]⟩ none 0 (some "")) ⟨0, by decide⟩ .sorted,
    .operate (.discovered "w" "rust" 1 .available) ⟨0, by decide⟩ .sorted,
    .started "rust" 1 ⟨0, by decide⟩]

def capabilities : ServerCapabilities :=
  (ServerCapabilities.new .full [.completion] .utf8).withSaveNotifications true

/-- Once the server is ready, the document is edited, saved and closed. -/
def session : List LanguageStep :=
  opening ++
    [.initialized "rust" capabilities (.sorted DocumentId) ⟨1, by decide⟩ .sorted,
      .operate (.editDocument ⟨1⟩ 1 "b") ⟨2, by decide⟩ .sorted,
      .operate (.saveDocument ⟨1⟩) ⟨3, by decide⟩ .sorted,
      .operate (.closeDocument ⟨1⟩) ⟨4, by decide⟩ .sorted]

def rustOnly : LanguageEnv := ⟨fun _ => "rust", fun _ => some "rust-analyzer"⟩

def fileOf : PathBuf → String := fun _ => "file:///a"

/-- The document is closed while the server starts. -/
def closedEarly : List LanguageStep :=
  opening ++ [.operate (.closeDocument ⟨1⟩) ⟨1, by decide⟩ .sorted]

theorem effects_law_session : ∃ s : LanguageSystem,
    Runs (step rustOnly fileOf) (Orderly rustOnly fileOf) (start "w" ⟨[], [], false⟩) s ∧
      ∀ e ∈ s.rejected, ¬Refusal e := by
  have hrun : (session.foldlM (step rustOnly fileOf) (start "w" ⟨[], [], false⟩)).isSome := by
    decide +kernel
  have halong : Along (step rustOnly fileOf) (Orderly rustOnly fileOf) session
      (start "w" ⟨[], [], false⟩) := by
    decide +kernel
  obtain ⟨s, hs⟩ := Option.isSome_iff_exists.mp hrun
  exact ⟨s, halong.runs hs, effects_law rustOnly fileOf "w" ⟨[], [], false⟩ (halong.runs hs)⟩

/-- A close is sent, and refused. -/
theorem closed_while_starting :
    ¬ ∀ (env : LanguageEnv) (uri : PathBuf → String) (workspaceId : String)
      (restored : RestoredLanguageSession) (steps : List LanguageStep) (s : LanguageSystem),
      steps.foldlM (step env uri) (start workspaceId restored) = some s →
        ∀ e ∈ s.rejected, ¬Refusal e := by
  intro h
  have hrun : (closedEarly.foldlM (step rustOnly fileOf) (start "w" ⟨[], [], false⟩)).any
      (·.rejected = [.notReady]) := by
    decide
  obtain ⟨s, hs, hr⟩ := (Option.any_eq_true _ _).mp hrun
  refine h rustOnly fileOf "w" ⟨[], [], false⟩ _ s hs .notReady ?_ (.inl rfl)
  rw [of_decide_eq_true hr]
  exact List.mem_singleton_self _

end LanguageSystem

end Strukt.App
