import Strukt.App.EffectSpec
import Strukt.App.ServerMoves

/-!
# The agreement of the coordinator with the clients

`Agrees` relates the coordinator to the processes: where the coordinator's server is ready and so is
the client of its process, the client knows each document of the language at its revision.

* **Generations** (`ServerOk`): a process, or one that is being spawned, is of a generation that the
  server had or has; one of the present generation is there at most once, and not before it is
  discovered.
* **Order** (`Orderly`): what a step must meet for the two not to part.
* **Effects** keep the agreement whether they are taken in or not (`agrees_apply`): where one is
  not, the servers that the effects were for fail.
-/

namespace Strukt.App

open Strukt.Language Method LanguageCoordinator

/-- What is kept of one language: processes and spawns are of past generations or of the present
one; while the present one waits there is neither, and there are not both; and a ready server has
no process that is starting. -/
structure ServerOk (server : ServerBinding) (running : Option (UInt64 × LanguageServerState))
    (spawning : UInt64 → Prop) : Prop where
  known : ∀ generation state, running = some (generation, state) → generation ≤ server.generation
  spawned : ∀ generation, spawning generation → generation ≤ server.generation
  current : ∀ state, running = some (server.generation, state) →
    waiting server.state = false ∧ ¬spawning server.generation ∧
      (server.state = .ready → state ≠ .starting)
  starting : spawning server.generation → waiting server.state = false ∧ server.state ≠ .ready

theorem le_of_lt_succ {g g' : UInt64} (h : g ≤ g') (hmax : g' ≠ -1) : g < g' + 1 := by
  have hne : g'.toNat ≠ 2 ^ 64 - 1 := fun he => hmax (UInt64.toNat.inj (by rw [he]; rfl))
  have hlt := g'.toNat_lt
  rw [UInt64.lt_iff_toNat_lt, UInt64.toNat_add]
  have hle := UInt64.le_iff_toNat_le.mp h
  simp
  omega

namespace ServerOk

variable {server server' : ServerBinding} {running : Option (UInt64 × LanguageServerState)}
  {spawning spawning' : UInt64 → Prop}

theorem kept (h : ServerOk server running spawning) (hk : Kept server server') :
    ServerOk server' running spawning := by
  have hwaiting : waiting server.state = false → waiting server'.state = false := by
    intro hw
    cases hw' : waiting server'.state with
    | false => rfl
    | true => rw [hk.waiting hw'] at hw; cases hw
  refine ⟨?_, ?_, ?_, ?_⟩
  · rw [hk.generation]; exact h.known
  · rw [hk.generation]; exact h.spawned
  · rw [hk.generation]
    intro state hr
    obtain ⟨hw, hspawn, hst⟩ := h.current state hr
    exact ⟨hwaiting hw, hspawn, fun hready => hst (hk.ready hready)⟩
  · rw [hk.generation]
    intro hspawn
    obtain ⟨hw, hst⟩ := h.starting hspawn
    exact ⟨hwaiting hw, fun hready => hst (hk.ready hready)⟩

theorem moved (h : ServerOk server running spawning) (hm : Moved server server')
    (hmax : server.generation ≠ -1) : ServerOk server' running spawning := by
  obtain hk | ⟨hg, hs⟩ := hm
  · exact h.kept hk
  · have hnew : ∀ g, g ≤ server.generation → g < server'.generation := fun g hle => by
      rw [hg]
      exact le_of_lt_succ hle hmax
    refine ⟨fun g state hr => UInt64.le_of_lt (hnew g (h.known g state hr)),
      fun g hspawn => UInt64.le_of_lt (hnew g (h.spawned g hspawn)), fun state hr => ?_,
      fun hspawn => ?_⟩
    · exact absurd (hnew _ (h.known _ state hr)) (UInt64.lt_irrefl _)
    · exact absurd (hnew _ (h.spawned _ hspawn)) (UInt64.lt_irrefl _)

/-- The process changed, but for the start of its client. -/
theorem process {running' : Option (UInt64 × LanguageServerState)}
    (h : ServerOk server running spawning)
    (hr : ∀ g state, running' = some (g, state) → ∃ state', running = some (g, state') ∧
      (state = .starting → state' = .starting)) : ServerOk server running' spawning := by
  refine ⟨fun g state hg => ?_, h.spawned, fun state hg => ?_, h.starting⟩
  · obtain ⟨state', hg', -⟩ := hr g state hg
    exact h.known g state' hg'
  · obtain ⟨state', hg', hst⟩ := hr _ state hg
    obtain ⟨hw, hspawn, hready⟩ := h.current state' hg'
    exact ⟨hw, hspawn, fun h => fun he => hready h (hst he)⟩

theorem fewer (h : ServerOk server running spawning) (hs : ∀ g, spawning' g → spawning g) :
    ServerOk server running spawning' := by
  refine ⟨h.known, fun g hg => h.spawned g (hs g hg), fun state hr => ?_,
    fun hg => h.starting (hs _ hg)⟩
  obtain ⟨hw, hspawn, hready⟩ := h.current state hr
  exact ⟨hw, fun hg => hspawn (hs _ hg), hready⟩

/-- A server that waited is spawned. -/
theorem spawns (h : ServerOk server running spawning) (hw : waiting server.state = true)
    (hg : server'.generation = server.generation) (hst : server'.state = .starting)
    (hs : ∀ g, spawning' g → spawning g ∨ g = server.generation) :
    ServerOk server' running spawning' := by
  have hnone : ∀ state, running ≠ some (server.generation, state) := fun state hr => by
    have := (h.current state hr).1
    rw [hw] at this
    cases this
  refine ⟨?_, ?_, ?_, ?_⟩
  · rw [hg]; exact h.known
  · rw [hg]
    intro g hspawn
    obtain hspawn | rfl := hs g hspawn
    · exact h.spawned g hspawn
    · exact UInt64.le_refl _
  · rw [hg]
    exact fun state hr => absurd hr (hnone state)
  · intro _
    rw [hst]
    exact ⟨rfl, by simp⟩

end ServerOk

section Agreement

variable {env : LanguageEnv} {uri : PathBuf → String} {c c' : LanguageCoordinator}
  {r r' : LanguageRuntime} {id : DocumentId}

/-- The state of the server that a language has, and its client, if the process is up. -/
def attached (c : LanguageCoordinator) (r : LanguageRuntime) (l : String) :
    Option (LanguageState × LanguageClient) :=
  ((r.get? l).filter fun running => running.generation = (c.serverOrNew l).generation).map
    fun running => ((c.serverOrNew l).state, running.client)

theorem attached_eq_some {l : String} {state : LanguageState} {client : LanguageClient} :
    attached c r l = some (state, client) ↔ ∃ running, r.get? l = some running ∧
      running.generation = (c.serverOrNew l).generation ∧ (c.serverOrNew l).state = state ∧
        running.client = client := by
  unfold attached
  rw [Option.map_eq_some_iff]
  constructor
  · rintro ⟨running, hf, he⟩
    obtain ⟨hg, hp⟩ := Option.filter_eq_some_iff.mp hf
    cases he
    exact ⟨running, hg, of_decide_eq_true hp, rfl, rfl⟩
  · rintro ⟨running, hg, hp, rfl, rfl⟩
    exact ⟨running, Option.filter_eq_some_iff.mpr ⟨hg, decide_eq_true hp⟩, rfl⟩

/-- No two open documents of a language are one file. -/
def Distinct (uri : PathBuf → String) (c : LanguageCoordinator) : Prop :=
  ∀ id id' document document', c.documents.get? id = some document →
    c.documents.get? id' = some document' → document.eligible = true →
      document'.eligible = true → document.languageId = document'.languageId →
        uri document.path = uri document'.path → id = id'

/-- Once the effects are applied, each ready client of a ready server knows every document of its
language at its revision. -/
def Synced (uri : PathBuf → String) (c : LanguageCoordinator) (effects : List LanguageEffect)
    (r : LanguageRuntime) : Prop :=
  ∀ id document running, c.documents.get? id = some document → document.eligible = true →
    r.get? document.languageId = some running →
      running.generation = (c.serverOrNew document.languageId).generation →
        (c.serverOrNew document.languageId).state = .ready → running.client.state = .ready →
          ((effectsFor effects document.languageId running.generation).foldl
            (LanguageEffect.revisions uri) running.client.documents).get? (uri document.path) =
              some document.revision

structure Agrees (uri : PathBuf → String) (s : LanguageSystem) : Prop where
  servers : ∀ l, ServerOk (s.coordinator.serverOrNew l) ((s.processes.get? l).map (·.outline))
    fun generation => (l, generation) ∈ s.spawning
  distinct : Distinct uri s.coordinator
  synced : Synced uri s.coordinator [] s.processes
  accepted : ∀ e ∈ s.rejected, ¬Refusal e

/-! ### Orderly steps -/

/-- A document is opened at a ready server only while its client is ready, with its language
enabled, and no other open document of the language is the same file. -/
def OpenOk (uri : PathBuf → String) (c : LanguageCoordinator) (r : LanguageRuntime)
    (id : DocumentId) (document : DocumentBinding) : Prop :=
  document.eligible = true →
    (∀ x ∈ attached c r document.languageId, x.1 = .ready →
      (c.selectionEnabled document.languageId = true ↔ x.2.state = .ready)) ∧
    ∀ e ∈ c.documents.entries, e.1 ≠ id → e.2.eligible = true →
      e.2.languageId = document.languageId → uri e.2.path ≠ uri document.path

/-- A document whose server is ready changes or is saved while the client is ready. -/
def ClientReady (c : LanguageCoordinator) (r : LanguageRuntime) (id : DocumentId)
    (p : DocumentBinding → Prop) : Prop :=
  ∀ document ∈ c.documents.get? id, document.eligible = true →
    ∀ x ∈ attached c r document.languageId, x.1 = .ready → x.2.state = .ready ∧ p document

/-- A document is closed while its server and the client are ready, or there is no process. -/
def CloseOk (c : LanguageCoordinator) (r : LanguageRuntime) (id : DocumentId) : Prop :=
  ∀ document ∈ c.documents.get? id, document.eligible = true →
    ∀ x ∈ attached c r document.languageId, hasServer x.1 = true →
      x.1 = .ready ∧ x.2.state = .ready

/-- What `setOverride` opens. -/
def overridden (env : LanguageEnv) (previous : DocumentBinding) (languageOverride : Option String) :
    DocumentBinding :=
  binding env previous.path languageOverride previous.revision
    (if previous.eligible then some previous.text else none)

def OrderlyOp (env : LanguageEnv) (uri : PathBuf → String) (c : LanguageCoordinator)
    (r : LanguageRuntime) : CoordinatorOp → Prop
  | .openDocument id path languageOverride revision text =>
    OpenOk uri c r id (binding env path languageOverride revision text)
  | .editDocument id revision _ => ClientReady c r id fun document => document.revision < revision
  | .saveDocument id => ClientReady c r id fun _ => True
  | .closeDocument id => CloseOk c r id
  | .setOverride id languageOverride =>
    CloseOk c r id ∧ ∀ previous ∈ c.documents.get? id,
      OpenOk uri c r id (overridden env previous languageOverride)
  | _ => True

/-- The documents are opened, changed, saved and closed in order, and no server has used up its
generations. -/
def Orderly (env : LanguageEnv) (uri : PathBuf → String) (s : LanguageSystem) :
    LanguageStep → Prop
  | .operate op _ _ =>
    (∀ e ∈ s.coordinator.servers.entries, e.2.generation ≠ -1) ∧
      OrderlyOp env uri s.coordinator s.processes op
  | _ => ∀ e ∈ s.coordinator.servers.entries, e.2.generation ≠ -1

/-! ### Applying effects -/

theorem Moved.of_ready {server server' : ServerBinding} (h : Moved server server')
    (hr : server'.state = .ready) :
    server.state = .ready ∧ server'.generation = server.generation := by
  obtain hk | ⟨-, hs⟩ := h
  · exact ⟨hk.ready hr, hk.generation⟩
  · rw [hs] at hr
    cases hr

/-- The servers that are among the targets in their present generation have failed. -/
structure FailedFor (targets : List (String × UInt64)) (c failed : LanguageCoordinator) :
    Prop where
  documents : failed.documents = c.documents
  kept : AllKept c failed
  state : ∀ l generation, (l, generation) ∈ targets →
    (failed.serverOrNew l).generation = generation → (failed.serverOrNew l).state ≠ .ready

theorem documents_failWithMessage (c : LanguageCoordinator) (l : String) (generation : UInt64)
    (message : String) : (c.failWithMessage l generation message).documents = c.documents := by
  obtain ⟨-, hf⟩ | ⟨server, -, -, hf⟩ := failWithMessage_cases c l generation message
  · rw [hf]
  · rw [hf]
    rfl

/-- The server of a generation that failed is not ready. -/
theorem not_ready_failWithMessage {l : String} {generation : UInt64} {message : String}
    (h : ((c.failWithMessage l generation message).serverOrNew l).generation = generation) :
    ((c.failWithMessage l generation message).serverOrNew l).state ≠ .ready := by
  obtain ⟨hne, hf⟩ | ⟨server, -, -, hf⟩ := failWithMessage_cases c l generation message
  · rw [hf] at h ⊢
    unfold serverOrNew at h ⊢
    cases hk : c.servers.get? l with
    | none => exact by decide
    | some server =>
      rw [hk, Option.getD_some] at h
      exact absurd h (hne server hk)
  · rw [hf, serverOrNew_of_insert rfl, if_pos rfl]
    simp

theorem failedFor_fail (c : LanguageCoordinator) (l : String) (generation : UInt64)
    {targets : List (String × UInt64)} (h : ∀ t ∈ targets, t = (l, generation)) :
    FailedFor targets c (c.fail l generation) := by
  refine ⟨documents_failWithMessage _ _ _ _, allKept_failWithMessage _ _ _ _,
    fun k g hin hg => ?_⟩
  cases h _ hin
  exact not_ready_failWithMessage hg

theorem failedFor_failAll (targets : List (String × UInt64)) (c : LanguageCoordinator) :
    FailedFor targets c (c.failAll targets) := by
  induction targets generalizing c with
  | nil => exact ⟨rfl, allKept_of_eq rfl, fun l g h => by cases h⟩
  | cons t ts ih =>
    have hfail : FailedFor [t] c (c.fail t.1 t.2) :=
      failedFor_fail c t.1 t.2 fun t' h => List.mem_singleton.mp h
    have hall := ih (c.fail t.1 t.2)
    refine ⟨hall.documents.trans hfail.documents, fun k => ?_, fun l g hin hg => ?_⟩
    · exact ⟨(hall.kept k).generation.trans (hfail.kept k).generation,
        fun h => (hfail.kept k).ready ((hall.kept k).ready h),
        fun h => (hfail.kept k).waiting ((hall.kept k).waiting h)⟩
    · obtain he | hin := List.mem_cons.mp hin
      · intro hr
        refine hfail.state l g (List.mem_singleton.mpr he) ?_ ((hall.kept l).ready hr)
        exact (hall.kept l).generation.symm.trans hg
      · exact hall.state l g hin hg

variable {effects : List LanguageEffect}

theorem effectsFor_eq_nil {l : String} {generation : UInt64}
    (h : (l, generation) ∉ effects.filterMap (·.target)) :
    effectsFor effects l generation = [] := by
  refine List.filter_eq_nil_iff.mpr fun e he ht => h (List.mem_filterMap.mpr ⟨e, he, ?_⟩)
  exact of_decide_eq_true ht

/-- Effects that find their clients ready and leave the documents in order keep the agreement,
whether they are taken in or not. -/
theorem agrees_apply {s s' : LanguageSystem} {now : Duration} {order : HashOrder}
    {failed : LanguageCoordinator}
    (hservers : ∀ l, ServerOk (c.serverOrNew l) ((s.processes.get? l).map (·.outline))
      fun generation => (l, generation) ∈ s.spawning)
    (hdistinct : Distinct uri c) (hready : LanguageRuntime.Ready uri effects s.processes)
    (hsynced : Synced uri c effects s.processes) (haccepted : ∀ e ∈ s.rejected, ¬Refusal e)
    (hfailed : FailedFor (effects.filterMap (·.target)) c failed)
    (hs : s.apply uri now order c failed effects = some s') : Agrees uri s' := by
  refine wp.observe (wp_mono (wp_and (LanguageRuntime.applyEffects_touches effects s.processes)
    (LanguageRuntime.applyEffects_ready hready)) (fun _ r hr => ?_) (fun e r hr => ?_)
    fun _ => trivial) hs
  · obtain ⟨htouches, hinformed⟩ := hr
    refine ⟨fun l => ?_, hdistinct, fun id document running' hd he hg hgen hst hclient => ?_,
      haccepted⟩
    · rw [htouches.outline l]
      exact hservers l
    · have hout := htouches.outline document.languageId
      rw [hg, Option.map_some] at hout
      obtain ⟨running, hrun, ho⟩ := Option.map_eq_some_iff.mp hout.symm
      obtain ⟨running'', hrun', -, hdocuments⟩ := hinformed _ running hrun
      rw [hg] at hrun'
      cases hrun'
      obtain ⟨hogen, hostate⟩ := Prod.mk.inj ho
      rw [show effectsFor [] document.languageId running'.generation = [] from rfl, List.foldl_nil,
        hdocuments]
      exact hsynced id document running hd he hrun (hogen.trans hgen) hst (hostate.trans hclient)
  · obtain ⟨htouches, hrefusal⟩ := hr
    refine ⟨fun l => ?_, ?_, fun id document running' hd he hg hgen hst hclient => ?_,
      fun e' he' => ?_⟩
    · rw [htouches.outline l]
      exact (hservers l).kept (hfailed.kept l)
    · intro id id' document document' hd hd'
      rw [hfailed.documents] at hd hd'
      exact hdistinct id id' document document' hd hd'
    · have hout := htouches.outline document.languageId
      rw [hg, Option.map_some] at hout
      obtain ⟨running, hrun, ho⟩ := Option.map_eq_some_iff.mp hout.symm
      obtain ⟨hogen, -⟩ := Prod.mk.inj ho
      have hnot : (document.languageId, running.generation) ∉ effects.filterMap (·.target) :=
        fun hin => hfailed.state _ _ hin (hgen.symm.trans hogen.symm) hst
      have hsame := htouches.rest _ running hrun hnot
      rw [hg] at hsame
      cases hsame
      have hkept := hfailed.kept document.languageId
      have hsync := hsynced id document running' (by rw [← hfailed.documents]; exact hd) he hrun
        (hgen.trans hkept.generation) (hkept.ready hst) hclient
      rwa [effectsFor_eq_nil hnot] at hsync
    · obtain he' | he' := List.mem_append.mp he'
      · exact haccepted e' he'
      · rw [List.mem_singleton.mp he']
        exact hrefusal

/-! ### Steps that leave the documents alone -/

/-- The client knows what it knew, and neither became ready nor started. -/
structure Steady (running running' : RunningLanguage) : Prop where
  generation : running'.generation = running.generation
  documents : running'.client.documents = running.client.documents
  ready : running'.client.state = .ready → running.client.state = .ready
  starting : running'.client.state = .starting → running.client.state = .starting

theorem Steady.refl (running : RunningLanguage) : Steady running running :=
  ⟨rfl, rfl, fun h => h, fun h => h⟩

/-- Processes go, or are steady. -/
def AllSteady (r r' : LanguageRuntime) : Prop :=
  ∀ k running', r'.get? k = some running' → ∃ running, r.get? k = some running ∧
    Steady running running'

theorem allSteady_refl (r : LanguageRuntime) : AllSteady r r :=
  fun _ running h => ⟨running, h, .refl _⟩

theorem allSteady_remove (r : LanguageRuntime) (l : String) : AllSteady r (r.remove l) := by
  intro k running h
  rw [SortedMap.get?_remove] at h
  split at h
  · cases h
  · exact ⟨running, h, .refl _⟩

theorem allSteady_insert {l : String} {running running' : RunningLanguage}
    (hg : r.get? l = some running) (h : Steady running running') :
    AllSteady r (r.insert l running') := by
  intro k other hk
  rw [SortedMap.get?_insert] at hk
  split at hk
  · next hkl =>
    cases hk
    exact ⟨running, by rw [hkl]; exact hg, h⟩
  · exact ⟨other, hk, .refl _⟩

theorem Synced.moved (h : Synced uri c [] r) (hm : AllMoved c c')
    (hdocuments : c'.documents = c.documents) (hr : AllSteady r r') : Synced uri c' [] r' := by
  intro id document running' hd he hg hgen hst hclient
  obtain ⟨running, hrun, hs⟩ := hr _ running' hg
  obtain ⟨hst', hgen'⟩ := (hm document.languageId).of_ready hst
  rw [show effectsFor [] document.languageId running'.generation = [] from rfl, List.foldl_nil,
    hs.documents]
  exact h id document running (by rw [← hdocuments]; exact hd) he hrun
    (hs.generation.symm.trans (hgen.trans hgen')) hst' (hs.ready hclient)

theorem Distinct.of_eq (h : Distinct uri c) (hdocuments : c'.documents = c.documents) :
    Distinct uri c' := by
  intro id id' document document' hd hd'
  rw [hdocuments] at hd hd'
  exact h id id' document document' hd hd'

theorem agrees_steady {s : LanguageSystem} (h : Agrees uri s)
    (hmax : ∀ k, (s.coordinator.serverOrNew k).generation ≠ -1) (hm : AllMoved s.coordinator c)
    (hdocuments : c.documents = s.coordinator.documents) (hr : AllSteady s.processes r)
    {spawning : List (String × UInt64)} (hspawning : ∀ t ∈ spawning, t ∈ s.spawning) :
    Agrees uri ⟨c, r, spawning, s.rejected⟩ := by
  refine ⟨fun l => ?_, h.distinct.of_eq hdocuments, h.synced.moved hm hdocuments hr, h.accepted⟩
  refine (((h.servers l).moved (hm l) (hmax l)).process fun g state hg => ?_).fewer
    fun g hg => hspawning _ hg
  obtain ⟨running', hrun', ho⟩ := Option.map_eq_some_iff.mp hg
  obtain ⟨running, hrun, hs⟩ := hr l running' hrun'
  obtain ⟨rfl, rfl⟩ := Prod.mk.inj ho
  refine ⟨running.client.state, ?_, hs.starting⟩
  rw [hrun, Option.map_some, RunningLanguage.outline, hs.generation]

/-! ### The document operations -/

theorem get?_of_ready {l : String} (h : (c.serverOrNew l).state = .ready) :
    c.servers.get? l = some (c.serverOrNew l) := by
  cases hg : c.servers.get? l with
  | none =>
    rw [serverOrNew, hg, Option.getD_none] at h
    cases h
  | some server => rw [serverOrNew_of_get? hg]

theorem serverFor_cases (c : LanguageCoordinator) (document : DocumentBinding)
    {p : LanguageState → Bool} (hp : p .stopped = false) :
    (c.serverFor document p = none ∧
        (document.eligible = true → p (c.serverOrNew document.languageId).state = false)) ∨
      c.serverFor document p = some (c.serverOrNew document.languageId) ∧
        document.eligible = true ∧ p (c.serverOrNew document.languageId).state = true := by
  unfold serverFor serverOrNew
  cases c.servers.get? document.languageId with
  | none => exact .inl ⟨rfl, fun _ => hp⟩
  | some server =>
    rw [Option.filter_some, Option.getD_some]
    cases he : document.eligible && p server.state with
    | true =>
      obtain ⟨he, hs⟩ := Bool.and_eq_true_iff.mp he
      exact .inr ⟨rfl, he, hs⟩
    | false =>
      refine .inl ⟨rfl, fun hel => ?_⟩
      rwa [hel, Bool.true_and] at he

theorem effectsFor_append (es es' : List LanguageEffect) (l : String) (generation : UInt64) :
    effectsFor (es ++ es') l generation =
      effectsFor es l generation ++ effectsFor es' l generation :=
  List.filter_append ..

theorem effectsFor_singleton (e : LanguageEffect) (l : String) (generation : UInt64) :
    effectsFor [e] l generation = if e.target = some (l, generation) then [e] else [] := by
  simp only [effectsFor, List.filter_cons, List.filter_nil, decide_eq_true_eq]

theorem effectsFor_ensure (c : LanguageCoordinator) (k l : String) (generation : UInt64) :
    effectsFor (c.ensureLanguageStarted k).2 l generation = [] := by
  obtain ⟨-, h⟩ | ⟨-, h⟩ := ensure_cases c k
  · rw [h]
    rfl
  · rw [h]
    rfl

theorem ready_of_none
    (h : ∀ l generation, effectsFor effects l generation = []) :
    LanguageRuntime.Ready uri effects r :=
  fun l running _ hne => absurd (h l running.generation) hne

theorem synced_of_none
    (h : ∀ l generation, effectsFor effects l generation = []) (hs : Synced uri c [] r) :
    Synced uri c effects r := by
  intro id document running hd he hg hgen hst hclient
  rw [h]
  exact hs id document running hd he hg hgen hst hclient

theorem openOk_other {document document' : DocumentBinding} {id' : DocumentId}
    (h : OpenOk uri c r id document) (he : document.eligible = true)
    (hd : c.documents.get? id' = some document') (hne : id' ≠ id)
    (he' : document'.eligible = true) (hl : document'.languageId = document.languageId) :
    uri document'.path ≠ uri document.path :=
  (h he).2 (id', document') (SortedMap.get?_eq_some.mp hd) hne he' hl

variable {document : DocumentBinding}

theorem distinct_open (h : Distinct uri c)
    (hok : OpenOk uri c r id document) : Distinct uri (c.openBinding id document).1 := by
  intro i j d d' hd hd' he he' hl hu
  rw [(rest_openBinding c id document).documents, withDocument, SortedMap.get?_insert] at hd hd'
  by_cases hi : i = id
  · by_cases hj : j = id
    · rw [hi, hj]
    · rw [if_pos hi] at hd
      rw [if_neg hj] at hd'
      cases hd
      exact absurd hu.symm (openOk_other hok he hd' hj he' hl.symm)
  · rw [if_neg hi] at hd
    by_cases hj : j = id
    · rw [if_pos hj] at hd'
      cases hd'
      exact absurd hu (openOk_other hok he' hd hi he hl)
    · rw [if_neg hj] at hd'
      exact h i j d d' hd hd' he he' hl hu

/-- A document is opened after the effects. -/
theorem synced_open
    (h : Synced uri c effects r) (hok : OpenOk uri c r id document) :
    Synced uri (c.openBinding id document).1 (effects ++ (c.openBinding id document).2) r := by
  intro id' d running hd he hg hgen hst hclient
  rw [(rest_openBinding c id document).documents, withDocument, SortedMap.get?_insert] at hd
  obtain ⟨hst₀, hgen₀⟩ := (allMoved_openBinding c id document d.languageId).of_ready hst
  rw [hgen₀] at hgen
  rw [effectsFor_append, List.foldl_append]
  by_cases hid : id' = id
  · rw [if_pos hid] at hd
    cases hd
    have hon := (hok he).1 _ (attached_eq_some.mpr ⟨running, hg, hgen, hst₀, rfl⟩) rfl
    obtain ⟨hskip, -⟩ | ⟨-, -, ⟨server, hserver, -, hopen⟩ | ⟨hnot, -⟩⟩ :=
      openBinding_cases c id document
    · rw [he, hon.mpr hclient] at hskip
      simp at hskip
    · rw [get?_of_ready hst₀, Option.some.injEq] at hserver
      rw [hopen, effectsFor_singleton, if_pos (by rw [hgen, hserver]; rfl)]
      simp [LanguageEffect.revisions]
    · exact absurd hst₀ (hnot _ (get?_of_ready hst₀))
  · rw [if_neg hid] at hd
    have hold := h id' d running hd he hg hgen hst₀ hclient
    obtain ⟨-, hopen⟩ | ⟨hel, -, ⟨server, -, -, hopen⟩ | ⟨-, hopen⟩⟩ :=
      openBinding_cases c id document
    · rw [hopen]
      exact hold
    · rw [hopen, effectsFor_singleton]
      split
      · next ht =>
        have hl : d.languageId = document.languageId :=
          (congrArg Prod.fst (Option.some.inj ht)).symm
        have hu := openOk_other hok hel hd hid he hl
        simp [LanguageEffect.revisions, hu, hold]
      · exact hold
    · rw [hopen, effectsFor_ensure]
      exact hold

theorem ready_open
    (h : LanguageRuntime.Ready uri effects r) (hok : OpenOk uri c r id document) :
    LanguageRuntime.Ready uri (effects ++ (c.openBinding id document).2) r := by
  have hnone : ∀ es : List LanguageEffect, (∀ l generation, effectsFor es l generation = []) →
      LanguageRuntime.Ready uri (effects ++ es) r := by
    intro es hes l running hg hne
    rw [effectsFor_append, hes, List.append_nil] at hne ⊢
    exact h l running hg hne
  obtain ⟨-, hopen⟩ | ⟨hel, hen, ⟨server, hserver, hr, hopen⟩ | ⟨-, hopen⟩⟩ :=
    openBinding_cases c id document
  · rw [hopen]
    exact hnone [] fun _ _ => rfl
  · intro l running hg hne
    rw [hopen, effectsFor_append, effectsFor_singleton] at hne ⊢
    split
    · next ht =>
      obtain ⟨rfl, hgen⟩ := Prod.mk.inj (Option.some.inj ht)
      have hnew := serverOrNew_of_get? hserver
      have hattached : attached c r document.languageId = some (.ready, running.client) :=
        attached_eq_some.mpr ⟨running, hg, by rw [hnew, hgen], by rw [hnew, hr], rfl⟩
      have hclient : running.client.state = .ready := ((hok hel).1 _ hattached rfl).mp hen
      refine ⟨hclient, LanguageEffect.fitAll_append.mpr ⟨?_, trivial, trivial⟩⟩
      by_cases hes : effectsFor effects document.languageId running.generation = []
      · rw [hes]
        trivial
      · exact (h _ running hg hes).2
    · next ht =>
      rw [if_neg ht, List.append_nil] at hne
      rw [List.append_nil]
      exact h l running hg hne
  · rw [hopen]
    exact hnone _ (effectsFor_ensure _ _)

/-- The effects of an edit, a save or a close: the message `message` for the server of the
document, if that server is up. -/
theorem effects_eq {p : LanguageState → Bool}
    {message : ServerBinding → LanguageEffect} (hp : p .stopped = false)
    (ht : ∀ server, (message server).target = some (document.languageId, server.generation))
    (l : String) (generation : UInt64) :
    effectsFor ((c.serverFor document p).toList.map message) l generation =
      if document.eligible = true ∧ p (c.serverOrNew document.languageId).state = true ∧
          (l, generation) =
            (document.languageId, (c.serverOrNew document.languageId).generation) then
        [message (c.serverOrNew document.languageId)]
      else [] := by
  obtain ⟨hnone, hnot⟩ | ⟨hsome, he, hs⟩ := serverFor_cases c document hp
  · rw [hnone, if_neg fun h => by rw [hnot h.1] at h; simp at h]
    rfl
  · rw [hsome, Option.toList_some, List.map_singleton, effectsFor_singleton, ht]
    simp only [he, hs, true_and, Option.some.injEq, eq_comm]

theorem ready_of_effects {p : LanguageState → Bool}
    {message : ServerBinding → LanguageEffect} (hp : p .stopped = false)
    (ht : ∀ server, (message server).target = some (document.languageId, server.generation))
    (h : ∀ running, r.get? document.languageId = some running →
      running.generation = (c.serverOrNew document.languageId).generation →
        document.eligible = true → p (c.serverOrNew document.languageId).state = true →
          running.client.state = .ready ∧
            (message (c.serverOrNew document.languageId)).Fits uri running.client.documents) :
    LanguageRuntime.Ready uri ((c.serverFor document p).toList.map message) r := by
  intro l running hg hne
  rw [effects_eq hp ht] at hne ⊢
  split at hne
  · next hc =>
    obtain ⟨he, hs, hl⟩ := hc
    obtain ⟨rfl, hgen⟩ := Prod.mk.inj hl
    obtain ⟨hready, hfits⟩ := h running hg hgen he hs
    rw [if_pos ⟨he, hs, hl⟩]
    exact ⟨hready, hfits, trivial⟩
  · exact absurd rfl hne

section Edit

variable {document : DocumentBinding} {revision : UInt64} {text : String}

theorem editDocument_effects (hg : c.documents.get? id = some document) :
    (c.editDocument id revision text).2 =
      (c.serverFor { document with revision, text } (· = .ready)).toList.map fun server =>
        .change document.languageId server.generation id document.path revision text := by
  simp only [editDocument, clearFeaturesFor, hg]
  rfl

theorem editDocument_effects_none (hg : c.documents.get? id = none) :
    (c.editDocument id revision text).2 = [] := by
  simp only [editDocument, clearFeaturesFor, hg]

theorem distinct_edit (h : Distinct uri c) :
    Distinct uri (c.editDocument id revision text).1 := by
  -- An edit keeps what the condition reads of a binding.
  have hold : ∀ i d, (c.editDocument id revision text).1.documents.get? i = some d →
      ∃ old, c.documents.get? i = some old ∧ d.eligible = old.eligible ∧
        d.languageId = old.languageId ∧ d.path = old.path := by
    intro i d hd
    rw [documents_editDocument] at hd
    split at hd
    · next hi =>
      obtain ⟨old, hg, rfl⟩ := Option.map_eq_some_iff.mp hd
      exact ⟨old, hi ▸ hg, rfl, rfl, rfl⟩
    · exact ⟨d, hd, rfl, rfl, rfl⟩
  intro i j d d' hd hd' he he' hl hu
  obtain ⟨o, ho, hoe, hol, hop⟩ := hold i d hd
  obtain ⟨o', ho', hoe', hol', hop'⟩ := hold j d' hd'
  refine h i j o o' ho ho' (hoe ▸ he) (hoe' ▸ he') ?_ ?_
  · rw [← hol, ← hol', hl]
  · rw [← hop, ← hop', hu]

theorem synced_edit (h : Synced uri c [] r) (hdistinct : Distinct uri c) :
    Synced uri (c.editDocument id revision text).1 (c.editDocument id revision text).2 r := by
  intro i d running hd he hg hgen hst hclient
  have hservers : (c.editDocument id revision text).1.serverOrNew d.languageId =
      c.serverOrNew d.languageId := by
    unfold serverOrNew
    rw [(editDocument_fields c id revision text).2.1]
  rw [hservers] at hgen hst
  rw [documents_editDocument] at hd
  cases hdoc : c.documents.get? id with
  | none =>
    rw [editDocument_effects_none hdoc]
    split at hd
    · rw [hdoc] at hd
      cases hd
    · exact h i d running hd he hg hgen hst hclient
  | some document =>
    rw [editDocument_effects hdoc, effects_eq (by decide) fun _ => rfl]
    split at hd
    · next hi =>
      rw [hdoc, Option.map_some, Option.some.injEq] at hd
      subst hd
      rw [if_pos ⟨he, by rw [decide_eq_true_eq]; exact hst, by rw [hgen]⟩]
      simp [LanguageEffect.revisions]
    · next hi =>
      have hold := h i d running hd he hg hgen hst hclient
      split
      · next hc =>
        have hu : uri d.path ≠ uri document.path := fun hu =>
          hi (hdistinct i id d document hd hdoc he hc.1 (congrArg Prod.fst hc.2.2) hu)
        simp only [List.foldl_cons, List.foldl_nil, LanguageEffect.revisions, SortedMap.get?_insert,
          if_neg hu]
        exact hold
      · exact hold

theorem ready_edit (h : Synced uri c [] r)
    (hok : ClientReady c r id fun document => document.revision < revision) :
    LanguageRuntime.Ready uri (c.editDocument id revision text).2 r := by
  cases hdoc : c.documents.get? id with
  | none =>
    rw [editDocument_effects_none hdoc]
    exact ready_of_none fun _ _ => rfl
  | some document =>
    rw [editDocument_effects hdoc]
    refine ready_of_effects (by decide) (fun _ => rfl) fun running hg hgen he hst => ?_
    have hst := of_decide_eq_true hst
    obtain ⟨hclient, hlt⟩ := hok document hdoc he _
      (attached_eq_some.mpr ⟨running, hg, hgen, hst, rfl⟩) rfl
    exact ⟨hclient, document.revision, h id document running hdoc he hg hgen hst hclient, hlt⟩

theorem saveDocument_effects (hg : c.documents.get? id = some document) :
    c.saveDocument id =
      (c.serverFor document (· = .ready)).toList.map fun server =>
        .save document.languageId server.generation id document.path := by
  simp only [saveDocument, hg]

theorem synced_save (h : Synced uri c [] r) : Synced uri c (c.saveDocument id) r := by
  intro i d running hd he hg hgen hst hclient
  have hold := h i d running hd he hg hgen hst hclient
  cases hdoc : c.documents.get? id with
  | none =>
    simp only [saveDocument, hdoc]
    exact hold
  | some document =>
    rw [saveDocument_effects hdoc, effects_eq (by decide) fun _ => rfl]
    split
    · exact hold
    · exact hold

theorem ready_save (h : Synced uri c [] r) (hok : ClientReady c r id fun _ => True) :
    LanguageRuntime.Ready uri (c.saveDocument id) r := by
  cases hdoc : c.documents.get? id with
  | none =>
    simp only [saveDocument, hdoc]
    exact ready_of_none fun _ _ => rfl
  | some document =>
    rw [saveDocument_effects hdoc]
    refine ready_of_effects (by decide) (fun _ => rfl) fun running hg hgen he hst => ?_
    have hst := of_decide_eq_true hst
    have hclient := (hok document hdoc he _
      (attached_eq_some.mpr ⟨running, hg, hgen, hst, rfl⟩) rfl).1
    exact ⟨hclient,
      SortedMap.mem_keys_of_get? (h id document running hdoc he hg hgen hst hclient)⟩

end Edit

section Close

variable {document : DocumentBinding}

theorem closeDocument_effects (hg : c.documents.get? id = some document) :
    (c.closeDocument id).2 =
      (c.serverFor document hasServer).toList.map fun server =>
        .close document.languageId server.generation id document.path := by
  simp only [closeDocument, clearFeaturesFor, hg]
  rfl

theorem closeDocument_effects_none (hg : c.documents.get? id = none) :
    (c.closeDocument id).2 = [] := by
  simp only [closeDocument, clearFeaturesFor, hg]

theorem serverOrNew_close (c : LanguageCoordinator) (id : DocumentId) (l : String) :
    (c.closeDocument id).1.serverOrNew l = c.serverOrNew l := by
  unfold serverOrNew
  rw [(closeDocument_fields c id).2.2.1]

theorem get?_close {i : DocumentId} {d : DocumentBinding}
    (h : (c.closeDocument id).1.documents.get? i = some d) :
    i ≠ id ∧ c.documents.get? i = some d := by
  rw [(closeDocument_fields c id).1, SortedMap.get?_remove] at h
  split at h
  · cases h
  · exact ⟨‹_›, h⟩

theorem distinct_close (h : Distinct uri c) : Distinct uri (c.closeDocument id).1 :=
  fun i j d d' hd hd' => h i j d d' (get?_close hd).2 (get?_close hd').2

theorem synced_close (h : Synced uri c [] r) (hdistinct : Distinct uri c) :
    Synced uri (c.closeDocument id).1 (c.closeDocument id).2 r := by
  intro i d running hd he hg hgen hst hclient
  rw [serverOrNew_close] at hgen hst
  obtain ⟨hi, hd⟩ := get?_close hd
  have hold := h i d running hd he hg hgen hst hclient
  cases hdoc : c.documents.get? id with
  | none =>
    rw [closeDocument_effects_none hdoc]
    exact hold
  | some document =>
    rw [closeDocument_effects hdoc, effects_eq (by decide) fun _ => rfl]
    split
    · next hc =>
      have hu : uri d.path ≠ uri document.path := fun hu =>
        hi (hdistinct i id d document hd hdoc he hc.1 (congrArg Prod.fst hc.2.2) hu)
      simp only [List.foldl_cons, List.foldl_nil, LanguageEffect.revisions, SortedMap.get?_remove,
        if_neg hu]
      exact hold
    · exact hold

theorem ready_close (h : Synced uri c [] r) (hok : CloseOk c r id) :
    LanguageRuntime.Ready uri (c.closeDocument id).2 r := by
  cases hdoc : c.documents.get? id with
  | none =>
    rw [closeDocument_effects_none hdoc]
    exact ready_of_none fun _ _ => rfl
  | some document =>
    rw [closeDocument_effects hdoc]
    refine ready_of_effects (by decide) (fun _ => rfl) fun running hg hgen he hst => ?_
    obtain ⟨hready, hclient⟩ := hok document hdoc he _
      (attached_eq_some.mpr ⟨running, hg, hgen, rfl, rfl⟩) hst
    exact ⟨hclient,
      SortedMap.mem_keys_of_get? (h id document running hdoc he hg hgen hready hclient)⟩

/-- A document that is closed leaves the others as they were. -/
theorem openOk_close {document : DocumentBinding} (h : OpenOk uri c r id document) :
    OpenOk uri (c.closeDocument id).1 r id document := by
  intro he
  obtain ⟨hclient, hother⟩ := h he
  have hattached : attached (c.closeDocument id).1 r document.languageId =
      attached c r document.languageId := by
    unfold attached
    rw [serverOrNew_close]
  have henabled : (c.closeDocument id).1.selectionEnabled document.languageId =
      c.selectionEnabled document.languageId := by
    unfold selectionEnabled
    rw [(closeDocument_fields c id).2.2.2]
  rw [hattached, henabled]
  refine ⟨hclient, fun e hin => ?_⟩
  rw [(closeDocument_fields c id).1, SortedMap.mem_remove] at hin
  exact hother e hin.2

end Close

end Agreement

end Strukt.App
