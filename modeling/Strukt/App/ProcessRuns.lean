import Strukt.App.ProcessOwnership

/-!
# Runs in which every process stays owned

`Careful` says of a step, in the state it is taken from, that it leaves no process behind;
`owned_step` is the step lemma and `ownership_law` the runs. The counterexample is a server that is
disabled while its process is being spawned: the process is installed all the same, and nothing uses
or stops it.
-/

namespace Strukt.App

open Strukt.Language Method LanguageCoordinator

namespace CoordinatorOp

variable {env : LanguageEnv} {c : LanguageCoordinator} {op : CoordinatorOp} {l : String}

/-- An operation that retires the server leaves it in its generation, unless it starts it anew. -/
theorem retired_run (hb : ¬op.Begins env c l) (hr : op.Retires env c l) {server : ServerBinding}
    (hg : c.servers.get? l = some server) : ∃ server',
      (op.run env c).1.servers.get? l = some server' ∧ server'.generation = server.generation := by
  cases op with
  | disableLanguage k =>
    obtain ⟨rfl, -, -⟩ := hr
    show ∃ server', (c.disableLanguage env k).1.servers.get? k = some server' ∧ _
    obtain ⟨-, h⟩ | ⟨selection, -, -, -, h⟩ := disableLanguage_cases env c k
    · rw [h]
      exact ⟨server, hg, rfl⟩
    · rw [h]
      refine ⟨_, get?_setServer.trans (if_pos rfl), ?_⟩
      rw [serverOrNew_of_get? hg]
  | enableLanguage k =>
    obtain ⟨rfl, hsel, hp⟩ := hr
    show ∃ server', (c.enableLanguage env k).1.servers.get? k = some server' ∧ _
    obtain ⟨-, h⟩ | ⟨selection, -, -, ⟨-, h⟩ | ⟨-, h⟩⟩ := enableLanguage_cases env c k
    · rw [h]
      exact ⟨server, hg, rfl⟩
    · rw [h]
      exact ⟨server, hg, rfl⟩
    · have hdocument : ¬c.hasDocument k = true := fun hd => hb ⟨rfl, hsel, hp, hd⟩
      rw [h, if_neg hdocument]
      refine ⟨_, get?_setServer.trans (if_pos rfl), ?_⟩
      rw [serverOrNew_of_get? hg]
  | _ => exact hr.elim

/-- A language that is not shut down keeps its server under the operation. -/
theorem tended_shutdown {generation : UInt64} (h : op.shutdown env c = some (l, generation))
    {k : String} (hk : k ≠ l) : Tended c (op.run env c).1 k := by
  refine .of_eq (run_of_ne op fun hl => hk ?_).server
  cases op with
  | disableLanguage languageId =>
    obtain ⟨g, -, he⟩ := Option.map_eq_some_iff.mp h
    cases he
    exact (Option.some.inj hl).symm
  | restartLanguage languageId =>
    obtain ⟨g, -, he⟩ := Option.map_eq_some_iff.mp h
    cases he
    exact (Option.some.inj hl).symm
  | _ => cases h

/-- The server that is shut down is of the generation, and stays in it. -/
theorem shutdown_kept {generation : UInt64} (h : op.shutdown env c = some (l, generation)) :
    ∀ server, c.servers.get? l = some server → server.generation = generation ∧
      ∃ server', (op.run env c).1.servers.get? l = some server' ∧
        server'.generation = server.generation := by
  intro server hg
  cases op with
  | disableLanguage languageId =>
    obtain ⟨g, hgen, he⟩ := Option.map_eq_some_iff.mp h
    cases he
    show _ ∧ ∃ server', (c.disableLanguage env l).1.servers.get? l = some server' ∧ _
    obtain ⟨-, hc⟩ | ⟨selection, -, -, hsome, hc⟩ := disableLanguage_cases env c l
    · rw [hc] at hgen
      cases hgen
    · rw [hgen, serverOrNew_of_get? hg] at hsome
      refine ⟨?_, ?_⟩
      · split at hsome
        · exact (Option.some.inj hsome).symm
        · cases hsome
      · rw [hc]
        refine ⟨_, get?_setServer.trans (if_pos rfl), ?_⟩
        rw [serverOrNew_of_get? hg]
  | restartLanguage languageId =>
    obtain ⟨g, hgen, he⟩ := Option.map_eq_some_iff.mp h
    cases he
    show _ ∧ ∃ server', (c.restartLanguage l).1.servers.get? l = some server' ∧ _
    obtain hc | ⟨server', hg', -, -, hc⟩ := restartLanguage_cases c l
    · rw [hc] at hgen
      cases hgen
    · rw [hg] at hg'
      cases hg'
      rw [hc] at hgen ⊢
      exact ⟨Option.some.inj hgen, _, get?_setServer.trans (if_pos rfl), rfl⟩
  | _ => cases h

end CoordinatorOp

/-! ## Careful steps -/

/-- A client refuses one of the effects. -/
def Refuses (uri : PathBuf → String) (now : Duration) (order : HashOrder)
    (effects : List LanguageEffect) (r : LanguageRuntime) : Prop :=
  match (LanguageRuntime.applyEffects uri now order effects).exec r with
  | some (.error _, _) => True
  | _ => False

/-- A server that is shut down has an active process or one that is shutting down. Else no server
with a process is started anew, none with a process that runs on is retired, and no client
refuses an effect unless all the processes that the effects are for shut down. -/
def CarefulOp (env : LanguageEnv) (uri : PathBuf → String) (s : LanguageSystem)
    (op : CoordinatorOp) (now : Duration) (order : HashOrder) : Prop :=
  match op.shutdown env s.coordinator with
  | some (l, _) => ∀ running ∈ s.processes.get? l,
    running.client.Active ∨ running.client.state = .stopping
  | none =>
    (∀ entry ∈ s.processes.entries, ¬op.Begins env s.coordinator entry.1 ∧
      (op.Retires env s.coordinator entry.1 → entry.2.client.state = .stopping)) ∧
    (Refuses uri now order (op.run env s.coordinator).2 s.processes →
      ∀ target ∈ (op.run env s.coordinator).2.filterMap (·.target), Settled s.processes target.1)

/-- No process of the generation that fails runs on. -/
def CarefulFailure (s : LanguageSystem) (l : String) (generation : UInt64) : Prop :=
  ∀ server ∈ s.coordinator.servers.get? l, server.generation = generation → Settled s.processes l

/-- The documents that a ready server is told of are not refused. -/
def CarefulReady (uri : PathBuf → String) (s : LanguageSystem) (l : String)
    (capabilities : ServerCapabilities) (keys : KeyOrder DocumentId) (now : Duration)
    (order : HashOrder) : Prop :=
  ∀ running ∈ s.processes.get? l,
    match (RunningLanguage.acceptInitialize capabilities).exec running with
    | some (.ok _, ready) =>
      ¬Refuses uri now order
        (s.coordinator.markReady keys l ready.generation capabilities.positionEncoding).2
        (s.processes.insert l ready)
    | _ => True

namespace LanguageHost

def Careful (env : LanguageEnv) (uri : PathBuf → String) (s : LanguageHost) : HostStep → Prop
  | .system (.operate op now order) =>
    op.ofUser = true → CarefulOp env uri s.system op now order
  | .system (.started l generation _) =>
    (l, generation) ∈ s.system.spawning → Expected s.system.coordinator l generation
  | .system (.startFailed l generation _) =>
    (l, generation) ∈ s.system.spawning → CarefulFailure s.system l generation
  | .system (.initialized l capabilities keys now order) =>
    CarefulReady uri s.system l capabilities keys now order
  | .earlierStarted spawn _ =>
    spawn ∈ s.earlier → spawn.workspaceId = s.system.coordinator.workspaceId →
      Expected s.system.coordinator spawn.languageId spawn.generation
  | .earlierFailed spawn _ =>
    spawn ∈ s.earlier → spawn.workspaceId = s.system.coordinator.workspaceId →
      CarefulFailure s.system spawn.languageId spawn.generation
  | _ => True

end LanguageHost

instance (r : LanguageRuntime) (l : String) : Decidable (Settled r l) :=
  inferInstanceAs (Decidable (∀ running ∈ r.get? l, _))

instance (c : LanguageCoordinator) (l : String) (generation : UInt64) :
    Decidable (Expected c l generation) :=
  inferInstanceAs (Decidable (∃ server ∈ c.servers.get? l, _ ∧ _))

namespace CoordinatorOp

instance (c : LanguageCoordinator) (document : DocumentBinding) (l : String) :
    Decidable (Starts c document l) :=
  inferInstanceAs (Decidable (_ ∧ _ ∧ _ ∧ _))

instance Begins.decidable (env : LanguageEnv) (c : LanguageCoordinator) (l : String) :
    ∀ op, Decidable (Begins env c l op)
  | .openDocument _ path languageOverride revision text =>
    inferInstanceAs (Decidable (Starts c (binding env path languageOverride revision text) l))
  | .setOverride id languageOverride =>
    inferInstanceAs (Decidable (∃ previous ∈ c.documents.get? id,
      Starts c (overridden env previous languageOverride) l))
  | .retry _ =>
    inferInstanceAs (Decidable (_ ∧ ∃ server ∈ c.servers.get? l, canRetry server.state = true))
  | .enableLanguage _ => inferInstanceAs (Decidable (_ ∧ _ ∧ _ ∧ _))
  | .editDocument .. | .saveDocument _ | .closeDocument _ | .discovered .. | .approve _ | .deny _
  | .disableLanguage _ | .restartLanguage _ | .markReady .. | .markStopped .. | .failWithMessage ..
  | .publishDiagnostics .. | .beginFeature .. | .acceptFeatureResponse .. | .expireFeature _
  | .dismissFeatures | .setProblemFilter _ | .toggleProblems => isFalse fun h => h

instance Retires.decidable (env : LanguageEnv) (c : LanguageCoordinator) (l : String) :
    ∀ op, Decidable (Retires env c l op)
  | .disableLanguage _ | .enableLanguage _ => inferInstanceAs (Decidable (_ ∧ _ ∧ _))
  | .openDocument .. | .setOverride .. | .retry _ | .editDocument .. | .saveDocument _
  | .closeDocument _ | .discovered .. | .approve _ | .deny _ | .restartLanguage _ | .markReady ..
  | .markStopped .. | .failWithMessage .. | .publishDiagnostics .. | .beginFeature ..
  | .acceptFeatureResponse .. | .expireFeature _ | .dismissFeatures | .setProblemFilter _
  | .toggleProblems => isFalse fun h => h

end CoordinatorOp

instance Refuses.decidable (uri : PathBuf → String) (now : Duration) (order : HashOrder)
    (effects : List LanguageEffect) (r : LanguageRuntime) :
    Decidable (Refuses uri now order effects r) :=
  match h : (LanguageRuntime.applyEffects uri now order effects).exec r with
  | some (.error _, _) => isTrue (by unfold Refuses; rw [h]; trivial)
  | some (.ok _, _) => isFalse (by unfold Refuses; rw [h]; exact fun h => h)
  | none => isFalse (by unfold Refuses; rw [h]; exact fun h => h)

instance CarefulOp.decidable (env : LanguageEnv) (uri : PathBuf → String) (s : LanguageSystem)
    (op : CoordinatorOp) (now : Duration) (order : HashOrder) :
    Decidable (CarefulOp env uri s op now order) :=
  match h : op.shutdown env s.coordinator with
  | some (l, _) =>
    decidable_of_iff (∀ running ∈ s.processes.get? l, (running.client.state = .ready ∨
      running.client.state = .degraded) ∨ running.client.state = .stopping)
      (by unfold CarefulOp; rw [h]; exact Iff.rfl)
  | none =>
    decidable_of_iff ((∀ entry ∈ s.processes.entries, ¬op.Begins env s.coordinator entry.1 ∧
        (op.Retires env s.coordinator entry.1 → entry.2.client.state = .stopping)) ∧
      (Refuses uri now order (op.run env s.coordinator).2 s.processes →
        ∀ target ∈ (op.run env s.coordinator).2.filterMap (·.target), Settled s.processes target.1))
      (by unfold CarefulOp; rw [h])

instance (s : LanguageSystem) (l : String) (generation : UInt64) :
    Decidable (CarefulFailure s l generation) :=
  inferInstanceAs (Decidable (∀ server ∈ s.coordinator.servers.get? l, _ → Settled s.processes l))

instance CarefulReady.decidable (uri : PathBuf → String) (s : LanguageSystem) (l : String)
    (capabilities : ServerCapabilities) (keys : KeyOrder DocumentId) (now : Duration)
    (order : HashOrder) : Decidable (CarefulReady uri s l capabilities keys now order) :=
  match h : s.processes.get? l with
  | none => isTrue fun running hg => (by rw [h] at hg; cases hg)
  | some running =>
    match hx : (RunningLanguage.acceptInitialize capabilities).exec running with
    | some (.ok _, ready) =>
      decidable_of_iff (¬Refuses uri now order
          (s.coordinator.markReady keys l ready.generation capabilities.positionEncoding).2
          (s.processes.insert l ready)) (by
        refine ⟨fun hr other hg => ?_, fun hr => ?_⟩
        · rw [h] at hg
          cases hg
          rw [hx]
          exact hr
        · have := hr running h
          rw [hx] at this
          exact this)
    | some (.error _, _) => isTrue fun other hg => by
        rw [h] at hg
        cases hg
        rw [hx]
        trivial
    | none => isTrue fun other hg => by
        rw [h] at hg
        cases hg
        rw [hx]
        trivial

instance LanguageHost.Careful.decidable (env : LanguageEnv) (uri : PathBuf → String)
    (s : LanguageHost) : ∀ o, Decidable (LanguageHost.Careful env uri s o)
  | .system (.operate op now order) =>
    inferInstanceAs (Decidable (_ → CarefulOp env uri s.system op now order))
  | .system (.started l generation _) =>
    inferInstanceAs (Decidable (_ → Expected s.system.coordinator l generation))
  | .system (.startFailed l generation _) =>
    inferInstanceAs (Decidable (_ → CarefulFailure s.system l generation))
  | .system (.initialized l capabilities keys now order) =>
    inferInstanceAs (Decidable (CarefulReady uri s.system l capabilities keys now order))
  | .system (.featureRequested ..) | .system (.polled ..) | .system (.answered ..)
  | .system (.exited ..) | .system (.broken ..) | .workspaceOpened .. => isTrue trivial
  | .earlierStarted spawn _ =>
    inferInstanceAs (Decidable (_ → _ →
      Expected s.system.coordinator spawn.languageId spawn.generation))
  | .earlierFailed spawn _ =>
    inferInstanceAs (Decidable (_ → _ →
      CarefulFailure s.system spawn.languageId spawn.generation))

/-! ## The steps -/

section Steps

variable {env : LanguageEnv} {uri : PathBuf → String} {s s' : LanguageSystem} {now : Duration}
  {order : HashOrder} {l : String} {generation : UInt64}

/-- What a step leaves: the processes are owned, and none gave way to an older one. -/
structure StaysOwned (s s' : LanguageSystem) : Prop where
  owned : Owned s'.coordinator s'.processes
  neverOlder : NeverOlder s.processes s'.processes

theorem Settled.continued {r r' : LanguageRuntime} (h : Settled r l) (hr : Continued r r') :
    Settled r' l := by
  intro running' hg'
  obtain ⟨running, hg, -, hstop⟩ := hr l running' hg'
  exact hstop (h running hg)

theorem owned_failAll {c : LanguageCoordinator} {r : LanguageRuntime}
    (targets : List (String × UInt64)) (h : Owned c r)
    (hsettled : ∀ target ∈ targets, Settled r target.1) : Owned (c.failAll targets) r := by
  induction targets generalizing c with
  | nil => exact h
  | cons target targets ih =>
    refine ih (h.failWithMessage (fun _ _ _ => hsettled target List.mem_cons_self) _)
      fun t ht => hsettled t (List.mem_cons_of_mem _ ht)

/-- The coordinator moves on and its effects are applied. -/
theorem kept_apply {c failed : LanguageCoordinator} {effects : List LanguageEffect}
    (hc : ∀ r, Continued s.processes r → Owned c r)
    (hf : Refuses uri now order effects s.processes →
      ∀ r, Continued s.processes r → Owned failed r)
    (hs : s.apply uri now order c failed effects = some s') :
    Owned s'.coordinator s'.processes ∧ Continued s.processes s'.processes := by
  refine wp.observe
    (I := fun t => Owned t.coordinator t.processes ∧ Continued s.processes t.processes)
    (wp_mono (wp_and (LanguageRuntime.applyEffects_touches effects s.processes)
    (wp_self (LanguageRuntime.applyEffects uri now order effects) s.processes))
    (fun _ r hr => ?_) (fun e r hr => ?_) fun _ => trivial) hs
  · have hcontinued := continued_touches hr.1
    exact ⟨hc r hcontinued, hcontinued⟩
  · have hcontinued := continued_touches hr.1
    refine ⟨hf ?_ r hcontinued, hcontinued⟩
    unfold Refuses
    rw [hr.2]
    trivial

theorem kept_shutDown {op : CoordinatorOp} (h : Owned s.coordinator s.processes)
    (hop : op.shutdown env s.coordinator = some (l, generation))
    (hactive : ∀ running ∈ s.processes.get? l,
      running.client.Active ∨ running.client.state = .stopping)
    (hs : s.shutDown op (op.run env s.coordinator).1 l generation now = some s') :
    StaysOwned s s' := by
  -- The server stays in its generation, whatever its state becomes.
  have hnext {c : LanguageCoordinator} {r : LanguageRuntime} (hr : Continued s.processes r)
      (hsettled : Settled r l)
      (hc : ∀ k, c.servers.get? k = (op.run env s.coordinator).1.servers.get? k) : Owned c r := by
    refine h.next hr fun k running server hk hg => ?_
    by_cases hkl : k = l
    · subst hkl
      obtain ⟨-, server', hg', hgen⟩ := CoordinatorOp.shutdown_kept hop server hg
      exact ⟨server', (hc k).trans hg', hgen, fun _ => .inr (hsettled running hk)⟩
    · obtain ⟨server', hg', hgen, hexpects⟩ :=
        (CoordinatorOp.tended_shutdown hop hkl).kept server hg
      exact ⟨server', (hc k).trans hg', hgen, fun he => .inl (hexpects he)⟩
  refine wp.observe (wp_mono (beginShutdown_continued l generation now s.processes)
    (fun _ r hr => ?_) (fun message r hr => ?_) fun h => h) hs
  · exact ⟨hnext hr.1 hr.2 fun _ => rfl, hr.1.neverOlder⟩
  · have hsettled : Settled r l := by
      intro running' hg'
      obtain ⟨running, hg, -, -⟩ := hr.1 l running' hg'
      obtain ⟨server, hserver, hgen, -⟩ := h l running hg
      have hsg := (CoordinatorOp.shutdown_kept hop server hserver).1
      exact hr.2 running hg (hgen.symm.trans hsg) (hactive running hg) running' hg'
    have howned := hnext (c := (op.run env s.coordinator).1) hr.1 hsettled fun _ => rfl
    refine ⟨?_, hr.1.neverOlder⟩
    cases op with
    | restartLanguage k => exact howned.failWithMessage (fun _ _ _ => hsettled) message
    | _ => exact howned

theorem kept_operate {op : CoordinatorOp} (h : Owned s.coordinator s.processes)
    (hop : op.ofUser = true) (hc : CarefulOp env uri s op now order)
    (hs : s.operate env uri op now order = some s') : StaysOwned s s' := by
  unfold CarefulOp at hc
  unfold LanguageSystem.operate at hs
  cases hsh : op.shutdown env s.coordinator with
  | some target =>
    obtain ⟨l, generation⟩ := target
    rw [hsh] at hc
    simp only [hsh] at hs
    have hkept := kept_shutDown
      (s := { s with spawning := s.spawning ++ (op.spawned s.coordinator).toList }) h hsh hc hs
    exact ⟨hkept.owned, hkept.neverOlder⟩
  | none =>
    rw [hsh] at hc
    simp only [hsh] at hs
    obtain ⟨hservers, hrefused⟩ := hc
    have howned (r : LanguageRuntime) (hr : Continued s.processes r) :
        Owned (op.run env s.coordinator).1 r := by
      refine h.next hr fun k running' server hk hg => ?_
      obtain ⟨running, hrun, -, hstop⟩ := hr k running' hk
      obtain ⟨hb, hretired⟩ := hservers (k, running) (SortedMap.get?_eq_some.mp hrun)
      by_cases hret : op.Retires env s.coordinator k
      · obtain ⟨server', hg', hgen⟩ := CoordinatorOp.retired_run hb hret hg
        exact ⟨server', hg', hgen, fun _ => .inr (hstop (hretired hret))⟩
      · obtain ⟨server', hg', hgen, hexpects⟩ :=
          (CoordinatorOp.tended_run hop hsh hb hret).kept server hg
        exact ⟨server', hg', hgen, fun he => .inl (hexpects he)⟩
    have hkept := kept_apply
      (s := { s with spawning := s.spawning ++ (op.spawned s.coordinator).toList }) howned
      (fun hr r hcont => owned_failAll _ (howned r hcont) fun target ht =>
        (hrefused hr target ht).continued hcont) hs
    exact ⟨hkept.1, hkept.2.neverOlder⟩

/-- A process that is expected is installed. -/
theorem kept_install {running : RunningLanguage} (h : Owned s.coordinator s.processes)
    (he : Expected s.coordinator l generation) (hgen : running.generation = generation) :
    Owned s.coordinator (s.processes.insert l running) ∧
      NeverOlder s.processes (s.processes.insert l running) := by
  obtain ⟨server, hg, hsg, hexpects⟩ := he
  constructor
  · intro k other hk
    rw [SortedMap.get?_insert] at hk
    split at hk
    · next hkl =>
      cases hk
      exact ⟨server, by rw [hkl]; exact hg, hsg.trans hgen.symm, .inl hexpects⟩
    · exact h k other hk
  · intro k old new hk hk'
    rw [SortedMap.get?_insert] at hk'
    split at hk'
    · next hkl =>
      cases hk'
      subst hkl
      obtain ⟨server', hg', hsg', -⟩ := h k old hk
      obtain rfl := Option.some.inj (hg.symm.trans hg')
      rw [hgen, ← hsg, hsg']
      exact UInt64.le_refl _
    · obtain rfl := Option.some.inj (hk.symm.trans hk')
      exact UInt64.le_refl _

theorem staysOwned_failed (h : Owned s.coordinator s.processes) (message : String) :
    StaysOwned s (s.failed l generation message) :=
  ⟨(h.removed l).failed generation message, (continued_remove _ l).neverOlder⟩

theorem staysOwned_stopped (h : Owned s.coordinator s.processes) :
    StaysOwned s (s.stopped l generation) :=
  ⟨(h.removed l).stopped generation, (continued_remove _ l).neverOlder⟩

/-- A process goes on as it was, and the servers are left alone. -/
theorem staysOwned_insert {running running' : RunningLanguage} {c : LanguageCoordinator}
    (h : Owned s.coordinator s.processes) (hg : s.processes.get? l = some running)
    (ho : running'.outline = running.outline) (hc : c.servers = s.coordinator.servers) :
    StaysOwned s { s with coordinator := c, processes := s.processes.insert l running' } := by
  have hcontinued := continued_outline hg ho
  exact ⟨h.tended hcontinued fun k _ _ => .of_eq (by rw [hc]), hcontinued.neverOlder⟩

theorem staysOwned_polled {running : RunningLanguage} (h : Owned s.coordinator s.processes)
    (hg : s.processes.get? l = some running)
    (hs : Method.observe (RunningLanguage.pollTimeouts now) running
      (fun timeouts polled =>
        { s with processes := s.processes.insert l polled }.timedOut l running timeouts)
      (fun e _ => s.failed l running.generation e.text) = some s') : StaysOwned s s' := by
  refine wp.observe (wp_mono (polled_stopping now running) (fun timeouts running' hr => ?_)
    (fun e _ _ => staysOwned_failed h e.text) fun h => h) hs
  obtain ⟨hgen, hstop⟩ := hr
  obtain ⟨hservers, -⟩ := expireFeatures_fields
    (timeouts.filterMap (LanguageSystem.expiredRequest running)) s.coordinator
  -- Where the poll ends the process, what it left of the client does not matter.
  have hremove : (s.processes.insert l running').remove l = s.processes.remove l := by
    refine SortedMap.ext_get? fun k => ?_
    rw [SortedMap.get?_remove, SortedMap.get?_remove, SortedMap.get?_insert]
    by_cases hk : k = l
    · rw [if_pos hk, if_pos hk]
    · rw [if_neg hk, if_neg hk, if_neg hk]
  have hgone (c : LanguageCoordinator) (hc : c.servers = s.coordinator.servers) :
      Owned c ((s.processes.insert l running').remove l) := by
    rw [hremove]
    exact h.tended (continued_remove _ l) fun k _ _ => .of_eq (by rw [hc])
  have hnever : NeverOlder s.processes ((s.processes.insert l running').remove l) := by
    rw [hremove]
    exact (continued_remove _ l).neverOlder
  unfold LanguageSystem.timedOut
  dsimp only
  by_cases hshutdown : .shutdown ∈ timeouts
  · rw [if_pos hshutdown]
    exact ⟨Owned.stopped _ (hgone _ hservers), hnever⟩
  · rw [if_neg hshutdown]
    by_cases hinitialization : .initialization ∈ timeouts
    · rw [if_pos hinitialization]
      exact ⟨Owned.failed _ (hgone _ hservers) _, hnever⟩
    · rw [if_neg hinitialization]
      have hcontinued := continued_insert hg hgen (hstop hinitialization hshutdown)
      exact ⟨h.tended hcontinued fun k _ _ => .of_eq (by rw [hservers]), hcontinued.neverOlder⟩

theorem staysOwned_initialized {capabilities : ServerCapabilities} {keys : KeyOrder DocumentId}
    (h : Owned s.coordinator s.processes)
    (hc : CarefulReady uri s l capabilities keys now order)
    (hs : s.step env uri (.initialized l capabilities keys now order) = some s') :
    StaysOwned s s' := by
  obtain ⟨running, hg, hs⟩ := Option.bind_eq_some_iff.mp hs
  obtain ⟨inner, hobserve, hs⟩ := Option.bind_eq_some_iff.mp hs
  refine wp.observe (I := fun inner => inner = some s' → StaysOwned s s')
    (wp_mono (wp_and (acceptInitialize_spec capabilities running)
      (wp_self (RunningLanguage.acceptInitialize capabilities) running))
      (fun _ ready hr hs => ?_) (fun e _ _ hs => ?_) fun _ => trivial) hobserve hs
  · obtain ⟨⟨hgen, hstarting, -⟩, hx⟩ := hr
    have haccepted := hc running hg
    rw [hx] at haccepted
    have hcontinued : Continued s.processes (s.processes.insert l ready) :=
      continued_insert hg hgen fun hstop => by
        rw [hstarting] at hstop
        cases hstop
    have howned : Owned (s.coordinator.markReady keys l ready.generation
        capabilities.positionEncoding).1 (s.processes.insert l ready) := by
      obtain hm | ⟨server, hserver, -, -, hm⟩ := markReady_cases s.coordinator keys l
        ready.generation capabilities.positionEncoding
      · rw [hm]
        exact h.tended hcontinued fun k _ _ => .refl _ k
      · rw [hm]
        refine h.tended hcontinued fun k _ _ => ⟨fun server' hg' => ?_⟩
        by_cases hk : k = l
        · subst hk
          obtain rfl := Option.some.inj (hserver.symm.trans hg')
          exact ⟨_, get?_setServer.trans (if_pos rfl), rfl, fun _ => rfl⟩
        · exact ⟨server', (get?_setServer.trans (if_neg hk)).trans hg', rfl, fun he => he⟩
    have hkept := kept_apply (s := { s with processes := s.processes.insert l ready })
      (fun r hr => howned.tended hr fun k _ _ => .refl _ k)
      (fun hrefuses => absurd hrefuses haccepted) hs
    exact ⟨hkept.1, (hcontinued.trans hkept.2).neverOlder⟩
  · cases hs
    exact staysOwned_failed h _

/-- A careful step of the open workspace's system. -/
theorem staysOwned_step {o : LanguageStep} {earlier : List EarlierSpawn}
    (h : Owned s.coordinator s.processes)
    (hc : LanguageHost.Careful env uri ⟨s, earlier⟩ (.system o))
    (hs : s.step env uri o = some s') : StaysOwned s s' := by
  cases o with
  | operate op now order =>
    simp only [LanguageSystem.step] at hs
    split at hs
    · next hop => exact kept_operate h hop (hc hop) hs
    · cases hs
  | started l generation now =>
    simp only [LanguageSystem.step] at hs
    split at hs
    · next hin =>
      obtain ⟨running, hrun, rfl⟩ := Option.map_eq_some_iff.mp hs
      obtain ⟨howned, hnever⟩ := kept_install h (hc hin) (start_spec hrun).1
      exact ⟨howned, hnever⟩
    · cases hs
  | startFailed l generation message =>
    simp only [LanguageSystem.step] at hs
    split at hs
    · next hin =>
      cases hs
      exact ⟨h.failWithMessage (hc hin) message, (continued_refl _).neverOlder⟩
    · cases hs
  | featureRequested id kind position now order =>
    obtain ⟨⟨l, generation, path, revision⟩, -, hs⟩ := Option.bind_eq_some_iff.mp hs
    obtain ⟨running, hf, hs⟩ := Option.bind_eq_some_iff.mp hs
    have hg := (Option.filter_eq_some_iff.mp hf).1
    refine wp.observe (wp_mono (requestFeature_outline kind (uri path) revision position now order
      running) (fun _ running' hr => ?_) (fun _ running' hr => ?_) fun h => h) hs
    · exact staysOwned_insert h hg hr.1 rfl
    · exact staysOwned_insert h hg hr.1 rfl
  | polled l now =>
    obtain ⟨running, hg, hs⟩ := Option.bind_eq_some_iff.mp hs
    exact staysOwned_polled h hg hs
  | initialized l capabilities keys now order => exact staysOwned_initialized h hc hs
  | answered l id result =>
    obtain ⟨running, hg, hs⟩ := Option.bind_eq_some_iff.mp hs
    refine wp.observe (wp_mono (acceptResponse_outline id running) (fun request running' hr => ?_)
      (fun e _ _ => staysOwned_failed h e.text) fun h => h) hs
    cases request with
    | none => exact staysOwned_insert h hg hr.1 rfl
    | some request =>
      exact staysOwned_insert h hg hr.1
        (acceptFeature_fields s.coordinator running.generation request result).1
  | exited l message =>
    obtain ⟨running, -, rfl⟩ := Option.map_eq_some_iff.mp hs
    split
    · exact staysOwned_stopped h
    · exact staysOwned_failed h message
  | broken l message =>
    obtain ⟨running, -, rfl⟩ := Option.map_eq_some_iff.mp hs
    exact staysOwned_failed h message

end Steps

namespace LanguageHost

variable {env : LanguageEnv} {uri : PathBuf → String} {s s' : LanguageHost} {o : HostStep}

/-- After the step every process is owned, and none gave way to one of an older generation. -/
def KeepsOwnership (env : LanguageEnv) (uri : PathBuf → String) (s : LanguageHost) (o : HostStep) :
    Prop :=
  ∀ s', s.step env uri o = some s' → StaysOwned s.system s'.system

theorem keepsOwnership (h : Owned s.system.coordinator s.system.processes)
    (hc : s.Careful env uri o) : s.KeepsOwnership env uri o := by
  intro s' hs
  cases o with
  | system o =>
    obtain ⟨system, hsystem, rfl⟩ := Option.map_eq_some_iff.mp hs
    exact staysOwned_step h hc hsystem
  | workspaceOpened workspaceId restored =>
    cases hs
    exact ⟨fun _ _ hg => (by cases hg), fun _ _ _ _ hg => (by cases hg)⟩
  | earlierStarted spawn now =>
    simp only [step] at hs
    split at hs
    · next hin =>
      split at hs
      · cases hs
        exact ⟨h, (continued_refl _).neverOlder⟩
      · next hworkspace =>
        obtain ⟨system, hinstall, rfl⟩ := Option.map_eq_some_iff.mp hs
        obtain ⟨running, hrun, rfl⟩ := Option.map_eq_some_iff.mp hinstall
        obtain ⟨howned, hnever⟩ :=
          kept_install h (hc hin (not_not.mp hworkspace)) (start_spec hrun).1
        exact ⟨howned, hnever⟩
    · cases hs
  | earlierFailed spawn message =>
    simp only [step] at hs
    split at hs
    · next hin =>
      split at hs
      · cases hs
        exact ⟨h, (continued_refl _).neverOlder⟩
      · next hworkspace =>
        cases hs
        exact ⟨h.failWithMessage (hc hin (not_not.mp hworkspace)) message,
          (continued_refl _).neverOlder⟩
    · cases hs

/-- In every run of careful steps each process is owned in every state, and no step replaces one by
an older one. -/
theorem ownership_law (env : LanguageEnv) (uri : PathBuf → String) (workspaceId : String)
    (restored : RestoredLanguageSession) (steps : List HostStep)
    (h : Along (step env uri) (Careful env uri) steps (start workspaceId restored)) :
    Along (step env uri) (KeepsOwnership env uri) steps (start workspaceId restored) := by
  refine h.mono_in (I := fun s => Owned s.system.coordinator s.system.processes)
    (fun l running hg => by cases hg) fun s o ho hc => ?_
  have hk := keepsOwnership ho hc
  exact ⟨hk, fun s' hs => (hk s' hs).owned⟩

theorem one_bounded : 1 ≤ durationMax := by decide

theorem two_bounded : 2 ≤ durationMax := by decide

/-- A document is opened, its server is spawned, becomes ready and is then disabled. -/
def attended : List HostStep :=
  LanguageSystem.opening.map .system ++
    [.system (.initialized "rust" LanguageSystem.capabilities (.sorted DocumentId)
        ⟨1, one_bounded⟩ .sorted),
      .system (.operate (.disableLanguage "rust") ⟨2, two_bounded⟩ .sorted)]

/-- The language is disabled while its server is spawned. -/
def disabledWhileSpawned : List HostStep :=
  [.system (.operate (.openDocument ⟨1⟩ ⟨[97]⟩ none 0 (some "")) ⟨0, Nat.zero_le durationMax⟩ .sorted),
    .system (.operate (.discovered "w" "rust" 1 .available) ⟨0, Nat.zero_le durationMax⟩ .sorted),
    .system (.operate (.disableLanguage "rust") ⟨1, one_bounded⟩ .sorted),
    .system (.started "rust" 1 ⟨2, two_bounded⟩)]

theorem ownership_law_attended :
    Along (step LanguageSystem.rustOnly LanguageSystem.fileOf)
      (KeepsOwnership LanguageSystem.rustOnly LanguageSystem.fileOf) attended
      (start "w" ⟨[], [], false⟩) :=
  ownership_law _ _ _ _ _ (by decide +kernel)

/-- The process of a disabled server is installed all the same. -/
theorem installed_while_disabled :
    ¬ ∀ (env : LanguageEnv) (uri : PathBuf → String) (workspaceId : String)
      (restored : RestoredLanguageSession) (steps : List HostStep) (s : LanguageHost),
      steps.foldlM (step env uri) (start workspaceId restored) = some s →
        Owned s.system.coordinator s.system.processes := by
  intro h
  have hrun : (disabledWhileSpawned.foldlM
      (step LanguageSystem.rustOnly LanguageSystem.fileOf) (start "w" ⟨[], [], false⟩)).any
      (fun s => ((s.system.processes.get? "rust").any (·.client.state = .starting)) &&
        ((s.system.coordinator.servers.get? "rust").any (·.state = .disabled))) := by
    decide
  obtain ⟨s, hs, hr⟩ := (Option.any_eq_true _ _).mp hrun
  obtain ⟨hprocess, hserver⟩ := Bool.and_eq_true_iff.mp hr
  obtain ⟨running, hrunning, hstarting⟩ := (Option.any_eq_true _ _).mp hprocess
  obtain ⟨server, hg, hdisabled⟩ := (Option.any_eq_true _ _).mp hserver
  obtain ⟨server', hg', -, hexpected⟩ := h _ _ _ _ _ s hs "rust" running hrunning
  obtain rfl := Option.some.inj (hg.symm.trans hg')
  rw [of_decide_eq_true hdisabled, of_decide_eq_true hstarting] at hexpected
  obtain he | he := hexpected
  · cases he
  · cases he

end LanguageHost

end Strukt.App
