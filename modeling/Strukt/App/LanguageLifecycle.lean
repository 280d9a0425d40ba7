import Strukt.App.CoordinatorSpec

/-!
# The life of a language

A language that the user disabled runs no server, and a server's shutdown is pending only while it
is under way, so that a language enabled again is started as soon as its old server is gone.

* **Retries** ask for neither: `retry` starts a disabled language (`disabled_retry`), and leaves the
  pending shutdown of the old generation on the new one.
* **Failures** do not clear the pending shutdown as `markStopped` does.
* `lifecycle_law`: these two are all that goes wrong.
-/

namespace Strukt.App

open LanguageCoordinator

def LanguageCoordinator.generationOf (c : LanguageCoordinator) (l : String) : Option UInt64 :=
  (c.servers.get? l).map (·.generation)

/-- A coordinator, and for each language whether a shutdown of its server's current generation was
requested and neither its stop nor its failure processed. -/
structure LanguageRun where
  coordinator : LanguageCoordinator
  underWay : String → Bool

namespace LanguageRun

def start (workspaceId : String) (restored : RestoredLanguageSession) : LanguageRun :=
  ⟨.restore workspaceId restored, fun _ => false⟩

/-- The event or request is about the current generation of the language. -/
def concerns (s : LanguageRun) (l : String) (event : Option (String × UInt64)) : Bool :=
  event.any fun e => e.1 = l && s.coordinator.generationOf l = some e.2

/-- Whether a shutdown is under way after the operation: not of a new generation, nor of one whose
end is reported. -/
def after (env : LanguageEnv) (s : LanguageRun) (op : CoordinatorOp) (l : String) : Bool :=
  if (op.run env s.coordinator).1.generationOf l ≠ s.coordinator.generationOf l then false
  else if s.concerns l op.ended then false
  else s.underWay l || s.concerns l (op.shutdown env s.coordinator)

def step (env : LanguageEnv) (s : LanguageRun) (op : CoordinatorOp) : Option LanguageRun :=
  some ⟨(op.run env s.coordinator).1, s.after env op⟩

/-- A disabled language runs no server; a pending shutdown is under way; and a language with an
eligible document is started when it is enabled, unless its old server is shutting down. -/
structure Lifecycle (env : LanguageEnv) (s : LanguageRun) : Prop where
  disabled : ∀ l server, s.coordinator.servers.get? l = some server →
    s.coordinator.selectionEnabled l = false →
      server.state ≠ .discovering ∧ server.state ≠ .starting ∧ server.state ≠ .ready
  pending : ∀ l server, s.coordinator.servers.get? l = some server →
    server.shutdownPending = true → s.underWay l = true
  enable : ∀ l, s.underWay l = false → (s.coordinator.selectionOf env l true).isSome →
    s.coordinator.hasDocument l = true →
      ∃ descriptorId, (s.coordinator.enableLanguage env l).2 =
        [.discover s.coordinator.workspaceId l descriptorId
          ((s.coordinator.serverOrNew l).generation + 1)]

/-- No retry of a disabled language, and neither a retry nor a failure while a shutdown is
pending. -/
def Allowed (s : LanguageRun) : CoordinatorOp → Prop
  | .retry l => ∀ server, s.coordinator.servers.get? l = some server →
    canRetry server.state = true →
      s.coordinator.selectionEnabled l = true ∧ server.shutdownPending = false
  | .failWithMessage l generation _ => ∀ server, s.coordinator.servers.get? l = some server →
    server.generation = generation → server.shutdownPending = false
  | _ => True

/-! ## The invariant -/

/-- What is kept of one server. -/
structure LifecycleOk (enabled underWay : Bool) (server : ServerBinding) : Prop where
  idle : enabled = false → server.state ≠ .discovering ∧ server.state ≠ .starting ∧
    server.state ≠ .ready ∧ server.state ≠ .approvalRequired
  pending : server.shutdownPending = true →
    underWay = true ∧ (server.state = .ready ∨ server.state = .disabled)

def Inv (c : LanguageCoordinator) (underWay : String → Bool) : Prop :=
  ∀ l server, c.servers.get? l = some server →
    LifecycleOk (c.selectionEnabled l) (underWay l) server

section Inv

variable {env : LanguageEnv} {c c' : LanguageCoordinator} {u u' : String → Bool} {l : String}
  {server : ServerBinding}

theorem Inv.at_new (h : Inv c u) (l : String) :
    LifecycleOk (c.selectionEnabled l) (u l) (c.serverOrNew l) := by
  unfold serverOrNew
  cases hg : c.servers.get? l with
  | some server => exact h l server hg
  | none =>
    refine ⟨fun _ => ⟨?_, ?_, ?_, ?_⟩, fun hp => ?_⟩
    · decide
    · decide
    · decide
    · decide
    · cases hp

/-- A server that can be started is not shutting down. -/
theorem LifecycleOk.settled {enabled underWay : Bool} (h : LifecycleOk enabled underWay server)
    (hs : canStart server.state = true) : server.shutdownPending = false := by
  cases hp : server.shutdownPending with
  | false => rfl
  | true =>
    obtain ⟨-, hr | hd⟩ := h.pending hp
    · rw [hr] at hs; cases hs
    · rw [hd] at hs; cases hs

/-- The state after a step, from what it is for the language of the operation. -/
theorem Inv.of_language (h : Inv c u)
    (hsame : ∀ k, k ≠ l → SameLanguage c c' k ∧ u' k = u k)
    (hl : ∀ server, c'.servers.get? l = some server →
      LifecycleOk (c'.selectionEnabled l) (u' l) server) : Inv c' u' := by
  intro k server hk
  by_cases hkl : k = l
  · subst hkl
    exact hl server hk
  · obtain ⟨hsame, hu⟩ := hsame k hkl
    rw [hsame.enabled_eq, hu]
    rw [hsame.server] at hk
    exact h k server hk

theorem LifecycleOk.mono {enabled enabled' underWay underWay' : Bool}
    (h : LifecycleOk enabled underWay server) (he : enabled' = false → enabled = false)
    (hu : underWay = true → underWay' = true) : LifecycleOk enabled' underWay' server :=
  ⟨fun hd => h.idle (he hd), fun hp => ⟨hu (h.pending hp).1, (h.pending hp).2⟩⟩

end Inv

/-! ## The language of an operation -/

section Own

variable {env : LanguageEnv} {s : LanguageRun} {op : CoordinatorOp} {l : String}
  {server : ServerBinding}

theorem after_of_same
    (hgen : (op.run env s.coordinator).1.generationOf l = s.coordinator.generationOf l)
    (hend : op.ended = none) (hu : s.underWay l = true) : s.after env op l = true := by
  unfold after
  rw [if_neg (not_not.mpr hgen), hend, hu]
  rfl

theorem generationOf_of_get? {c : LanguageCoordinator} (h : c.servers.get? l = some server) :
    c.generationOf l = some server.generation := by
  unfold generationOf
  rw [h, Option.map_some]

theorem after_of_shutdown (generation : UInt64)
    (hgen : (op.run env s.coordinator).1.generationOf l = s.coordinator.generationOf l)
    (hend : op.ended = none) (hl : s.coordinator.generationOf l = some generation)
    (hs : op.shutdown env s.coordinator = some (l, generation)) : s.after env op l = true := by
  unfold after
  rw [if_neg (not_not.mpr hgen), hend, hs]
  simp [concerns, hl]

theorem after_of_ended {generation : UInt64} (hl : s.coordinator.generationOf l = some generation)
    (hend : op.ended = some (l, generation)) : s.after env op l = false := by
  unfold after
  split
  · rfl
  · rw [hend, if_pos (by simp [concerns, hl])]

theorem after_of_next {generation : UInt64} (hl : s.coordinator.generationOf l = some generation)
    (hnext : (op.run env s.coordinator).1.generationOf l = some (generation + 1)) :
    s.after env op l = false := by
  unfold after
  rw [if_pos]
  rw [hl, hnext]
  intro he
  have := Option.some.inj he
  simp at this

/-- What the invariant asks of the operation's own language after it. -/
def OwnOk (env : LanguageEnv) (s : LanguageRun) (op : CoordinatorOp) (l : String) : Prop :=
  ∀ server, (op.run env s.coordinator).1.servers.get? l = some server →
    LifecycleOk ((op.run env s.coordinator).1.selectionEnabled l) (s.after env op l) server

theorem own_of_same (h : Inv s.coordinator s.underWay)
    (hsame : SameLanguage s.coordinator (op.run env s.coordinator).1 l) (hend : op.ended = none) :
    OwnOk env s op l := by
  intro server' hg
  have hgen : (op.run env s.coordinator).1.generationOf l = s.coordinator.generationOf l := by
    unfold generationOf
    rw [hsame.server]
  rw [hsame.enabled_eq]
  rw [hsame.server] at hg
  exact (h l server' hg).mono (fun h => h) (after_of_same hgen hend)

/-- The operation leaves a server of which no shutdown is pending. -/
theorem own_of_get? (server' : ServerBinding)
    (hg : (op.run env s.coordinator).1.servers.get? l = some server')
    (hp : server'.shutdownPending = false)
    (hidle : (op.run env s.coordinator).1.selectionEnabled l = false →
      server'.state ≠ .discovering ∧ server'.state ≠ .starting ∧ server'.state ≠ .ready ∧
        server'.state ≠ .approvalRequired) : OwnOk env s op l := by
  intro server'' hg'
  obtain rfl := Option.some.inj (hg.symm.trans hg')
  refine ⟨hidle, fun hpend => ?_⟩
  rw [hp] at hpend
  cases hpend

theorem own_openBinding {c : LanguageCoordinator} (id : DocumentId) (document : DocumentBinding)
    (h : Inv s.coordinator s.underWay)
    (hsame : SameLanguage s.coordinator c document.languageId)
    (hrun : (op.run env s.coordinator).1 = (c.openBinding id document).1)
    (hend : op.ended = none) : OwnOk env s op document.languageId := by
  have hwith : SameLanguage s.coordinator (c.withDocument id document) document.languageId :=
    hsame.trans ⟨rfl, rfl⟩
  have hnew : (c.withDocument id document).serverOrNew document.languageId =
      s.coordinator.serverOrNew document.languageId := by
    unfold serverOrNew
    rw [hwith.server]
  obtain ⟨-, ho⟩ | ⟨-, hen, ⟨server, -, -, ho⟩ | ⟨-, ho⟩⟩ := openBinding_cases c id document
  · exact own_of_same h (by rw [hrun, ho]; exact hwith) hend
  · exact own_of_same h (by rw [hrun, ho]; exact hwith) hend
  · obtain ⟨-, he⟩ | ⟨hcan, he⟩ :=
      ensure_cases (c.withDocument id document) document.languageId
    · exact own_of_same h (by rw [hrun, ho, he]; exact hwith) hend
    · rw [hnew] at hcan he
      have hok := (h.at_new document.languageId).settled hcan
      refine own_of_get? (next (s.coordinator.serverOrNew document.languageId)) ?_ hok ?_
      · rw [hrun, ho, he, server_discover, if_pos rfl]
      · intro hd
        rw [hrun, ho, he] at hd
        have : (c.withDocument id document).selectionEnabled document.languageId = false := hd
        rw [hwith.enabled_eq, ← hsame.enabled_eq, hen] at this
        cases this

/-- The operation moves a server, that is neither ready nor disabled, within its generation. -/
theorem own_of_moved {server : ServerBinding} (server' : ServerBinding)
    (h : Inv s.coordinator s.underWay)
    (hget : s.coordinator.servers.get? l = some server)
    (hserv : (op.run env s.coordinator).1.servers = s.coordinator.servers.insert l server')
    (hsel : (op.run env s.coordinator).1.selections = s.coordinator.selections)
    (hp : server'.shutdownPending = server.shutdownPending)
    (hr : server.state ≠ .ready) (hd : server.state ≠ .disabled)
    (hidle : s.coordinator.selectionEnabled l = false →
      server'.state ≠ .discovering ∧ server'.state ≠ .starting ∧ server'.state ≠ .ready ∧
        server'.state ≠ .approvalRequired) : OwnOk env s op l := by
  refine own_of_get? server' ?_ ?_ fun he => hidle ?_
  · rw [hserv, SortedMap.get?_insert, if_pos rfl]
  · rw [hp]
    cases hpend : server.shutdownPending with
    | false => rfl
    | true =>
      obtain ⟨-, hready | hdis⟩ := (h l server hget).pending hpend
      · exact absurd hready hr
      · exact absurd hdis hd
  · unfold selectionEnabled at he ⊢
    rwa [hsel] at he

theorem own_discovered (h : Inv s.coordinator s.underWay) (workspaceId : String)
    (generation : UInt64) (result : DiscoveryResult) :
    OwnOk env s (.discovered workspaceId l generation result) l := by
  obtain hc | ⟨server, pendingApproval, hg, -, hst, hc⟩ :=
    discovered_cases s.coordinator workspaceId l generation result
  · refine own_of_same h ?_ rfl
    change SameLanguage s.coordinator (s.coordinator.discovered workspaceId l generation result) l
    rw [hc]
    exact .refl _ l
  · refine own_of_moved
      { server with state := DiscoveryResult.state result, pendingApproval := pendingApproval }
      h hg (congrArg (·.servers) hc) (congrArg (·.selections) hc) rfl (by rw [hst]; decide)
      (by rw [hst]; decide) fun he => ?_
    exact absurd hst ((h l server hg).idle he).1

theorem own_approve (h : Inv s.coordinator s.underWay) : OwnOk env s (.approve l) l := by
  obtain hc | ⟨server, state, hg, hst, hstate, hrest, hserv⟩ := approve_cases s.coordinator l
  · refine own_of_same h ?_ rfl
    change SameLanguage s.coordinator (s.coordinator.approve l).1 l
    rw [hc]
    exact .refl _ l
  · refine own_of_moved _ h hg hserv hrest.selections rfl (by rw [hst]; decide)
      (by rw [hst]; decide) fun he => ?_
    exact absurd hst ((h l server hg).idle he).2.2.2

theorem own_deny (h : Inv s.coordinator s.underWay) : OwnOk env s (.deny l) l := by
  obtain hc | ⟨server, hg, hst, hrest, hserv⟩ := deny_cases s.coordinator l
  · refine own_of_same h ?_ rfl
    change SameLanguage s.coordinator (s.coordinator.deny l) l
    rw [hc]
    exact .refl _ l
  · refine own_of_moved _ h hg hserv hrest.selections rfl (by rw [hst]; decide)
      (by rw [hst]; decide) fun he => ?_
    exact absurd hst ((h l server hg).idle he).2.2.2

theorem own_markReady (h : Inv s.coordinator s.underWay) (order : KeyOrder DocumentId)
    (generation : UInt64) (positionEncoding : Language.PositionEncoding) :
    OwnOk env s (.markReady order l generation positionEncoding) l := by
  obtain hc | ⟨server, hg, -, hst, hc⟩ :=
    markReady_cases s.coordinator order l generation positionEncoding
  · refine own_of_same h ?_ rfl
    change SameLanguage s.coordinator
      (s.coordinator.markReady order l generation positionEncoding).1 l
    rw [hc]
    exact .refl _ l
  · refine own_of_moved { server with state := .ready, positionEncoding := positionEncoding } h hg
      (congrArg (·.servers) hc) (congrArg (·.selections) hc) rfl (by rw [hst]; decide)
      (by rw [hst]; decide) fun he => ?_
    exact absurd hst ((h l server hg).idle he).2.1

theorem own_retry (h : Inv s.coordinator s.underWay) (ha : s.Allowed (.retry l)) :
    OwnOk env s (.retry l) l := by
  obtain ⟨-, hc⟩ | ⟨server, hg, hcan, hc⟩ := retry_cases s.coordinator l
  · refine own_of_same h ?_ rfl
    change SameLanguage s.coordinator (s.coordinator.retry l).1 l
    rw [hc]
    exact .refl _ l
  · obtain ⟨hen, hp⟩ := ha server hg hcan
    refine own_of_get? (next { server with pendingApproval := none }) ?_ hp fun he => ?_
    · change (s.coordinator.retry l).1.servers.get? l = _
      rw [hc, server_discover, if_pos rfl]
    · have : s.coordinator.selectionEnabled l = false := by
        change (s.coordinator.retry l).1.selectionEnabled l = false at he
        rw [hc] at he
        exact he
      rw [hen] at this
      cases this

/-- A start from a state whose server is stopped or was never begun. -/
theorem own_ensure {c : LanguageCoordinator} {server' : ServerBinding}
    (hrun : (op.run env s.coordinator).1 = (c.ensureLanguageStarted l).1)
    (hg : c.servers.get? l = some server') (hp : server'.shutdownPending = false)
    (hen : c.selectionEnabled l = true) : OwnOk env s op l := by
  have hsel : (op.run env s.coordinator).1.selectionEnabled l = true := by
    rw [hrun]
    unfold selectionEnabled at hen ⊢
    rw [(rest_ensure c l).selections]
    exact hen
  obtain ⟨-, he⟩ | ⟨hcan, he⟩ := ensure_cases c l
  · refine own_of_get? server' (by rw [hrun, he]; exact hg) hp fun hd => ?_
    rw [hsel] at hd
    cases hd
  · rw [serverOrNew_of_get? hg] at he
    refine own_of_get? (next server') ?_ hp fun hd => ?_
    · rw [hrun, he, server_discover, if_pos rfl]
    · rw [hsel] at hd
      cases hd

/-- An event of another generation changes nothing and is not about the present one. -/
theorem own_outdated {generation : UInt64} (h : Inv s.coordinator s.underWay)
    (hrun : (op.run env s.coordinator).1 = s.coordinator) (hended : op.ended = some (l, generation))
    (hne : ∀ server, s.coordinator.servers.get? l = some server → server.generation ≠ generation) :
    OwnOk env s op l := by
  intro server' hg
  rw [hrun] at hg
  have hnot : s.concerns l op.ended = false := by
    simp only [hended, concerns, Option.any_some, decide_true, Bool.true_and,
      generationOf_of_get? hg]
    simpa using hne server' hg
  rw [hrun]
  refine (h l server' hg).mono (fun h => h) fun hu => ?_
  unfold after
  rw [hrun, if_neg (by simp), hnot, hu]
  rfl

theorem own_markStopped (h : Inv s.coordinator s.underWay) (generation : UInt64) :
    OwnOk env s (.markStopped l generation) l := by
  obtain ⟨hne, hc⟩ | ⟨server, hg, hgen, hc⟩ := markStopped_cases s.coordinator l generation
  · exact own_outdated h (congrArg (·.1) hc) rfl hne
  · have hsel : (s.coordinator.stopped l server).selectionEnabled l =
        s.coordinator.selectionEnabled l := rfl
    have hget : (s.coordinator.stopped l server).servers.get? l =
        some { server with
          shutdownPending := false
          state := if s.coordinator.selectionEnabled l then .stopped else .disabled
          lastError := none } := by
      unfold stopped
      exact get?_setServer.trans (if_pos rfl)
    have hrun : ((CoordinatorOp.markStopped l generation).run env s.coordinator).1 =
        (if s.coordinator.selectionEnabled l && s.coordinator.hasDocument l then
            (s.coordinator.stopped l server).ensureLanguageStarted l
          else (s.coordinator.stopped l server, [])).1 := congrArg (·.1) hc
    by_cases hd : (s.coordinator.selectionEnabled l && s.coordinator.hasDocument l) = true
    · rw [if_pos hd] at hrun
      exact own_ensure hrun hget rfl (hsel.trans (Bool.and_eq_true_iff.mp hd).1)
    · rw [if_neg hd] at hrun
      refine own_of_get? _ ((congrArg (·.servers.get? l) hrun).trans hget) rfl fun he => ?_
      have he' : s.coordinator.selectionEnabled l = false := by
        rw [hrun] at he
        exact he
      simp [he']

theorem own_fail (h : Inv s.coordinator s.underWay) (generation : UInt64) (message : String)
    (ha : s.Allowed (.failWithMessage l generation message)) :
    OwnOk env s (.failWithMessage l generation message) l := by
  obtain ⟨hne, hc⟩ | ⟨server, hg, hgen, hc⟩ :=
    failWithMessage_cases s.coordinator l generation message
  · exact own_outdated h hc rfl hne
  · refine own_of_get? ({ server with
        state := .failed, lastError := some (takeChars 2048 message) }) ?_ (ha server hg hgen) ?_
    · change (s.coordinator.failWithMessage l generation message).servers.get? l = _
      rw [hc]
      exact get?_setServer.trans (if_pos rfl)
    · intro _
      exact ⟨by simp, by simp, by simp, by simp⟩

theorem own_disable (h : Inv s.coordinator s.underWay) : OwnOk env s (.disableLanguage l) l := by
  obtain ⟨-, hc⟩ | ⟨selection, -, -, hshut, hc⟩ := disableLanguage_cases env s.coordinator l
  · refine own_of_same h ?_ rfl
    change SameLanguage s.coordinator (s.coordinator.disableLanguage env l).1 l
    rw [hc]
    exact .refl _ l
  · have hrun : ((CoordinatorOp.disableLanguage l).run env s.coordinator).1.servers.get? l =
        some { s.coordinator.serverOrNew l with
          shutdownPending := decide ((s.coordinator.serverOrNew l).state = .ready)
          state := .disabled } := by
      change (s.coordinator.disableLanguage env l).1.servers.get? l = _
      rw [hc]
      exact get?_setServer.trans (if_pos rfl)
    intro server' hg'
    obtain rfl := Option.some.inj (hrun.symm.trans hg')
    refine ⟨fun _ => ⟨by simp, by simp, by simp, by simp⟩, fun hp => ⟨?_, .inr rfl⟩⟩
    -- Only a server that is ready is shut down, so there is one.
    have hready : (s.coordinator.serverOrNew l).state = .ready := of_decide_eq_true hp
    cases hg : s.coordinator.servers.get? l with
    | none =>
      unfold serverOrNew at hready
      rw [hg] at hready
      cases hready
    | some server =>
      have hnew := serverOrNew_of_get? hg
      refine after_of_shutdown server.generation ?_ rfl
        (generationOf_of_get? hg) ?_
      · rw [generationOf_of_get? hrun, generationOf_of_get? hg, hnew]
      · change ((s.coordinator.disableLanguage env l).2.map (l, ·)) = _
        rw [hshut, if_pos hready, hnew, Option.map_some]

theorem own_enable (h : Inv s.coordinator s.underWay) : OwnOk env s (.enableLanguage l) l := by
  obtain ⟨-, hc⟩ | ⟨selection, -, hen, ⟨-, hc⟩ | ⟨hp, hc⟩⟩ :=
    enableLanguage_cases env s.coordinator l
  · refine own_of_same h ?_ rfl
    change SameLanguage s.coordinator (s.coordinator.enableLanguage env l).1 l
    rw [hc]
    exact .refl _ l
  · -- The old server is shutting down: only the selection changes.
    have hrun : ((CoordinatorOp.enableLanguage l).run env s.coordinator).1 =
        s.coordinator.select l selection := congrArg (·.1) hc
    intro server' hg'
    rw [hrun] at hg' ⊢
    have hsel : (s.coordinator.select l selection).selectionEnabled l = true := by
      unfold selectionEnabled select
      simp [hen]
    rw [hsel]
    refine (h l server' hg').mono (fun he => by cases he) (after_of_same ?_ rfl)
    unfold generationOf
    rw [hrun]
    rfl
  · have hsel : (s.coordinator.enabled l selection).selectionEnabled l = true := by
      unfold selectionEnabled LanguageCoordinator.enabled setServer select
      simp [hen]
    have hget : (s.coordinator.enabled l selection).servers.get? l =
        some { s.coordinator.serverOrNew l with state := .stopped } :=
      get?_setServer.trans (if_pos rfl)
    have hrun : ((CoordinatorOp.enableLanguage l).run env s.coordinator).1 =
        (if s.coordinator.hasDocument l then
            (s.coordinator.enabled l selection).ensureLanguageStarted l
          else (s.coordinator.enabled l selection, [])).1 := congrArg (·.1) hc
    by_cases hd : s.coordinator.hasDocument l = true
    · rw [if_pos hd] at hrun
      exact own_ensure hrun hget hp hsel
    · rw [if_neg hd] at hrun
      refine own_of_get? { s.coordinator.serverOrNew l with state := .stopped }
        ((congrArg (·.servers.get? l) hrun).trans hget) hp fun he => ?_
      rw [hrun] at he
      rw [hsel] at he
      cases he

theorem own_restart (h : Inv s.coordinator s.underWay) : OwnOk env s (.restartLanguage l) l := by
  obtain hc | ⟨server, hg, hst, -, hc⟩ := restartLanguage_cases s.coordinator l
  · refine own_of_same h ?_ rfl
    change SameLanguage s.coordinator (s.coordinator.restartLanguage l).1 l
    rw [hc]
    exact .refl _ l
  · have hrun : ((CoordinatorOp.restartLanguage l).run env s.coordinator).1 =
        s.coordinator.setServer l { server with shutdownPending := true } := congrArg (·.1) hc
    have hget : ((CoordinatorOp.restartLanguage l).run env s.coordinator).1.servers.get? l =
        some { server with shutdownPending := true } := by
      rw [hrun]
      exact get?_setServer.trans (if_pos rfl)
    intro server' hg'
    obtain rfl := Option.some.inj (hget.symm.trans hg')
    refine ⟨fun he => ?_, fun _ => ⟨?_, .inl hst⟩⟩
    · rw [hrun] at he
      exact absurd hst ((h l server hg).idle he).2.2.1
    · refine after_of_shutdown server.generation ?_ rfl
        (generationOf_of_get? hg) ?_
      · rw [generationOf_of_get? hget, generationOf_of_get? hg]
      · change ((s.coordinator.restartLanguage l).2.map (l, ·)) = _
        rw [hc, Option.map_some]

end Own

/-! ## Steps -/

section Step

variable {env : LanguageEnv} {s s' : LanguageRun} {op : CoordinatorOp}

theorem own_ok (h : Inv s.coordinator s.underWay) (ha : s.Allowed op) {l : String}
    (hl : op.language env s.coordinator = some l) : OwnOk env s op l := by
  cases op with
  | openDocument id path languageOverride revision text =>
    cases hl
    exact own_openBinding id (binding env path languageOverride revision text) h (.refl _ _) rfl rfl
  | setOverride id languageOverride =>
    simp only [CoordinatorOp.language] at hl
    cases hd : s.coordinator.documents.get? id with
    | none =>
      rw [hd] at hl
      cases hl
    | some previous =>
      rw [hd, Option.map_some] at hl
      cases hl
      refine own_openBinding id
        (binding env previous.path languageOverride previous.revision
          (if previous.eligible then some previous.text else none)) h
        (same_closeDocument s.coordinator id _) ?_ rfl
      change (s.coordinator.setOverride env id languageOverride).1 = _
      unfold setOverride
      rw [hd]
      rfl
  | discovered workspaceId languageId generation result =>
    cases hl
    exact own_discovered h workspaceId generation result
  | approve languageId => cases hl; exact own_approve h
  | deny languageId => cases hl; exact own_deny h
  | retry languageId => cases hl; exact own_retry h ha
  | disableLanguage languageId => cases hl; exact own_disable h
  | enableLanguage languageId => cases hl; exact own_enable h
  | restartLanguage languageId => cases hl; exact own_restart h
  | markReady order languageId generation positionEncoding =>
    cases hl
    exact own_markReady h order generation positionEncoding
  | markStopped languageId generation => cases hl; exact own_markStopped h generation
  | failWithMessage languageId generation message =>
    cases hl
    exact own_fail h generation message ha
  | editDocument _ _ _ | saveDocument _ | closeDocument _ | publishDiagnostics _ _ _ _ _ _
  | beginFeature _ _ _ | acceptFeatureResponse _ _ _ | expireFeature _ | dismissFeatures
  | setProblemFilter _ | toggleProblems => cases hl

/-- A shutdown is requested, and an end reported, of the operation's own language. -/
theorem concerns_of_ne {k : String} (hne : op.language env s.coordinator ≠ some k) :
    s.concerns k op.ended = false ∧ s.concerns k (op.shutdown env s.coordinator) = false := by
  cases op with
  | disableLanguage languageId | restartLanguage languageId =>
    have hk : languageId ≠ k := fun h => hne (h ▸ rfl)
    simp [concerns, CoordinatorOp.ended, CoordinatorOp.shutdown, Option.any_map, hk]
  | markStopped languageId generation | failWithMessage languageId generation message =>
    have hk : languageId ≠ k := fun h => hne (h ▸ rfl)
    simp [concerns, CoordinatorOp.ended, CoordinatorOp.shutdown, hk]
  | _ => exact ⟨rfl, rfl⟩

theorem after_of_ne {k : String} (hne : op.language env s.coordinator ≠ some k) :
    s.after env op k = s.underWay k := by
  have hgen : (op.run env s.coordinator).1.generationOf k = s.coordinator.generationOf k := by
    unfold generationOf
    rw [(CoordinatorOp.run_of_ne op hne).server]
  obtain ⟨hend, hshut⟩ := concerns_of_ne hne
  unfold after
  rw [if_neg (not_not.mpr hgen), hend, hshut]
  simp

theorem inv_step (h : Inv s.coordinator s.underWay) (ha : s.Allowed op)
    (hstep : step env s op = some s') : Inv s'.coordinator s'.underWay := by
  cases hstep
  cases hl : op.language env s.coordinator with
  | none =>
    intro k server hk
    have hne : op.language env s.coordinator ≠ some k := by simp [hl]
    have hsame := CoordinatorOp.run_of_ne op hne
    dsimp only at hk ⊢
    rw [hsame.enabled_eq, after_of_ne hne]
    rw [hsame.server] at hk
    exact h k server hk
  | some l =>
    refine h.of_language (l := l) (fun k hkl => ?_) (own_ok h ha hl)
    have hne : op.language env s.coordinator ≠ some k := by
      rw [hl]
      exact fun he => hkl (Option.some.inj he).symm
    exact ⟨CoordinatorOp.run_of_ne op hne, after_of_ne hne⟩

/-- Enabling a language of which no shutdown is pending starts it for its documents. -/
theorem enable_discovers {c : LanguageCoordinator} {l : String}
    (hp : (c.serverOrNew l).shutdownPending = false)
    (hsel : (c.selectionOf env l true).isSome) (hdoc : c.hasDocument l = true) :
    ∃ descriptorId, (c.enableLanguage env l).2 =
      [.discover c.workspaceId l descriptorId ((c.serverOrNew l).generation + 1)] := by
  obtain ⟨hnone, -⟩ | ⟨selection, -, -, ⟨hpend, -⟩ | ⟨-, hc⟩⟩ := enableLanguage_cases env c l
  · rw [hnone] at hsel
    cases hsel
  · rw [hp] at hpend
    cases hpend
  · rw [hc, if_pos hdoc]
    have hget : (c.enabled l selection).servers.get? l =
        some { c.serverOrNew l with state := .stopped } := get?_setServer.trans (if_pos rfl)
    obtain ⟨hcan, -⟩ | ⟨-, he⟩ := ensure_cases (c.enabled l selection) l
    · rw [serverOrNew_of_get? hget] at hcan
      cases hcan
    · rw [he, serverOrNew_of_get? hget]
      exact ⟨_, rfl⟩

theorem lifecycle_of_inv (h : Inv s.coordinator s.underWay) : Lifecycle env s where
  disabled l server hg he :=
    have hok := (h l server hg).idle he
    ⟨hok.1, hok.2.1, hok.2.2.1⟩
  pending l server hg hp := ((h l server hg).pending hp).1
  enable l hu hsel hdoc := by
    refine enable_discovers ?_ hsel hdoc
    cases hp : (s.coordinator.serverOrNew l).shutdownPending with
    | false => rfl
    | true =>
      have := ((h.at_new l).pending hp).1
      rw [hu] at this
      cases this

/-- A step that is not allowed breaks the life of its language. -/
theorem allowed_of_lifecycle (hstep : step env s op = some s') (h : Lifecycle env s') :
    s.Allowed op := by
  cases hstep
  cases op with
  | retry l =>
    intro server hg hcan
    have hc : s.coordinator.retry l =
        s.coordinator.discover l { server with pendingApproval := none } := by
      obtain ⟨hnot, -⟩ | ⟨server', hg', -, hc⟩ := retry_cases s.coordinator l
      · rw [hnot server hg] at hcan
        cases hcan
      · obtain rfl := Option.some.inj (hg.symm.trans hg')
        exact hc
    have hget : ((CoordinatorOp.retry l).run env s.coordinator).1.servers.get? l =
        some (next { server with pendingApproval := none }) := by
      change (s.coordinator.retry l).1.servers.get? l = _
      rw [hc, server_discover, if_pos rfl]
    constructor
    · cases he : s.coordinator.selectionEnabled l with
      | true => rfl
      | false =>
        have hen : ((CoordinatorOp.retry l).run env s.coordinator).1.selectionEnabled l =
            false := by
          change (s.coordinator.retry l).1.selectionEnabled l = false
          rw [hc]
          exact he
        exact absurd rfl (h.disabled l _ hget hen).1
    · cases hp : server.shutdownPending with
      | false => rfl
      | true =>
        have hu : s.after env (.retry l) l = true := h.pending l _ hget hp
        have hnot : s.after env (.retry l) l = false :=
          after_of_next (generationOf_of_get? hg) (generationOf_of_get? hget)
        rw [hnot] at hu
        cases hu
  | failWithMessage l generation message =>
    intro server hg hgen
    have hget : ((CoordinatorOp.failWithMessage l generation message).run env
        s.coordinator).1.servers.get? l =
          some { server with state := .failed, lastError := some (takeChars 2048 message) } := by
      change (s.coordinator.failWithMessage l generation message).servers.get? l = _
      obtain ⟨hne, -⟩ | ⟨server', hg', -, hc⟩ :=
        failWithMessage_cases s.coordinator l generation message
      · exact absurd hgen (hne server hg)
      · obtain rfl := Option.some.inj (hg.symm.trans hg')
        rw [hc]
        exact get?_setServer.trans (if_pos rfl)
    cases hp : server.shutdownPending with
    | false => rfl
    | true =>
      have hu : s.after env (.failWithMessage l generation message) l = true :=
        h.pending l _ hget hp
      have hnot : s.after env (.failWithMessage l generation message) l = false :=
        after_of_ended (generationOf_of_get? hg) (by rw [← hgen]; rfl)
      rw [hnot] at hu
      cases hu
  | _ => trivial

theorem inv_start (workspaceId : String) (restored : RestoredLanguageSession) :
    Inv (start workspaceId restored).coordinator (start workspaceId restored).underWay := by
  intro l server hg
  cases hg

end Step

/-- From any restored session, under any operations and events in any order, disabled languages
run no server and pending shutdowns are under way exactly where no disabled language is retried,
and no server is retried or fails while its shutdown is pending. -/
theorem lifecycle_law (env : LanguageEnv) (workspaceId : String)
    (restored : RestoredLanguageSession) (ops : List CoordinatorOp) :
    RunsIn (step env) (Lifecycle env) ops (start workspaceId restored) ↔
      Along (step env) Allowed ops (start workspaceId restored) :=
  runsIn_iff_of_imp (I := fun s => Inv s.coordinator s.underWay) (fun _ h => lifecycle_of_inv h)
    (fun _ _ h ha => ⟨_, rfl, inv_step h ha rfl⟩)
    (fun _ _ _ _ hstep h => allowed_of_lifecycle hstep h) (inv_start workspaceId restored)

/-- A server that is ready is disabled, and then retried. -/
def retried : List CoordinatorOp :=
  [.openDocument ⟨1⟩ ⟨[97]⟩ none 0 (some ""), .discovered "w" "rust" 1 .available,
    .markReady (.sorted DocumentId) "rust" 1 .utf16, .disableLanguage "rust", .retry "rust"]

def rustEnv : LanguageEnv := ⟨fun _ => "rust", fun _ => some "rust-analyzer"⟩

/-- The retry discovers a server for the disabled language. -/
theorem disabled_retry :
    ¬ ∀ (env : LanguageEnv) (workspaceId : String) (restored : RestoredLanguageSession)
      (ops : List CoordinatorOp),
      RunsIn (step env) (Lifecycle env) ops (start workspaceId restored) := by
  intro h
  have hrun : (retried.foldlM (step rustEnv) (start "w" ⟨[], [], false⟩)).any fun s =>
      (s.coordinator.servers.get? "rust").any (·.state = .discovering) &&
        !s.coordinator.selectionEnabled "rust" := by
    decide
  obtain ⟨s, hr, hs⟩ := (Option.any_eq_true _ _).mp hrun
  obtain ⟨hstate, hen⟩ := Bool.and_eq_true_iff.mp hs
  obtain ⟨server, hg, hd⟩ := (Option.any_eq_true _ _).mp hstate
  have hlife := (h rustEnv "w" ⟨[], [], false⟩ retried).last hr
  exact (hlife.disabled "rust" server hg (by simpa using hen)).1 (of_decide_eq_true hd)

end LanguageRun

end Strukt.App
