import Strukt.App.LanguageRuntime

/-!
# How a server moves

What the operations of the coordinator do to the servers, each seen on its own: a server is kept in
its generation (`Kept`), or the next generation is discovered (`Moved`). Only `markReady` makes a
server ready; the user's operations, stops and failures do not (`allMoved_run`).
-/

namespace Strukt.App

open Strukt.Language Method LanguageCoordinator

/-- No process of the server's generation was spawned yet. -/
def waiting : LanguageState → Bool
  | .discovering | .approvalRequired => true
  | _ => false

/-- The server stays in its generation; it is not ready or waiting where it was not. -/
structure Kept (server server' : ServerBinding) : Prop where
  generation : server'.generation = server.generation
  ready : server'.state = .ready → server.state = .ready
  waiting : waiting server'.state = true → waiting server.state = true

/-- What any operation but `markReady` does to a server: it is kept, or the next one is
discovered. -/
def Moved (server server' : ServerBinding) : Prop :=
  Kept server server' ∨
    server'.generation = server.generation + 1 ∧ server'.state = .discovering

theorem Kept.refl (server : ServerBinding) : Kept server server := ⟨rfl, fun h => h, fun h => h⟩

theorem Kept.of_rest {server server' : ServerBinding} (hg : server'.generation = server.generation)
    (hr : server'.state ≠ .ready) (hw : Strukt.App.waiting server'.state = false) :
    Kept server server' :=
  ⟨hg, fun h => absurd h hr, fun h => by rw [hw] at h; cases h⟩

theorem Kept.moved {server server' server'' : ServerBinding} (h : Kept server server')
    (h' : Moved server' server'') : Moved server server'' := by
  obtain h' | ⟨hg, hs⟩ := h'
  · exact .inl ⟨h'.generation.trans h.generation, fun hr => h.ready (h'.ready hr),
      fun hw => h.waiting (h'.waiting hw)⟩
  · exact .inr ⟨hg.trans (by rw [h.generation]), hs⟩

namespace LanguageCoordinator

variable {env : LanguageEnv} {c c' c'' : LanguageCoordinator} {l : String} {id : DocumentId}

/-- Every server moved so. -/
def AllMoved (c c' : LanguageCoordinator) : Prop :=
  ∀ k, Moved (c.serverOrNew k) (c'.serverOrNew k)

def AllKept (c c' : LanguageCoordinator) : Prop :=
  ∀ k, Kept (c.serverOrNew k) (c'.serverOrNew k)

theorem allKept_of_eq (h : c'.servers = c.servers) : AllKept c c' := by
  intro k
  unfold serverOrNew
  rw [h]
  exact .refl _

theorem AllKept.moved (h : AllKept c c') : AllMoved c c' := fun k => .inl (h k)

theorem AllKept.trans (h : AllKept c c') (h' : AllMoved c' c'') : AllMoved c c'' :=
  fun k => (h k).moved (h' k)

theorem serverOrNew_of_insert {server : ServerBinding}
    (h : c'.servers = c.servers.insert l server) (k : String) :
    c'.serverOrNew k = if k = l then server else c.serverOrNew k := by
  unfold serverOrNew
  rw [h, SortedMap.get?_insert]
  split
  · rfl
  · rfl

theorem allKept_of_insert {server : ServerBinding} (h : c'.servers = c.servers.insert l server)
    (hk : Kept (c.serverOrNew l) server) : AllKept c c' := by
  intro k
  rw [serverOrNew_of_insert h]
  split
  · next hl => exact hl ▸ hk
  · exact .refl _

theorem allMoved_discover {server : ServerBinding}
    (h : server.generation = (c.serverOrNew l).generation) :
    AllMoved c (c.discover l server).1 := by
  intro k
  have hs : (c.discover l server).1.servers = c.servers.insert l (next server) := rfl
  rw [serverOrNew_of_insert hs]
  split
  · next hl => exact .inr ⟨by rw [hl, ← h]; rfl, rfl⟩
  · exact .inl (.refl _)

theorem allMoved_ensure (c : LanguageCoordinator) (l : String) :
    AllMoved c (c.ensureLanguageStarted l).1 := by
  obtain ⟨-, h⟩ | ⟨-, h⟩ := ensure_cases c l
  · rw [h]
    exact (allKept_of_eq rfl).moved
  · rw [h]
    exact allMoved_discover rfl

theorem allMoved_openBinding (c : LanguageCoordinator) (id : DocumentId)
    (document : DocumentBinding) : AllMoved c (c.openBinding id document).1 := by
  have hdoc : AllKept c (c.withDocument id document) := allKept_of_eq rfl
  obtain ⟨-, h⟩ | ⟨-, -, ⟨server, -, -, h⟩ | ⟨-, h⟩⟩ := openBinding_cases c id document
  · rw [h]
    exact hdoc.moved
  · rw [h]
    exact hdoc.moved
  · rw [h]
    exact hdoc.trans (allMoved_ensure _ _)

theorem allKept_failWithMessage (c : LanguageCoordinator) (l : String) (generation : UInt64)
    (message : String) : AllKept c (c.failWithMessage l generation message) := by
  obtain ⟨-, h⟩ | ⟨server, hg, -, h⟩ := failWithMessage_cases c l generation message
  · rw [h]
    exact allKept_of_eq rfl
  · rw [h]
    refine allKept_of_insert rfl (.of_rest ?_ (by simp) rfl)
    rw [serverOrNew_of_get? hg]

theorem allMoved_markStopped (c : LanguageCoordinator) (l : String) (generation : UInt64) :
    AllMoved c (c.markStopped l generation).1 := by
  obtain ⟨-, h⟩ | ⟨server, hg, -, h⟩ := markStopped_cases c l generation
  · rw [h]
    exact (allKept_of_eq rfl).moved
  · have hstop : AllKept c (c.stopped l server) := by
      refine allKept_of_insert rfl (.of_rest (by rw [serverOrNew_of_get? hg]) ?_ ?_)
      · dsimp only
        split <;> simp
      · dsimp only
        split <;> rfl
    rw [h]
    split
    · exact hstop.trans (allMoved_ensure _ _)
    · exact hstop.moved

theorem allKept_discovered (c : LanguageCoordinator) (workspaceId l : String) (generation : UInt64)
    (result : DiscoveryResult) : AllKept c (c.discovered workspaceId l generation result) := by
  obtain h | ⟨server, pending, hg, -, hst, h⟩ := discovered_cases c workspaceId l generation result
  · rw [h]
    exact allKept_of_eq rfl
  · rw [h]
    refine allKept_of_insert rfl ⟨by rw [serverOrNew_of_get? hg], ?_, fun _ => ?_⟩
    · cases result <;> simp [DiscoveryResult.state]
    · rw [serverOrNew_of_get? hg, hst]
      rfl

theorem allKept_approve (c : LanguageCoordinator) (l : String) : AllKept c (c.approve l).1 := by
  obtain h | ⟨server, state, hg, hst, hor, -, h⟩ := approve_cases c l
  · rw [h]
    exact allKept_of_eq rfl
  · refine allKept_of_insert h ⟨by rw [serverOrNew_of_get? hg], ?_, fun _ => ?_⟩
    · obtain rfl | rfl := hor <;> simp
    · rw [serverOrNew_of_get? hg, hst]
      rfl

theorem allKept_deny (c : LanguageCoordinator) (l : String) : AllKept c (c.deny l) := by
  obtain h | ⟨server, hg, -, -, h⟩ := deny_cases c l
  · rw [h]
    exact allKept_of_eq rfl
  · exact allKept_of_insert h (.of_rest (by rw [serverOrNew_of_get? hg]) (by simp) rfl)

theorem allMoved_retry (c : LanguageCoordinator) (l : String) : AllMoved c (c.retry l).1 := by
  obtain ⟨-, h⟩ | ⟨server, hg, -, h⟩ := retry_cases c l
  · rw [h]
    exact (allKept_of_eq rfl).moved
  · rw [h]
    exact allMoved_discover (by rw [serverOrNew_of_get? hg])

theorem allKept_disable (env : LanguageEnv) (c : LanguageCoordinator) (l : String) :
    AllKept c (c.disableLanguage env l).1 := by
  obtain ⟨-, h⟩ | ⟨selection, -, -, -, h⟩ := disableLanguage_cases env c l
  · rw [h]
    exact allKept_of_eq rfl
  · rw [h]
    exact allKept_of_insert rfl (.of_rest rfl (by simp) rfl)

theorem allMoved_enable (env : LanguageEnv) (c : LanguageCoordinator) (l : String) :
    AllMoved c (c.enableLanguage env l).1 := by
  obtain ⟨-, h⟩ | ⟨selection, -, -, ⟨-, h⟩ | ⟨-, h⟩⟩ := enableLanguage_cases env c l
  · rw [h]
    exact (allKept_of_eq rfl).moved
  · rw [h]
    exact (allKept_of_eq rfl).moved
  · have hstop : AllKept c (c.enabled l selection) :=
      allKept_of_insert rfl (.of_rest rfl (by simp) rfl)
    rw [h]
    split
    · exact hstop.trans (allMoved_ensure _ _)
    · exact hstop.moved

theorem allKept_restart (c : LanguageCoordinator) (l : String) :
    AllKept c (c.restartLanguage l).1 := by
  obtain h | ⟨server, hg, hst, -, h⟩ := restartLanguage_cases c l
  · rw [h]
    exact allKept_of_eq rfl
  · rw [h]
    refine allKept_of_insert rfl ?_
    rw [serverOrNew_of_get? hg]
    exact ⟨rfl, fun h => h, fun h => h⟩

theorem allKept_close (c : LanguageCoordinator) (id : DocumentId) :
    AllKept c (c.closeDocument id).1 :=
  allKept_of_eq (closeDocument_fields c id).2.2.1

theorem allMoved_setOverride (env : LanguageEnv) (c : LanguageCoordinator) (id : DocumentId)
    (languageOverride : Option String) : AllMoved c (c.setOverride env id languageOverride).1 := by
  unfold setOverride
  cases c.documents.get? id with
  | none => exact (allKept_of_eq rfl).moved
  | some previous => exact (allKept_close c id).trans (allMoved_openBinding _ _ _)

/-- What an operation of the user and the end of a server do to the servers. -/
theorem allMoved_run (env : LanguageEnv) (c : LanguageCoordinator) {op : CoordinatorOp}
    (h : op.ofUser = true) : AllMoved c (op.run env c).1 := by
  cases op with
  | openDocument id path languageOverride revision text => exact allMoved_openBinding c id _
  | editDocument id revision text =>
    exact (allKept_of_eq (editDocument_fields c id revision text).2.1).moved
  | closeDocument id => exact (allKept_close c id).moved
  | setOverride id languageOverride => exact allMoved_setOverride env c id languageOverride
  | discovered workspaceId languageId generation result =>
    exact (allKept_discovered c workspaceId languageId generation result).moved
  | approve languageId => exact (allKept_approve c languageId).moved
  | deny languageId => exact (allKept_deny c languageId).moved
  | retry languageId => exact allMoved_retry c languageId
  | disableLanguage languageId => exact (allKept_disable env c languageId).moved
  | enableLanguage languageId => exact allMoved_enable env c languageId
  | restartLanguage languageId => exact (allKept_restart c languageId).moved
  | publishDiagnostics order languageId generation path version diagnostics =>
    refine (allKept_of_eq ?_).moved
    exact SortedMap.ext_get? fun k =>
      (same_publish c order languageId generation path version diagnostics k).server
  | saveDocument _ | dismissFeatures | setProblemFilter _ | toggleProblems =>
    exact (allKept_of_eq rfl).moved
  | markReady _ _ _ _ | markStopped _ _ | failWithMessage _ _ _ | beginFeature _ _ _
  | acceptFeatureResponse _ _ _ | expireFeature _ => cases h

end LanguageCoordinator

end Strukt.App
