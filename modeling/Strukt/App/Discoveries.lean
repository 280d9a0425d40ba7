import Strukt.App.ServerMoves

/-!
# The discoveries that the coordinator asks for

`Announced` says what an operation, apart from the answers to a discovery and to an approval, leaves
of the approvals: all are kept, and a server is being discovered only if it was before, or if the
operation asks for that discovery.
-/

namespace Strukt.App

open Strukt.Language

/-- The workspace, the language and the generation of a discovery. -/
def LanguageEffect.discovery : LanguageEffect → Option (String × String × UInt64)
  | .discover workspaceId languageId _ generation => some (workspaceId, languageId, generation)
  | _ => none

namespace LanguageCoordinator

variable {env : LanguageEnv} {c c' : LanguageCoordinator} {l : String} {es : List LanguageEffect}
  {r : LanguageCoordinator × List LanguageEffect}

/-- The language's server is discovered only in the generation it was discovered in. -/
def Calm (c c' : LanguageCoordinator) (k : String) : Prop :=
  (c'.serverOrNew k).state = .discovering →
    (c.serverOrNew k).state = .discovering ∧
      (c'.serverOrNew k).generation = (c.serverOrNew k).generation

structure Announced (c : LanguageCoordinator) (r : LanguageCoordinator × List LanguageEffect) :
    Prop where
  workspaceId : r.1.workspaceId = c.workspaceId
  approvals : r.1.approvals = c.approvals
  pending : ∀ k found, (r.1.serverOrNew k).pendingApproval = some found →
    (c.serverOrNew k).pendingApproval = some found
  discovering : (r.2.filterMap LanguageEffect.discovery = [] ∧ ∀ k, Calm c r.1 k) ∨
    ∃ l, r.2.filterMap LanguageEffect.discovery =
        [(c.workspaceId, l, (r.1.serverOrNew l).generation)] ∧ ∀ k, k ≠ l → Calm c r.1 k

/-- The servers are those of before. -/
theorem announced_of_eq (hservers : c'.servers = c.servers)
    (hworkspace : c'.workspaceId = c.workspaceId) (happrovals : c'.approvals = c.approvals)
    (hes : es.filterMap LanguageEffect.discovery = []) : Announced c (c', es) := by
  have heq : ∀ k, c'.serverOrNew k = c.serverOrNew k := by
    intro k
    unfold serverOrNew
    rw [hservers]
  refine ⟨hworkspace, happrovals, fun k found h => ?_, .inl ⟨hes, fun k h => ?_⟩⟩
  · rwa [heq] at h
  · change (c'.serverOrNew k).state = .discovering at h
    rw [heq] at h
    exact ⟨h, by rw [heq]⟩

/-- One server is changed, and not discovered. -/
theorem announced_of_insert {server : ServerBinding} (hservers : c'.servers = c.servers.insert l server)
    (hworkspace : c'.workspaceId = c.workspaceId) (happrovals : c'.approvals = c.approvals)
    (hstate : server.state ≠ .discovering)
    (hpending : ∀ found, server.pendingApproval = some found →
      (c.serverOrNew l).pendingApproval = some found)
    (hes : es.filterMap LanguageEffect.discovery = []) : Announced c (c', es) := by
  refine ⟨hworkspace, happrovals, fun k found h => ?_, .inl ⟨hes, fun k h => ?_⟩⟩
  · rw [serverOrNew_of_insert hservers] at h
    split at h
    · next hk => exact hk ▸ hpending found h
    · exact h
  · dsimp only at h ⊢
    rw [serverOrNew_of_insert hservers] at h ⊢
    split at h
    · exact absurd h hstate
    · next hk => rw [if_neg hk]; exact ⟨h, rfl⟩

theorem announced_discover (c : LanguageCoordinator) (l : String) {server : ServerBinding}
    (hpending : ∀ found, server.pendingApproval = some found →
      (c.serverOrNew l).pendingApproval = some found) : Announced c (c.discover l server) := by
  have hservers : (c.discover l server).1.servers = c.servers.insert l (next server) := rfl
  refine ⟨rfl, rfl, fun k found h => ?_, .inr ⟨l, ?_, fun k hk h => ?_⟩⟩
  · rw [serverOrNew_of_insert hservers] at h
    split at h
    · next hk => exact hk ▸ hpending found h
    · exact h
  · rw [serverOrNew_of_insert hservers, if_pos rfl]
    rfl
  · rw [serverOrNew_of_insert hservers, if_neg hk] at h ⊢
    exact ⟨h, rfl⟩

theorem announced_ensure (c : LanguageCoordinator) (l : String) :
    Announced c (c.ensureLanguageStarted l) := by
  obtain ⟨-, h⟩ | ⟨-, h⟩ := ensure_cases c l
  · rw [h]
    exact announced_of_eq rfl rfl rfl rfl
  · rw [h]
    exact announced_discover c l fun _ hfound => hfound

/-- After effects that ask for no discovery. -/
theorem Announced.then {es : List LanguageEffect} (h : Announced c (c', es))
    (hes : es.filterMap LanguageEffect.discovery = []) (h' : Announced c' r) :
    Announced c (r.1, es ++ r.2) := by
  have hcalm : ∀ k, Calm c c' k := by
    obtain ⟨-, hcalm⟩ | ⟨l, hl, -⟩ := h.discovering
    · exact hcalm
    · rw [hes] at hl
      cases hl
  have htrans : ∀ k, Calm c' r.1 k → Calm c r.1 k := by
    intro k hk hd
    obtain ⟨hd', hg'⟩ := hk hd
    obtain ⟨hd'', hg''⟩ := hcalm k hd'
    exact ⟨hd'', hg'.trans hg''⟩
  refine ⟨h'.workspaceId.trans h.workspaceId, h'.approvals.trans h.approvals,
    fun k found hf => h.pending k found (h'.pending k found hf), ?_⟩
  dsimp only
  rw [List.filterMap_append, hes, List.nil_append]
  obtain ⟨hnone, hk⟩ | ⟨l, hone, hk⟩ := h'.discovering
  · exact .inl ⟨hnone, fun k => htrans k (hk k)⟩
  · refine .inr ⟨l, ?_, fun k hne => htrans k (hk k hne)⟩
    rw [hone, h.workspaceId]

theorem announced_openBinding (c : LanguageCoordinator) (id : DocumentId)
    (document : DocumentBinding) : Announced c (c.openBinding id document) := by
  have hdocument : Announced c (c.withDocument id document, []) := announced_of_eq rfl rfl rfl rfl
  obtain ⟨-, h⟩ | ⟨-, -, ⟨server, -, -, h⟩ | ⟨-, h⟩⟩ := openBinding_cases c id document
  · rw [h]
    exact hdocument
  · rw [h]
    exact announced_of_eq rfl rfl rfl rfl
  · rw [h]
    exact hdocument.then rfl (announced_ensure _ _)

theorem discovery_map {α : Type} {f : α → LanguageEffect} (h : ∀ a, (f a).discovery = none)
    (as : List α) : (as.map f).filterMap LanguageEffect.discovery = [] := by
  rw [List.filterMap_map, List.filterMap_eq_nil_iff]
  exact fun a _ => h a

end LanguageCoordinator

namespace LanguageCoordinator

variable {c : LanguageCoordinator} {l : String}

theorem announced_editDocument (c : LanguageCoordinator) (id : DocumentId) (revision : UInt64)
    (text : String) : Announced c (c.editDocument id revision text) := by
  unfold editDocument
  dsimp only
  cases (c.clearFeaturesFor id).documents.get? id with
  | none => exact announced_of_eq rfl rfl rfl rfl
  | some document => exact announced_of_eq rfl rfl rfl (discovery_map (fun _ => rfl) _)

theorem discovery_saveDocument (c : LanguageCoordinator) (id : DocumentId) :
    (c.saveDocument id).filterMap LanguageEffect.discovery = [] := by
  unfold saveDocument
  cases c.documents.get? id with
  | none => rfl
  | some document => exact discovery_map (fun _ => rfl) _

theorem closeDocument_quiet (c : LanguageCoordinator) (id : DocumentId) :
    Announced c (c.closeDocument id) ∧
      (c.closeDocument id).2.filterMap LanguageEffect.discovery = [] := by
  unfold closeDocument
  dsimp only
  cases (c.clearFeaturesFor id).documents.get? id with
  | none => exact ⟨announced_of_eq rfl rfl rfl rfl, rfl⟩
  | some document =>
    have hes := discovery_map (f := fun server : ServerBinding => LanguageEffect.close
      document.languageId server.generation id document.path) (fun _ => rfl)
    exact ⟨announced_of_eq rfl rfl rfl (hes _), hes _⟩

theorem announced_setOverride (env : LanguageEnv) (c : LanguageCoordinator) (id : DocumentId)
    (languageOverride : Option String) : Announced c (c.setOverride env id languageOverride) := by
  unfold setOverride
  cases c.documents.get? id with
  | none => exact announced_of_eq rfl rfl rfl rfl
  | some previous =>
    obtain ⟨hclose, hes⟩ := closeDocument_quiet c id
    exact hclose.then hes (announced_openBinding _ _ _)

theorem announced_retry (c : LanguageCoordinator) (l : String) : Announced c (c.retry l) := by
  obtain ⟨-, h⟩ | ⟨server, -, -, h⟩ := retry_cases c l
  · rw [h]
    exact announced_of_eq rfl rfl rfl rfl
  · rw [h]
    exact announced_discover c l nofun

theorem announced_disable (env : LanguageEnv) (c : LanguageCoordinator) (l : String) :
    Announced c ((c.disableLanguage env l).1, []) := by
  obtain ⟨-, h⟩ | ⟨selection, -, -, -, h⟩ := disableLanguage_cases env c l
  · rw [h]
    exact announced_of_eq rfl rfl rfl rfl
  · rw [h]
    exact announced_of_insert rfl rfl rfl nofun (fun _ hfound => hfound) rfl

theorem announced_enable (env : LanguageEnv) (c : LanguageCoordinator) (l : String) :
    Announced c (c.enableLanguage env l) := by
  obtain ⟨-, h⟩ | ⟨selection, -, -, ⟨-, h⟩ | ⟨-, h⟩⟩ := enableLanguage_cases env c l
  · rw [h]
    exact announced_of_eq rfl rfl rfl rfl
  · rw [h]
    exact announced_of_eq rfl rfl rfl rfl
  · have hstopped : Announced c (c.enabled l selection, []) :=
      announced_of_insert rfl rfl rfl nofun (fun _ hfound => hfound) rfl
    rw [h]
    split
    · exact hstopped.then rfl (announced_ensure _ _)
    · exact hstopped

theorem announced_restart (c : LanguageCoordinator) (l : String) :
    Announced c ((c.restartLanguage l).1, []) := by
  obtain h | ⟨server, hg, hready, -, h⟩ := restartLanguage_cases c l
  · rw [h]
    exact announced_of_eq rfl rfl rfl rfl
  · rw [h]
    refine announced_of_insert rfl rfl rfl ?_ (fun found hfound => ?_) rfl
    · dsimp only
      rw [hready]
      nofun
    · rwa [serverOrNew_of_get? hg]

theorem announced_markReady (c : LanguageCoordinator) (order : KeyOrder DocumentId) (l : String)
    (generation : UInt64) (positionEncoding : PositionEncoding) :
    Announced c (c.markReady order l generation positionEncoding) := by
  unfold markReady
  cases hf : (c.servers.get? l).filter fun server =>
      server.generation = generation && server.state = .starting with
  | none => exact announced_of_eq rfl rfl rfl rfl
  | some server =>
    obtain ⟨hg, -⟩ := get?_filter_eq_some.mp hf
    refine announced_of_insert rfl rfl rfl nofun (fun found hfound => ?_) ?_
    · rwa [serverOrNew_of_get? hg]
    · rw [List.filterMap_filterMap, List.filterMap_eq_nil_iff]
      intro id _
      rw [Option.bind_eq_none_iff]
      intro e he
      obtain ⟨document, -, rfl⟩ := Option.map_eq_some_iff.mp he
      rfl

theorem announced_failWithMessage (c : LanguageCoordinator) (l : String) (generation : UInt64)
    (message : String) : Announced c (c.failWithMessage l generation message, []) := by
  obtain ⟨-, h⟩ | ⟨server, hg, -, h⟩ := failWithMessage_cases c l generation message
  · rw [h]
    exact announced_of_eq rfl rfl rfl rfl
  · rw [h]
    refine announced_of_insert rfl rfl rfl nofun (fun found hfound => ?_) rfl
    rwa [serverOrNew_of_get? hg]

theorem announced_markStopped (c : LanguageCoordinator) (l : String) (generation : UInt64) :
    Announced c (c.markStopped l generation) := by
  obtain ⟨-, h⟩ | ⟨server, hg, -, h⟩ := markStopped_cases c l generation
  · rw [h]
    exact announced_of_eq rfl rfl rfl rfl
  · have hstopped : Announced c (c.stopped l server, []) := by
      refine announced_of_insert rfl rfl rfl ?_ (fun found hfound => ?_) rfl
      · dsimp only
        split <;> nofun
      · rwa [serverOrNew_of_get? hg]
    rw [h]
    split
    · exact hstopped.then rfl (announced_ensure _ _)
    · exact hstopped

theorem announced_publish (c : LanguageCoordinator) (order : KeyOrder DocumentId) (l : String)
    (generation : UInt64) (path : PathBuf) (version : Option UInt64)
    (diagnostics : List PublishedDiagnostic) :
    Announced c (c.publishDiagnostics order l generation path version diagnostics, []) := by
  unfold publishDiagnostics
  split
  · exact announced_of_eq rfl rfl rfl rfl
  · split
    · exact announced_of_eq rfl rfl rfl rfl
    · split
      · exact announced_of_eq rfl rfl rfl rfl
      · dsimp only
        split <;> exact announced_of_eq rfl rfl rfl rfl

theorem announced_acceptFeature (c : LanguageCoordinator) (generation : UInt64)
    (request : FeatureRequest) (result : FeatureResult) :
    Announced c (c.acceptFeatureResponse generation request result, []) := by
  unfold acceptFeatureResponse
  split
  · exact announced_of_eq rfl rfl rfl rfl
  · dsimp only
    split
    · exact announced_of_eq rfl rfl rfl rfl
    · split
      · exact announced_of_eq rfl rfl rfl rfl
      · split <;> exact announced_of_eq rfl rfl rfl rfl

end LanguageCoordinator

namespace CoordinatorOp

open LanguageCoordinator

/-- The operation answers a discovery or an approval. -/
def Answers : CoordinatorOp → Prop
  | .discovered .. | .approve _ | .deny _ => True
  | _ => False

theorem announced_run (env : LanguageEnv) (c : LanguageCoordinator) (op : CoordinatorOp)
    (h : ¬op.Answers) : Announced c (op.run env c) := by
  cases op with
  | openDocument id path languageOverride revision text => exact announced_openBinding c id _
  | editDocument id revision text => exact announced_editDocument c id revision text
  | saveDocument id => exact announced_of_eq rfl rfl rfl (discovery_saveDocument c id)
  | closeDocument id => exact (closeDocument_quiet c id).1
  | setOverride id languageOverride => exact announced_setOverride env c id languageOverride
  | discovered | approve | deny => exact absurd trivial h
  | retry l => exact announced_retry c l
  | disableLanguage l => exact announced_disable env c l
  | enableLanguage l => exact announced_enable env c l
  | restartLanguage l => exact announced_restart c l
  | markReady order l generation positionEncoding =>
    exact announced_markReady c order l generation positionEncoding
  | markStopped l generation => exact announced_markStopped c l generation
  | failWithMessage l generation message => exact announced_failWithMessage c l generation message
  | publishDiagnostics order l generation path version diagnostics =>
    exact announced_publish c order l generation path version diagnostics
  | acceptFeatureResponse generation request result =>
    exact announced_acceptFeature c generation request result
  | beginFeature | expireFeature | dismissFeatures | setProblemFilter | toggleProblems =>
    exact announced_of_eq rfl rfl rfl rfl

end CoordinatorOp

end Strukt.App
