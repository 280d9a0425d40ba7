import Strukt.App.CoordinatorSpec

/-!
# Where diagnostics come from

A stored set of diagnostics belongs to an open, eligible document of the set's language, and comes
from the present generation of that language's server, which is ready.

* **What drops diagnostics**: closing, overriding, disabling, a failure and a stop each drop their
  sets; everything else that moves a server acts on one that is not ready (`ready_kept`).
* **What does not**: `enableLanguage` stops a ready server (`enabled_twice`), and `openDocument`
  replaces the binding of a document that is open; both leave its sets.
* `provenance_law`: these two are all that goes wrong.
-/

namespace Strukt.App

open Strukt.Language LanguageCoordinator

namespace LanguageCoordinator

/-- The diagnostics of `id` belong to its document and to the ready server of its language. -/
structure Belongs (c : LanguageCoordinator) (id : DocumentId) (set : DiagnosticSet) : Prop where
  document : ∃ document, c.documents.get? id = some document ∧ document.eligible = true ∧
    document.languageId = set.languageId
  server : ∃ server, c.servers.get? set.languageId = some server ∧ server.state = .ready ∧
    server.generation = set.generation

def Provenance (c : LanguageCoordinator) : Prop :=
  ∀ id set, c.diagnostics.get? id = some set → c.Belongs id set

/-! ## What an operation keeps -/

section Keeps

variable {env : LanguageEnv} {c c' : LanguageCoordinator} {id : DocumentId} {set : DiagnosticSet}
  {k l : String} {server : ServerBinding}

theorem get?_retainDiagnostics {p : DiagnosticSet → Bool} :
    (c.retainDiagnostics p).get? id = some set ↔
      c.diagnostics.get? id = some set ∧ p set = true := by
  rw [SortedMap.get?_eq_some, SortedMap.get?_eq_some]
  exact List.mem_filter

theorem Belongs.of_same (h : c.Belongs id set)
    (hdoc : c'.documents.get? id = c.documents.get? id)
    (hserv : c'.servers.get? set.languageId = c.servers.get? set.languageId) :
    c'.Belongs id set := by
  obtain ⟨⟨document, hd⟩, server, hs⟩ := h
  exact ⟨⟨document, hdoc ▸ hd⟩, server, hserv ▸ hs⟩

theorem kept_ensure (hg : c.servers.get? k = some server) (hr : server.state = .ready) :
    (c.ensureLanguageStarted l).1.servers.get? k = some server := by
  by_cases hkl : k = l
  · subst hkl
    obtain ⟨-, h⟩ | ⟨hcan, -⟩ := ensure_cases c k
    · rw [h]; exact hg
    · rw [serverOrNew_of_get? hg, hr] at hcan
      cases hcan
  · rw [(same_ensure (Ne.symm hkl)).server]
    exact hg

theorem kept_openBinding {document : DocumentBinding} (hg : c.servers.get? k = some server)
    (hr : server.state = .ready) :
    (c.openBinding id document).1.servers.get? k = some server := by
  obtain ⟨-, h⟩ | ⟨-, -, ⟨server', -, -, h⟩ | ⟨-, h⟩⟩ := openBinding_cases c id document
  · rw [h]; exact hg
  · rw [h]; exact hg
  · rw [h]; exact kept_ensure hg hr

theorem kept_insert {server' moved : ServerBinding} (hg : c.servers.get? k = some server)
    (hr : server.state = .ready) (hl : c.servers.get? l = some server')
    (hst : server'.state ≠ .ready) (hserv : c'.servers = c.servers.insert l moved) :
    c'.servers.get? k = some server := by
  have hkl : k ≠ l := by
    rintro rfl
    obtain rfl := Option.some.inj (hg.symm.trans hl)
    exact hst hr
  rw [hserv, SortedMap.get?_insert, if_neg hkl]
  exact hg

/-- The sets are those of before, and so are the document and the ready server of each. -/
theorem provenance_of_kept (h : c.Provenance) (hdiag : c'.diagnostics = c.diagnostics)
    (hdoc : c'.documents = c.documents)
    (hserv : ∀ k server, c.servers.get? k = some server → server.state = .ready →
      c'.servers.get? k = some server) : c'.Provenance := by
  intro id set hset
  rw [hdiag] at hset
  obtain ⟨⟨document, hd⟩, server, hg, hr, hgen⟩ := h id set hset
  exact ⟨⟨document, hdoc ▸ hd⟩, server, hserv _ _ hg hr, hr, hgen⟩

theorem provenance_close (h : c.Provenance) (id : DocumentId) :
    (c.closeDocument id).1.Provenance := by
  obtain ⟨hdoc, hdiag, hserv, -⟩ := closeDocument_fields c id
  intro j set hset
  rw [hdiag, SortedMap.get?_remove] at hset
  by_cases hj : j = id
  · rw [if_pos hj] at hset
    cases hset
  · rw [if_neg hj] at hset
    refine (h j set hset).of_same ?_ (by rw [hserv])
    rw [hdoc, SortedMap.get?_remove, if_neg hj]

/-- A document is opened; a set that it has must be of the document as it is opened. -/
theorem provenance_open_iff (h : c.Provenance) (id : DocumentId) (document : DocumentBinding) :
    (c.openBinding id document).1.Provenance ↔
      ∀ set, c.diagnostics.get? id = some set →
        document.eligible = true ∧ document.languageId = set.languageId := by
  have hrest := rest_openBinding c id document
  have hdoc : (c.openBinding id document).1.documents = c.documents.insert id document :=
    hrest.documents
  have hdiag : (c.openBinding id document).1.diagnostics = c.diagnostics := hrest.diagnostics
  constructor
  · intro hp set hset
    obtain ⟨⟨document', hd, he, hl⟩, -⟩ := hp id set (by rw [hdiag]; exact hset)
    rw [hdoc, SortedMap.get?_insert, if_pos rfl] at hd
    cases hd
    exact ⟨he, hl⟩
  · intro hcond j set hset
    rw [hdiag] at hset
    obtain ⟨⟨document', hd⟩, server, hg, hr, hgen⟩ := h j set hset
    refine ⟨?_, server, kept_openBinding hg hr, hr, hgen⟩
    rw [hdoc, SortedMap.get?_insert]
    by_cases hj : j = id
    · subst hj
      rw [if_pos rfl]
      exact ⟨document, rfl, hcond set hset⟩
    · rw [if_neg hj]
      exact ⟨document', hd⟩

theorem provenance_edit (h : c.Provenance) (id : DocumentId) (revision : UInt64) (text : String) :
    (c.editDocument id revision text).1.Provenance := by
  obtain ⟨hdiag, hserv, -⟩ := editDocument_fields c id revision text
  intro j set hset
  rw [hdiag] at hset
  obtain ⟨⟨document, hd, he, hl⟩, hs⟩ := h j set hset
  refine ⟨?_, by rw [hserv]; exact hs⟩
  rw [documents_editDocument]
  by_cases hj : j = id
  · subst hj
    rw [if_pos rfl, hd]
    exact ⟨_, rfl, he, hl⟩
  · rw [if_neg hj]
    exact ⟨document, hd, he, hl⟩

/-- The end of a generation drops the sets of that generation, and moves that server only. -/
theorem provenance_ended (h : c.Provenance) {moved : ServerBinding}
    (hg : c.servers.get? l = some server)
    (hdoc : c'.documents = c.documents) (hserv : c'.servers = c.servers.insert l moved)
    (hdiag : c'.diagnostics = c.retainDiagnostics fun set =>
      set.languageId ≠ l || set.generation ≠ server.generation) : c'.Provenance := by
  intro id set hset
  rw [hdiag, get?_retainDiagnostics] at hset
  obtain ⟨hset, hkeep⟩ := hset
  have hb := h id set hset
  have hne : set.languageId ≠ l := by
    rintro rfl
    obtain ⟨server', hg', -, hgen⟩ := hb.server
    obtain rfl := Option.some.inj (hg.symm.trans hg')
    simp [hgen] at hkeep
  refine hb.of_same (by rw [hdoc]) ?_
  rw [hserv, SortedMap.get?_insert, if_neg hne]

theorem provenance_ensure (h : c.Provenance) (l : String) :
    (c.ensureLanguageStarted l).1.Provenance := by
  have hrest := rest_ensure c l
  exact provenance_of_kept h hrest.diagnostics hrest.documents fun k server hg hr =>
    kept_ensure hg hr

theorem provenance_markStopped (h : c.Provenance) (l : String) (generation : UInt64) :
    (c.markStopped l generation).1.Provenance := by
  obtain ⟨-, hc⟩ | ⟨server, hg, -, hc⟩ := markStopped_cases c l generation
  · rw [hc]; exact h
  · have hstopped : (c.stopped l server).Provenance := provenance_ended h hg rfl rfl rfl
    rw [hc]
    by_cases hd : (c.selectionEnabled l && c.hasDocument l) = true
    · rw [if_pos hd]
      exact provenance_ensure hstopped l
    · rw [if_neg hd]
      exact hstopped

theorem provenance_fail (h : c.Provenance) (l : String) (generation : UInt64) (message : String) :
    (c.failWithMessage l generation message).Provenance := by
  obtain ⟨-, hc⟩ | ⟨server, hg, rfl, hc⟩ := failWithMessage_cases c l generation message
  · rw [hc]; exact h
  · rw [hc]
    exact provenance_ended h hg rfl rfl rfl

theorem provenance_disable (h : c.Provenance) (l : String) :
    (c.disableLanguage env l).1.Provenance := by
  obtain ⟨-, hc⟩ | ⟨selection, -, -, -, hc⟩ := disableLanguage_cases env c l
  · rw [hc]; exact h
  · rw [hc]
    intro id set hset
    obtain ⟨hset, hkeep⟩ := get?_retainDiagnostics.mp hset
    refine (h id set hset).of_same rfl ?_
    exact get?_setServer.trans (if_neg (of_decide_eq_true hkeep))

/-- A language is enabled: its server stops, so that no set of it may be stored. -/
theorem provenance_enable_iff (h : c.Provenance) (l : String) :
    (c.enableLanguage env l).1.Provenance ↔
      ((c.selectionOf env l true).isSome → (c.serverOrNew l).shutdownPending = false →
        ∀ id set, c.diagnostics.get? id = some set → set.languageId ≠ l) := by
  obtain ⟨hnone, hc⟩ | ⟨selection, hsel, -, ⟨hp, hc⟩ | ⟨hp, hc⟩⟩ := enableLanguage_cases env c l
  · rw [hc, hnone]
    exact iff_of_true h (by simp)
  · rw [hc, hp]
    exact iff_of_true (fun id set hset => (h id set hset).of_same rfl rfl) (by simp)
  · have hget : (c.enabled l selection).servers.get? l =
        some { c.serverOrNew l with state := .stopped } := get?_setServer.trans (if_pos rfl)
    have hstate : ∀ server, (c.enableLanguage env l).1.servers.get? l = some server →
        server.state ≠ .ready := by
      intro server hg
      rw [hc] at hg
      by_cases hd : c.hasDocument l = true
      · rw [if_pos hd] at hg
        obtain ⟨-, he⟩ | ⟨-, he⟩ := ensure_cases (c.enabled l selection) l
        · rw [he, hget] at hg
          cases hg
          simp
        · rw [he, server_discover, if_pos rfl] at hg
          cases hg
          simp [next]
      · rw [if_neg hd, hget] at hg
        cases hg
        simp
    have hdiag : (c.enableLanguage env l).1.diagnostics = c.diagnostics := by
      rw [hc]
      by_cases hd : c.hasDocument l = true
      · rw [if_pos hd]
        exact (rest_ensure _ l).diagnostics
      · rw [if_neg hd]
        rfl
    have hdoc : (c.enableLanguage env l).1.documents = c.documents := by
      rw [hc]
      by_cases hd : c.hasDocument l = true
      · rw [if_pos hd]
        exact (rest_ensure _ l).documents
      · rw [if_neg hd]
        rfl
    constructor
    · intro hprov _ _ id set hset he
      obtain ⟨server, hg, hr, -⟩ := (hprov id set (by rw [hdiag]; exact hset)).server
      rw [he] at hg
      exact hstate server hg hr
    · intro hcond id set hset
      rw [hdiag] at hset
      have hne := hcond (by rw [hsel]; rfl) hp id set hset
      refine (h id set hset).of_same (by rw [hdoc]) (same_enable (Ne.symm hne)).server

theorem provenance_publish (h : c.Provenance) (order : KeyOrder DocumentId) (l : String)
    (generation : UInt64) (path : PathBuf) (version : Option UInt64)
    (diagnostics : List PublishedDiagnostic) :
    (c.publishDiagnostics order l generation path version diagnostics).Provenance := by
  unfold publishDiagnostics
  cases hf : (c.servers.get? l).filter fun server =>
      server.generation = generation && server.state = .ready with
  | none => exact h
  | some server =>
    obtain ⟨hg, hp⟩ := get?_filter_eq_some.mp hf
    simp only [Bool.and_eq_true, decide_eq_true_eq] at hp
    dsimp only
    cases hat : c.documentAt order l path with
    | none => exact h
    | some documentId =>
      dsimp only
      split
      · exact h
      · split
        · -- The sets of the document are dropped.
          intro id set hset
          dsimp only at hset
          rw [SortedMap.get?_remove] at hset
          split at hset
          · cases hset
          · exact (h id set hset).of_same rfl rfl
        · intro id set hset
          dsimp only at hset
          rw [SortedMap.get?_insert] at hset
          split at hset
          · next hid =>
            cases hset
            have hfound := List.find?_some hat
            obtain ⟨document, hd, hel⟩ := (Option.any_eq_true _ _).mp hfound
            simp only [Bool.and_eq_true, decide_eq_true_eq] at hel
            exact ⟨⟨document, by rw [hid]; exact hd, hel.1.1, hel.1.2⟩, server, hg, hp.2, hp.1⟩
          · exact (h id set hset).of_same rfl rfl

/-- A server that is not ready is moved. -/
theorem provenance_moved (h : c.Provenance) {moved : ServerBinding}
    (hg : c.servers.get? l = some server) (hst : server.state ≠ .ready)
    (hrest : Rest c c') (hserv : c'.servers = c.servers.insert l moved) : c'.Provenance :=
  provenance_of_kept h hrest.diagnostics hrest.documents fun _ _ hk hr =>
    kept_insert hk hr hg hst hserv

theorem provenance_accept (h : c.Provenance) (generation : UInt64) (request : FeatureRequest)
    (result : FeatureResult) : (c.acceptFeatureResponse generation request result).Provenance := by
  have hsame := same_acceptFeature c generation request result
  have hrest := rest_acceptFeature c generation request result
  exact provenance_of_kept h hrest.diagnostics hrest.documents fun k server hg _ => by
    rw [(hsame k).server]; exact hg

end Keeps

end LanguageCoordinator

/-! ## Steps and runs -/

namespace CoordinatorOp

/-- The coordinator alone takes every operation. -/
def step (env : LanguageEnv) (c : LanguageCoordinator) (op : CoordinatorOp) :
    Option LanguageCoordinator :=
  some (op.run env c).1

/-- A document that is open is opened again only as what its diagnostics are of, and a language is
enabled only without diagnostics, unless its shutdown is pending. -/
def KeepsProvenance (env : LanguageEnv) (c : LanguageCoordinator) : CoordinatorOp → Prop
  | .openDocument id path languageOverride revision text =>
    ∀ set, c.diagnostics.get? id = some set →
      (binding env path languageOverride revision text).eligible = true ∧
        detectLanguage env path languageOverride = set.languageId
  | .enableLanguage l =>
    (c.selectionOf env l true).isSome → (c.serverOrNew l).shutdownPending = false →
      ∀ id set, c.diagnostics.get? id = some set → set.languageId ≠ l
  | _ => True

section Step

variable {env : LanguageEnv} {c : LanguageCoordinator}

theorem provenance_run_iff (h : c.Provenance) (op : CoordinatorOp) :
    (op.run env c).1.Provenance ↔ KeepsProvenance env c op := by
  cases op with
  | openDocument id path languageOverride revision text =>
    exact provenance_open_iff h id (binding env path languageOverride revision text)
  | enableLanguage l => exact provenance_enable_iff h l
  | editDocument id revision text => exact iff_of_true (provenance_edit h id revision text) trivial
  | closeDocument id => exact iff_of_true (provenance_close h id) trivial
  | setOverride id languageOverride =>
    refine iff_of_true ?_ trivial
    change (c.setOverride env id languageOverride).1.Provenance
    unfold LanguageCoordinator.setOverride
    cases hd : c.documents.get? id with
    | none => exact h
    | some previous =>
      -- After the close the document has no diagnostics.
      refine (provenance_open_iff (provenance_close h id) id _).mpr fun set hset => ?_
      rw [(closeDocument_fields c id).2.1, SortedMap.get?_remove, if_pos rfl] at hset
      cases hset
  | discovered workspaceId l generation result =>
    refine iff_of_true ?_ trivial
    change (c.discovered workspaceId l generation result).Provenance
    obtain hc | ⟨server, pendingApproval, hg, -, hst, hc⟩ :=
      discovered_cases c workspaceId l generation result
    · rw [hc]; exact h
    · rw [hc]
      exact provenance_moved h hg (by rw [hst]; decide) ⟨rfl, rfl, rfl⟩ rfl
  | approve l =>
    refine iff_of_true ?_ trivial
    change (c.approve l).1.Provenance
    obtain hc | ⟨server, state, hg, hst, -, hrest, hserv⟩ := approve_cases c l
    · rw [hc]; exact h
    · exact provenance_moved h hg (by rw [hst]; decide) hrest hserv
  | deny l =>
    refine iff_of_true ?_ trivial
    change (c.deny l).Provenance
    obtain hc | ⟨server, hg, hst, hrest, hserv⟩ := deny_cases c l
    · rw [hc]; exact h
    · exact provenance_moved h hg (by rw [hst]; decide) hrest hserv
  | retry l =>
    refine iff_of_true ?_ trivial
    change (c.retry l).1.Provenance
    obtain ⟨-, hc⟩ | ⟨server, hg, hcan, hc⟩ := retry_cases c l
    · rw [hc]; exact h
    · rw [hc]
      refine provenance_moved h hg (fun hr => ?_) ⟨rfl, rfl, rfl⟩ rfl
      rw [hr] at hcan
      cases hcan
  | markReady order l generation positionEncoding =>
    refine iff_of_true ?_ trivial
    change (c.markReady order l generation positionEncoding).1.Provenance
    obtain hc | ⟨server, hg, -, hst, hc⟩ := markReady_cases c order l generation positionEncoding
    · rw [hc]; exact h
    · rw [hc]
      exact provenance_moved h hg (by rw [hst]; decide) ⟨rfl, rfl, rfl⟩ rfl
  | restartLanguage l =>
    refine iff_of_true ?_ trivial
    change (c.restartLanguage l).1.Provenance
    obtain hc | ⟨server, hg, hst, -, hc⟩ := restartLanguage_cases c l
    · rw [hc]; exact h
    · -- The server stays ready in its generation.
      rw [hc]
      intro id set hset
      obtain ⟨hdoc, server', hg', hr, hgen⟩ := h id set hset
      refine ⟨hdoc, ?_⟩
      rw [get?_setServer]
      by_cases hl : set.languageId = l
      · rw [if_pos hl]
        rw [hl, hg] at hg'
        cases hg'
        exact ⟨_, rfl, hst, hgen⟩
      · rw [if_neg hl]
        exact ⟨server', hg', hr, hgen⟩
  | markStopped l generation => exact iff_of_true (provenance_markStopped h l generation) trivial
  | failWithMessage l generation message =>
    exact iff_of_true (provenance_fail h l generation message) trivial
  | disableLanguage l => exact iff_of_true (provenance_disable h l) trivial
  | publishDiagnostics order l generation path version diagnostics =>
    exact iff_of_true (provenance_publish h order l generation path version diagnostics) trivial
  | acceptFeatureResponse generation request result =>
    exact iff_of_true (provenance_accept h generation request result) trivial
  | saveDocument _ | beginFeature _ _ _ | expireFeature _ | dismissFeatures | setProblemFilter _
  | toggleProblems =>
    exact iff_of_true (fun id set hset => (h id set hset).of_same rfl rfl) trivial

theorem provenance_restore (workspaceId : String) (restored : RestoredLanguageSession) :
    (restore workspaceId restored).Provenance := by
  intro id set hset
  cases hset

end Step

/-- From any restored session, under any operations and events in any order, each stored set of
diagnostics is of an open, eligible document of its language and of the present generation of the
ready server, exactly where no document with diagnostics is opened as another and no language with
diagnostics is enabled. -/
theorem provenance_law (env : LanguageEnv) (workspaceId : String)
    (restored : RestoredLanguageSession) (ops : List CoordinatorOp) :
    RunsIn (step env) Provenance ops (restore workspaceId restored) ↔
      Along (step env) (KeepsProvenance env) ops (restore workspaceId restored) := by
  refine runsIn_iff (fun c op h => ?_) (provenance_restore workspaceId restored)
  rw [← provenance_run_iff h op]
  exact ⟨fun ⟨c', hc', hp⟩ => Option.some.inj hc' ▸ hp, fun hp => ⟨_, rfl, hp⟩⟩

/-- A server is ready and has published an error; then its language is enabled once more. -/
def enabledTwice : List CoordinatorOp :=
  [.openDocument ⟨1⟩ ⟨[97]⟩ none 0 (some ""), .discovered "w" "rust" 1 .available,
    .markReady (.sorted DocumentId) "rust" 1 .utf16,
    .publishDiagnostics (.sorted DocumentId) "rust" 1 ⟨[97]⟩ none [⟨0, 0, .error, "", none⟩],
    .enableLanguage "rust"]

/-- The set of the old generation stays while the next one is discovered. -/
theorem enabled_twice :
    ¬ ∀ (env : LanguageEnv) (workspaceId : String) (restored : RestoredLanguageSession)
      (ops : List CoordinatorOp),
      RunsIn (step env) Provenance ops (restore workspaceId restored) := by
  intro h
  let env : LanguageEnv := ⟨fun _ => "rust", fun _ => some "rust-analyzer"⟩
  have hrun : (enabledTwice.foldlM (step env) (restore "w" ⟨[], [], false⟩)).any fun c =>
      (c.diagnostics.get? ⟨1⟩).any (·.languageId = "rust") &&
        (c.servers.get? "rust").any (·.state = .discovering) := by
    decide
  obtain ⟨c, hr, hc⟩ := (Option.any_eq_true _ _).mp hrun
  obtain ⟨hset, hstate⟩ := Bool.and_eq_true_iff.mp hc
  obtain ⟨set, hget, hl⟩ := (Option.any_eq_true _ _).mp hset
  obtain ⟨server, hg, hd⟩ := (Option.any_eq_true _ _).mp hstate
  obtain ⟨server', hg', hready, -⟩ :=
    ((h env "w" ⟨[], [], false⟩ enabledTwice).last hr ⟨1⟩ set hget).server
  rw [of_decide_eq_true hl, hg] at hg'
  cases hg'
  rw [of_decide_eq_true hd] at hready
  cases hready

end CoordinatorOp

end Strukt.App
