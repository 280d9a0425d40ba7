import Strukt.App.Coordinator

/-!
# What the coordinator's operations leave

For each operation: the servers, selections, documents and diagnostics after it.

* **One language** (`run_of_ne`): an operation changes the server and the selection of at most one
  language.
* **One server**: `server_ensure`, `server_openBinding`, `server_enable` and the like say what that
  server is afterwards.
-/

namespace Strukt.App

open Strukt.Language

namespace LanguageCoordinator

variable {env : LanguageEnv} {c : LanguageCoordinator} {k l : String} {id : DocumentId}

variable {server : ServerBinding}

@[simp] theorem get?_setServer :
    (c.setServer l server).servers.get? k = if k = l then some server else c.servers.get? k :=
  SortedMap.get?_insert

theorem get?_filter_eq_some {p : ServerBinding → Bool} :
    (c.servers.get? l).filter p = some server ↔
      c.servers.get? l = some server ∧ p server = true := by
  rw [Option.filter_eq_some_iff]

theorem serverOrNew_of_get? (h : c.servers.get? l = some server) :
    c.serverOrNew l = server := by
  unfold serverOrNew
  rw [h, Option.getD_some]

/-! ## Starting a server -/

/-- The server of the next generation. -/
def next (server : ServerBinding) : ServerBinding :=
  { server with generation := server.generation + 1, state := .discovering }

theorem server_discover :
    (c.discover l server).1.servers.get? k =
      if k = l then some (next server) else c.servers.get? k :=
  get?_setServer

theorem ensure_cases (c : LanguageCoordinator) (l : String) :
    (canStart (c.serverOrNew l).state = false ∧ c.ensureLanguageStarted l = (c, [])) ∨
      (canStart (c.serverOrNew l).state = true ∧
        c.ensureLanguageStarted l = c.discover l (c.serverOrNew l)) := by
  have hdef : c.ensureLanguageStarted l =
      if canStart (c.serverOrNew l).state then c.discover l (c.serverOrNew l) else (c, []) := rfl
  cases hs : canStart (c.serverOrNew l).state with
  | true => exact .inr ⟨rfl, hdef.trans (if_pos hs)⟩
  | false => exact .inl ⟨rfl, hdef.trans (if_neg (by simp [hs]))⟩

/-- The documents, the diagnostics and the selections are those of before. -/
structure Rest (c c' : LanguageCoordinator) : Prop where
  documents : c'.documents = c.documents
  diagnostics : c'.diagnostics = c.diagnostics
  selections : c'.selections = c.selections

theorem Rest.refl (c : LanguageCoordinator) : Rest c c := ⟨rfl, rfl, rfl⟩

theorem rest_ensure (c : LanguageCoordinator) (l : String) :
    Rest c (c.ensureLanguageStarted l).1 := by
  obtain ⟨-, h⟩ | ⟨-, h⟩ := ensure_cases c l
  · rw [h]; exact .refl c
  · rw [h]; exact ⟨rfl, rfl, rfl⟩

/-! ## Documents -/

section Documents

variable {document : DocumentBinding}

def withDocument (c : LanguageCoordinator) (id : DocumentId) (document : DocumentBinding) :
    LanguageCoordinator :=
  { c with documents := c.documents.insert id document }

/-- A document is opened without an effect, at its ready server, or with the start of a server. -/
theorem openBinding_cases (c : LanguageCoordinator) (id : DocumentId) (document : DocumentBinding) :
    ((document.eligible = false ∨ c.selectionEnabled document.languageId = false) ∧
        c.openBinding id document = (c.withDocument id document, [])) ∨
      document.eligible = true ∧ c.selectionEnabled document.languageId = true ∧
        ((∃ server, c.servers.get? document.languageId = some server ∧ server.state = .ready ∧
            c.openBinding id document =
              (c.withDocument id document,
                [.open document.languageId server.generation id document.path document.revision
                  document.text])) ∨
          ((∀ server, c.servers.get? document.languageId = some server → server.state ≠ .ready) ∧
            c.openBinding id document =
              (c.withDocument id document).ensureLanguageStarted document.languageId)) := by
  by_cases hskip : document.eligible = false ∨ c.selectionEnabled document.languageId = false
  · have hopen : c.openBinding id document = (c.withDocument id document, []) := if_pos hskip
    exact .inl ⟨hskip, hopen⟩
  · obtain ⟨he, hs⟩ := not_or.mp hskip
    refine .inr ⟨by simpa using he, by simpa using hs, ?_⟩
    have hstart : ¬(document.eligible = false ∨
        (c.withDocument id document).selectionEnabled document.languageId = false) := hskip
    unfold openBinding
    cases hf : (c.servers.get? document.languageId).filter (·.state = .ready) with
    | some server =>
      obtain ⟨hg, hr⟩ := get?_filter_eq_some.mp hf
      refine .inl ⟨server, hg, of_decide_eq_true hr, ?_⟩
      exact (if_neg hstart).trans (by rw [hf]; rfl)
    | none =>
      refine .inr ⟨fun server hg hr => ?_, (if_neg hstart).trans (by rw [hf]; rfl)⟩
      rw [hg, Option.filter_some, hr] at hf
      simp at hf

theorem rest_openBinding (c : LanguageCoordinator) (id : DocumentId) (document : DocumentBinding) :
    Rest (c.withDocument id document) (c.openBinding id document).1 := by
  obtain ⟨-, h⟩ | ⟨-, -, ⟨server, -, -, h⟩ | ⟨-, h⟩⟩ := openBinding_cases c id document
  · rw [h]; exact .refl _
  · rw [h]; exact .refl _
  · rw [h]; exact rest_ensure _ _

theorem closeDocument_fields (c : LanguageCoordinator) (id : DocumentId) :
    (c.closeDocument id).1.documents = c.documents.remove id ∧
      (c.closeDocument id).1.diagnostics = c.diagnostics.remove id ∧
        (c.closeDocument id).1.servers = c.servers ∧
          (c.closeDocument id).1.selections = c.selections := by
  cases h : c.documents.get? id with
  | some document =>
    simp only [closeDocument, clearFeaturesFor, h, and_self]
  | none =>
    simp only [closeDocument, clearFeaturesFor, h, and_self, and_true]
    refine SortedMap.ext_get? fun j => ?_
    rw [SortedMap.get?_remove]
    by_cases hj : j = id
    · rw [if_pos hj, hj]
      exact h
    · rw [if_neg hj]

theorem editDocument_fields (c : LanguageCoordinator) (id : DocumentId) (revision : UInt64)
    (text : String) :
    (c.editDocument id revision text).1.diagnostics = c.diagnostics ∧
      (c.editDocument id revision text).1.servers = c.servers ∧
        (c.editDocument id revision text).1.selections = c.selections := by
  cases h : c.documents.get? id with
  | some document =>
    simp only [editDocument, clearFeaturesFor, h, and_self]
  | none =>
    simp only [editDocument, clearFeaturesFor, h, and_self]

theorem documents_editDocument {revision : UInt64} {text : String} {j : DocumentId} :
    (c.editDocument id revision text).1.documents.get? j =
      if j = id then (c.documents.get? id).map fun document => { document with revision, text }
      else c.documents.get? j := by
  cases h : c.documents.get? id with
  | some document =>
    simp only [editDocument, clearFeaturesFor, h, Option.map_some, SortedMap.get?_insert]
    by_cases hj : j = id
    · rw [if_pos hj, if_pos hj]
    · rw [if_neg hj, if_neg hj]
  | none =>
    simp only [editDocument, clearFeaturesFor, h]
    by_cases hj : j = id
    · rw [if_pos hj, hj]
      exact h
    · rw [if_neg hj]

end Documents

/-! ## Discovery and approval -/

section Discovery

theorem discovering_eq_some {workspaceId : String} {generation : UInt64} {server : ServerBinding}
    (h : c.discovering workspaceId l generation = some server) :
    c.servers.get? l = some server ∧ server.generation = generation ∧
      server.state = .discovering := by
  obtain ⟨hg, hp⟩ := get?_filter_eq_some.mp h
  simp only [Bool.and_eq_true, decide_eq_true_eq] at hp
  exact ⟨hg, hp.1.2, hp.2⟩

/-- The state after a discovery. -/
def DiscoveryResult.state : DiscoveryResult → LanguageState
  | .available => .starting
  | .approvalRequired _ => .approvalRequired
  | .unavailable => .unavailable
  | .disabled => .disabled
  | .error => .failed

theorem DiscoveryResult.state_ne (result : DiscoveryResult) :
    DiscoveryResult.state result ≠ .discovering := by
  cases result <;> nofun

theorem discovered_none {workspaceId : String} {generation : UInt64}
    (h : c.discovering workspaceId l generation = none) (result : DiscoveryResult) :
    c.discovered workspaceId l generation result = c := by
  cases result <;>
    simp only [discovered, discoveryAvailable, discoveryRequiresApproval, discoveryFinished, h]

/-- A server that is being discovered is moved on, and waits at most for what was found. -/
theorem discovered_some {workspaceId : String} {generation : UInt64} {server : ServerBinding}
    (h : c.discovering workspaceId l generation = some server) (result : DiscoveryResult) :
    ∃ pendingApproval,
      c.discovered workspaceId l generation result =
          c.setServer l { server with state := DiscoveryResult.state result, pendingApproval } ∧
        ∀ found, pendingApproval = some found →
          server.pendingApproval = some found ∨ result = .approvalRequired found := by
  cases result with
  | available =>
    refine ⟨server.pendingApproval, ?_, fun found hfound => .inl hfound⟩
    simp only [discovered, discoveryAvailable, h]
    rfl
  | approvalRequired found =>
    refine ⟨some found, ?_, fun found' hfound => .inr (by rw [Option.some.inj hfound])⟩
    simp only [discovered, discoveryRequiresApproval, h]
    rfl
  | unavailable | disabled | error =>
    refine ⟨none, ?_, nofun⟩
    simp only [discovered, discoveryFinished, h]
    rfl

/-- A discovery result is ignored, or moves the server that is being discovered on. -/
theorem discovered_cases (c : LanguageCoordinator) (workspaceId l : String) (generation : UInt64)
    (result : DiscoveryResult) :
    c.discovered workspaceId l generation result = c ∨
      ∃ server pendingApproval,
        c.servers.get? l = some server ∧ server.generation = generation ∧
          server.state = .discovering ∧
            c.discovered workspaceId l generation result =
              c.setServer l
                { server with state := DiscoveryResult.state result, pendingApproval } := by
  cases hd : c.discovering workspaceId l generation with
  | none => exact .inl (discovered_none hd result)
  | some server =>
    obtain ⟨hg, hgen, hst⟩ := discovering_eq_some hd
    obtain ⟨pendingApproval, h, -⟩ := discovered_some hd result
    exact .inr ⟨server, pendingApproval, hg, hgen, hst, h⟩

/-- Approving is ignored, or takes the pending server and perhaps starts it. -/
theorem approve_cases (c : LanguageCoordinator) (l : String) :
    (c.approve l).1 = c ∨
      ∃ server state,
        c.servers.get? l = some server ∧ server.state = .approvalRequired ∧
          (state = .approvalRequired ∨ state = .starting) ∧
            Rest c (c.approve l).1 ∧
              (c.approve l).1.servers = c.servers.insert l
                { server with pendingApproval := none, state } := by
  unfold approve
  cases hf : (c.servers.get? l).filter (·.state = .approvalRequired) with
  | none => exact .inl rfl
  | some server =>
    obtain ⟨hg, hp⟩ := get?_filter_eq_some.mp hf
    have hst := of_decide_eq_true hp
    dsimp only
    cases server.pendingApproval with
    | none => exact .inl rfl
    | some discovered =>
      dsimp only
      cases ApprovalSnapshot.new l discovered.fingerprint with
      | none => exact .inr ⟨server, .approvalRequired, hg, hst, .inl rfl, ⟨rfl, rfl, rfl⟩, by
          rw [← hst]; rfl⟩
      | some approval =>
        exact .inr ⟨server, .starting, hg, hst, .inr rfl, ⟨rfl, rfl, rfl⟩, rfl⟩

theorem deny_cases (c : LanguageCoordinator) (l : String) :
    c.deny l = c ∨
      ∃ server, c.servers.get? l = some server ∧ server.state = .approvalRequired ∧
        Rest c (c.deny l) ∧
          (c.deny l).servers =
            c.servers.insert l { server with pendingApproval := none, state := .disabled } := by
  unfold deny
  cases hf : (c.servers.get? l).filter (·.state = .approvalRequired) with
  | none => exact .inl rfl
  | some server =>
    obtain ⟨hg, hp⟩ := get?_filter_eq_some.mp hf
    exact .inr ⟨server, hg, of_decide_eq_true hp, ⟨rfl, rfl, rfl⟩, rfl⟩

theorem retry_cases (c : LanguageCoordinator) (l : String) :
    ((∀ server, c.servers.get? l = some server → canRetry server.state = false) ∧
        c.retry l = (c, [])) ∨
      ∃ server, c.servers.get? l = some server ∧ canRetry server.state = true ∧
        c.retry l = c.discover l { server with pendingApproval := none } := by
  unfold retry
  cases hf : (c.servers.get? l).filter (canRetry ·.state) with
  | none =>
    refine .inl ⟨fun server hg => ?_, rfl⟩
    rw [hg] at hf
    simpa using hf
  | some server =>
    obtain ⟨hg, hp⟩ := get?_filter_eq_some.mp hf
    exact .inr ⟨server, hg, hp, rfl⟩

end Discovery

/-! ## Events of the server -/

section Events

variable {generation : UInt64}

theorem markReady_cases (c : LanguageCoordinator) (order : KeyOrder DocumentId) (l : String)
    (generation : UInt64) (positionEncoding : PositionEncoding) :
    c.markReady order l generation positionEncoding = (c, []) ∨
      ∃ server, c.servers.get? l = some server ∧ server.generation = generation ∧
        server.state = .starting ∧
          (c.markReady order l generation positionEncoding).1 =
            c.setServer l { server with state := .ready, positionEncoding } := by
  unfold markReady
  cases hf : (c.servers.get? l).filter fun server =>
      server.generation = generation && server.state = .starting with
  | none => exact .inl rfl
  | some server =>
    obtain ⟨hg, hp⟩ := get?_filter_eq_some.mp hf
    simp only [Bool.and_eq_true, decide_eq_true_eq] at hp
    exact .inr ⟨server, hg, hp.1, hp.2, rfl⟩

/-- An event of another generation than the server's is ignored. -/
theorem filter_generation_cases (c : LanguageCoordinator) (l : String) (generation : UInt64) :
    ((c.servers.get? l).filter (·.generation = generation) = none ∧
        ∀ server, c.servers.get? l = some server → server.generation ≠ generation) ∨
      ∃ server, (c.servers.get? l).filter (·.generation = generation) = some server ∧
        c.servers.get? l = some server ∧ server.generation = generation := by
  cases hf : (c.servers.get? l).filter (·.generation = generation) with
  | none =>
    refine .inl ⟨rfl, fun server hg he => ?_⟩
    rw [hg, Option.filter_some, he] at hf
    simp at hf
  | some server =>
    obtain ⟨hg, hp⟩ := get?_filter_eq_some.mp hf
    exact .inr ⟨server, rfl, hg, of_decide_eq_true hp⟩

theorem failWithMessage_cases (c : LanguageCoordinator) (l : String) (generation : UInt64)
    (message : String) :
    ((∀ server, c.servers.get? l = some server → server.generation ≠ generation) ∧
        c.failWithMessage l generation message = c) ∨
      ∃ server, c.servers.get? l = some server ∧ server.generation = generation ∧
        c.failWithMessage l generation message =
          { (c.setServer l
              { server with
                state := .failed, lastError := some (takeChars 2048 message) }) with
            diagnostics := c.retainDiagnostics fun set =>
              set.languageId ≠ l || set.generation ≠ generation
            features := .new } := by
  unfold failWithMessage
  obtain ⟨hf, hne⟩ | ⟨server, hf, hg, he⟩ := filter_generation_cases c l generation
  · rw [hf]
    exact .inl ⟨hne, rfl⟩
  · rw [hf]
    exact .inr ⟨server, hg, he, rfl⟩

/-- The stopped server, and the diagnostics without its own. -/
def stopped (c : LanguageCoordinator) (l : String) (server : ServerBinding) : LanguageCoordinator :=
  { (c.setServer l
      { server with
        shutdownPending := false
        state := if c.selectionEnabled l then .stopped else .disabled
        lastError := none }) with
    diagnostics := c.retainDiagnostics fun set =>
      set.languageId ≠ l || set.generation ≠ server.generation
    features := .new }

theorem markStopped_cases (c : LanguageCoordinator) (l : String) (generation : UInt64) :
    ((∀ server, c.servers.get? l = some server → server.generation ≠ generation) ∧
        c.markStopped l generation = (c, [])) ∨
      ∃ server, c.servers.get? l = some server ∧ server.generation = generation ∧
        c.markStopped l generation =
          if c.selectionEnabled l && c.hasDocument l then
            (c.stopped l server).ensureLanguageStarted l
          else (c.stopped l server, []) := by
  unfold markStopped
  obtain ⟨hf, hne⟩ | ⟨server, hf, hg, he⟩ := filter_generation_cases c l generation
  · rw [hf]
    exact .inl ⟨hne, rfl⟩
  · rw [hf]
    refine .inr ⟨server, hg, he, ?_⟩
    subst he
    rfl

end Events

/-! ## Selections -/

section Selections

theorem new_eq_some {languageId descriptorId : String} {enabled : Bool}
    {selection : LanguageSelectionSnapshot}
    (h : LanguageSelectionSnapshot.new languageId descriptorId enabled = some selection) :
    selection.enabled = enabled := by
  unfold LanguageSelectionSnapshot.new at h
  split at h
  · cases h; rfl
  · cases h

theorem selectionOf_enabled {enabled : Bool} {selection : LanguageSelectionSnapshot}
    (h : c.selectionOf env l enabled = some selection) : selection.enabled = enabled := by
  obtain ⟨descriptorId, -, h⟩ := Option.bind_eq_some_iff.mp h
  exact new_eq_some h

theorem disableLanguage_cases (env : LanguageEnv) (c : LanguageCoordinator) (l : String) :
    (c.selectionOf env l false = none ∧ c.disableLanguage env l = (c, none)) ∨
      ∃ selection, c.selectionOf env l false = some selection ∧ selection.enabled = false ∧
        (c.disableLanguage env l).2 =
            (if (c.serverOrNew l).state = .ready then some (c.serverOrNew l).generation
              else none) ∧
          (c.disableLanguage env l).1 =
            { ((c.select l selection).setServer l
                { c.serverOrNew l with
                  shutdownPending := decide ((c.serverOrNew l).state = .ready)
                  state := .disabled }) with
              diagnostics := c.retainDiagnostics (·.languageId ≠ l)
              features := .new } := by
  unfold disableLanguage
  cases hs : c.selectionOf env l false with
  | none => exact .inl ⟨rfl, rfl⟩
  | some selection =>
    refine .inr ⟨selection, rfl, selectionOf_enabled hs, rfl, ?_⟩
    by_cases hr : (c.serverOrNew l).state = .ready
    · simp only [hr, if_true, Option.isSome_some, decide_true]
    · simp only [hr, if_false, Option.isSome_none, decide_false]

/-- The language as enabled, with its server stopped. -/
def enabled (c : LanguageCoordinator) (l : String) (selection : LanguageSelectionSnapshot) :
    LanguageCoordinator :=
  (c.select l selection).setServer l { c.serverOrNew l with state := .stopped }

theorem enableLanguage_cases (env : LanguageEnv) (c : LanguageCoordinator) (l : String) :
    (c.selectionOf env l true = none ∧ c.enableLanguage env l = (c, [])) ∨
      ∃ selection, c.selectionOf env l true = some selection ∧ selection.enabled = true ∧
        (((c.serverOrNew l).shutdownPending = true ∧
            c.enableLanguage env l = (c.select l selection, [])) ∨
          ((c.serverOrNew l).shutdownPending = false ∧
            c.enableLanguage env l =
              if c.hasDocument l then (c.enabled l selection).ensureLanguageStarted l
              else (c.enabled l selection, []))) := by
  unfold enableLanguage
  cases hs : c.selectionOf env l true with
  | none => exact .inl ⟨rfl, rfl⟩
  | some selection =>
    refine .inr ⟨selection, rfl, selectionOf_enabled hs, ?_⟩
    have hsel : (c.select l selection).serverOrNew l = c.serverOrNew l := rfl
    dsimp only
    rw [hsel]
    by_cases hp : (c.serverOrNew l).shutdownPending = true
    · rw [if_pos hp]
      exact .inl ⟨hp, rfl⟩
    · rw [if_neg hp]
      exact .inr ⟨by simpa using hp, rfl⟩

theorem restartLanguage_cases (c : LanguageCoordinator) (l : String) :
    c.restartLanguage l = (c, none) ∨
      ∃ server, c.servers.get? l = some server ∧ server.state = .ready ∧
        server.shutdownPending = false ∧
          c.restartLanguage l =
            (c.setServer l { server with shutdownPending := true }, some server.generation) := by
  unfold restartLanguage
  cases hf : (c.servers.get? l).filter fun server =>
      server.state = .ready && !server.shutdownPending with
  | none => exact .inl rfl
  | some server =>
    obtain ⟨hg, hp⟩ := get?_filter_eq_some.mp hf
    simp only [Bool.and_eq_true, decide_eq_true_eq, Bool.not_eq_true'] at hp
    exact .inr ⟨server, hg, hp.1, hp.2, rfl⟩

end Selections

/-! ## One language -/

section Language

/-- The server and the selection of a language are those of before. -/
structure SameLanguage (c c' : LanguageCoordinator) (k : String) : Prop where
  server : c'.servers.get? k = c.servers.get? k
  selection : c'.selections.get? k = c.selections.get? k

theorem SameLanguage.refl (c : LanguageCoordinator) (k : String) : SameLanguage c c k := ⟨rfl, rfl⟩

theorem SameLanguage.trans {c' c'' : LanguageCoordinator} (h : SameLanguage c c' k)
    (h' : SameLanguage c' c'' k) : SameLanguage c c'' k :=
  ⟨h'.server.trans h.server, h'.selection.trans h.selection⟩

theorem SameLanguage.of_eq {c' : LanguageCoordinator} (hserv : c'.servers = c.servers)
    (hsel : c'.selections = c.selections) (k : String) : SameLanguage c c' k :=
  ⟨congrArg (·.get? k) hserv, congrArg (·.get? k) hsel⟩

theorem SameLanguage.of_insert {c' : LanguageCoordinator} {server : ServerBinding}
    (hserv : c'.servers = c.servers.insert l server) (hsel : c'.selections = c.selections)
    (hne : l ≠ k) : SameLanguage c c' k := by
  refine ⟨?_, congrArg (·.get? k) hsel⟩
  rw [hserv, SortedMap.get?_insert, if_neg (Ne.symm hne)]

theorem SameLanguage.enabled_eq {c' : LanguageCoordinator} (h : SameLanguage c c' k) :
    c'.selectionEnabled k = c.selectionEnabled k := by
  unfold selectionEnabled
  rw [h.selection]

theorem same_ensure (hne : l ≠ k) : SameLanguage c (c.ensureLanguageStarted l).1 k := by
  obtain ⟨-, h⟩ | ⟨-, h⟩ := ensure_cases c l
  · rw [h]; exact .refl c k
  · rw [h]; exact .of_insert rfl rfl hne

theorem same_openBinding {document : DocumentBinding} (hne : document.languageId ≠ k) :
    SameLanguage c (c.openBinding id document).1 k := by
  have hwith : SameLanguage c (c.withDocument id document) k := ⟨rfl, rfl⟩
  obtain ⟨-, h⟩ | ⟨-, -, ⟨server, -, -, h⟩ | ⟨-, h⟩⟩ := openBinding_cases c id document
  · rw [h]; exact hwith
  · rw [h]; exact hwith
  · rw [h]; exact hwith.trans (same_ensure hne)

theorem same_closeDocument (c : LanguageCoordinator) (id : DocumentId) (k : String) :
    SameLanguage c (c.closeDocument id).1 k := by
  obtain ⟨-, -, hserv, hsel⟩ := closeDocument_fields c id
  exact .of_eq hserv hsel k

theorem same_publish (c : LanguageCoordinator) (order : KeyOrder DocumentId) (languageId : String)
    (generation : UInt64) (path : PathBuf) (version : Option UInt64)
    (diagnostics : List PublishedDiagnostic) (k : String) :
    SameLanguage c (c.publishDiagnostics order languageId generation path version diagnostics)
      k := by
  unfold publishDiagnostics
  split
  · exact .refl c k
  · split
    · exact .refl c k
    · split
      · exact .refl c k
      · dsimp only
        split
        · exact ⟨rfl, rfl⟩
        · exact ⟨rfl, rfl⟩

theorem same_acceptFeature (c : LanguageCoordinator) (generation : UInt64)
    (request : FeatureRequest) (result : FeatureResult) (k : String) :
    SameLanguage c (c.acceptFeatureResponse generation request result) k := by
  unfold acceptFeatureResponse
  split
  · exact .refl c k
  · dsimp only
    split
    · exact ⟨rfl, rfl⟩
    · split
      · exact ⟨rfl, rfl⟩
      · split
        · exact ⟨rfl, rfl⟩
        · exact ⟨rfl, rfl⟩
        · exact ⟨rfl, rfl⟩

theorem rest_acceptFeature (c : LanguageCoordinator) (generation : UInt64)
    (request : FeatureRequest) (result : FeatureResult) :
    Rest c (c.acceptFeatureResponse generation request result) := by
  unfold acceptFeatureResponse
  split
  · exact .refl c
  · dsimp only
    split
    · exact ⟨rfl, rfl, rfl⟩
    · split
      · exact ⟨rfl, rfl, rfl⟩
      · split
        · exact ⟨rfl, rfl, rfl⟩
        · exact ⟨rfl, rfl, rfl⟩
        · exact ⟨rfl, rfl, rfl⟩

theorem same_discovered {workspaceId : String} {generation : UInt64} {result : DiscoveryResult}
    (hne : l ≠ k) : SameLanguage c (c.discovered workspaceId l generation result) k := by
  obtain h | ⟨server, pending, -, -, -, h⟩ := discovered_cases c workspaceId l generation result
  · rw [h]; exact .refl c k
  · rw [h]; exact .of_insert rfl rfl hne

theorem same_markStopped {generation : UInt64} (hne : l ≠ k) :
    SameLanguage c (c.markStopped l generation).1 k := by
  obtain ⟨-, h⟩ | ⟨server, -, -, h⟩ := markStopped_cases c l generation
  · rw [h]; exact .refl c k
  · have hstopped : SameLanguage c (c.stopped l server) k := .of_insert rfl rfl hne
    rw [h]
    by_cases hd : (c.selectionEnabled l && c.hasDocument l) = true
    · rw [if_pos hd]
      exact hstopped.trans (same_ensure hne)
    · rw [if_neg hd]
      exact hstopped

theorem same_disable (hne : l ≠ k) : SameLanguage c (c.disableLanguage env l).1 k := by
  obtain ⟨-, h⟩ | ⟨selection, -, -, -, h⟩ := disableLanguage_cases env c l
  · rw [h]; exact .refl c k
  · have hsel : SameLanguage c (c.select l selection) k :=
      ⟨rfl, SortedMap.get?_insert.trans (if_neg (Ne.symm hne))⟩
    rw [h]
    exact hsel.trans (.of_insert rfl rfl hne)

theorem same_enable (hne : l ≠ k) : SameLanguage c (c.enableLanguage env l).1 k := by
  obtain ⟨-, h⟩ | ⟨selection, -, -, ⟨-, h⟩ | ⟨-, h⟩⟩ := enableLanguage_cases env c l
  · rw [h]; exact .refl c k
  · rw [h]
    exact ⟨rfl, SortedMap.get?_insert.trans (if_neg (Ne.symm hne))⟩
  · have hsel : SameLanguage c (c.select l selection) k :=
      ⟨rfl, SortedMap.get?_insert.trans (if_neg (Ne.symm hne))⟩
    have henabled : SameLanguage c (c.enabled l selection) k :=
      hsel.trans (.of_insert rfl rfl hne)
    rw [h]
    by_cases hd : c.hasDocument l = true
    · rw [if_pos hd]
      exact henabled.trans (same_ensure hne)
    · rw [if_neg hd]
      exact henabled

end Language

end LanguageCoordinator

namespace CoordinatorOp

open LanguageCoordinator

variable {env : LanguageEnv} {c : LanguageCoordinator} {k : String}

/-- An operation changes the server and the selection of at most its own language. -/
theorem run_of_ne (op : CoordinatorOp) (h : op.language env c ≠ some k) :
    SameLanguage c (op.run env c).1 k := by
  have hne : ∀ l, op.language env c = some l → l ≠ k := by
    rintro l hl rfl
    exact h hl
  cases op with
  | openDocument id path languageOverride revision text =>
    exact same_openBinding (hne _ rfl)
  | setOverride id languageOverride =>
    change SameLanguage c (LanguageCoordinator.setOverride env c id languageOverride).1 k
    unfold LanguageCoordinator.setOverride
    cases hd : c.documents.get? id with
    | none => exact .refl c k
    | some previous =>
      exact (same_closeDocument c id k).trans
        (same_openBinding (hne _ (by simp only [language, hd, Option.map_some]; rfl)))
  | editDocument id revision text =>
    obtain ⟨-, hserv, hsel⟩ := editDocument_fields c id revision text
    exact .of_eq hserv hsel k
  | closeDocument id => exact same_closeDocument c id k
  | publishDiagnostics order languageId generation path version diagnostics =>
    exact same_publish c order languageId generation path version diagnostics k
  | acceptFeatureResponse generation request result =>
    exact same_acceptFeature c generation request result k
  | saveDocument _ | beginFeature _ _ _ | expireFeature _ | dismissFeatures | setProblemFilter _
  | toggleProblems => exact ⟨rfl, rfl⟩
  | discovered workspaceId languageId generation result => exact same_discovered (hne _ rfl)
  | approve languageId =>
    change SameLanguage c (c.approve languageId).1 k
    obtain h | ⟨server, state, -, -, -, hrest, hserv⟩ := approve_cases c languageId
    · rw [h]; exact .refl c k
    · exact .of_insert hserv hrest.selections (hne _ rfl)
  | deny languageId =>
    change SameLanguage c (c.deny languageId) k
    obtain h | ⟨server, -, -, hrest, hserv⟩ := deny_cases c languageId
    · rw [h]; exact .refl c k
    · exact .of_insert hserv hrest.selections (hne _ rfl)
  | retry languageId =>
    change SameLanguage c (c.retry languageId).1 k
    obtain ⟨-, h⟩ | ⟨server, -, -, h⟩ := retry_cases c languageId
    · rw [h]; exact .refl c k
    · rw [h]; exact .of_insert rfl rfl (hne _ rfl)
  | markReady order languageId generation positionEncoding =>
    change SameLanguage c (c.markReady order languageId generation positionEncoding).1 k
    obtain h | ⟨server, -, -, -, h⟩ :=
      markReady_cases c order languageId generation positionEncoding
    · rw [h]; exact .refl c k
    · rw [h]; exact .of_insert rfl rfl (hne _ rfl)
  | failWithMessage languageId generation message =>
    change SameLanguage c (c.failWithMessage languageId generation message) k
    obtain ⟨-, h⟩ | ⟨server, -, -, h⟩ := failWithMessage_cases c languageId generation message
    · rw [h]; exact .refl c k
    · rw [h]; exact .of_insert rfl rfl (hne _ rfl)
  | markStopped languageId generation => exact same_markStopped (hne _ rfl)
  | disableLanguage languageId => exact same_disable (hne _ rfl)
  | enableLanguage languageId => exact same_enable (hne _ rfl)
  | restartLanguage languageId =>
    change SameLanguage c (c.restartLanguage languageId).1 k
    obtain h | ⟨server, -, -, -, h⟩ := restartLanguage_cases c languageId
    · rw [h]; exact .refl c k
    · rw [h]; exact .of_insert rfl rfl (hne _ rfl)

end CoordinatorOp

end Strukt.App
