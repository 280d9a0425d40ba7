import Strukt.Language.Client

/-!
# What the methods of the language client do

* **Specifications**: one `wp_*` lemma for each method that queues messages or can fail, exact in
  every outcome. Cancelling requests fills the free places of the queue (`invalidated`), and so do
  the changes that `flushChanges` takes out (`flushed`).
* **Settled clients** (`Settled`): the held changes and the requests belong to a server that is up,
  and each deadline to the state that waits for it.
-/

namespace Strukt.Language.LanguageClient

open Method

variable {α : Type} {c c' : LanguageClient} {E : ClientError → LanguageClient → Prop} {P : Prop}
  {document text : String} {revision : UInt64} {now : Duration} {order : HashOrder}

/-- The free places of the outbound queue. -/
def room (c : LanguageClient) : Nat := outboundLimit - c.outbound.length

def queue (c : LanguageClient) (messages : List OutboundMessage) : LanguageClient :=
  { c with outbound := c.outbound ++ messages }

/-- The client after the requests `ids` were cancelled one after the other, as far as the queue had
room: the one that did not fit is forgotten too. -/
def invalidated (c : LanguageClient) (ids : List RequestId) : LanguageClient :=
  { c with
    requests := c.requests.filterKeys (· ∉ ids.take (c.room + 1))
    outbound := c.outbound ++ (ids.take c.room).map .cancelRequest }

theorem lt_limit_iff : c.outbound.length < outboundLimit ↔ 0 < c.room := by
  unfold room
  omega

theorem invalidated_nil : c.invalidated [] = c := by
  have hrequests : c.requests.filterKeys (fun k => k ∉ ([] : List RequestId)) = c.requests :=
    SortedMap.ext_get? fun k => by simp
  simp only [invalidated, List.take_nil, List.map_nil, List.append_nil, hrequests]

variable {Q : Unit → LanguageClient → Prop}

theorem wp_pushOutbound {message : OutboundMessage} :
    wp (pushOutbound message) Q E P c ↔
      (0 < c.room → Q () (c.queue [message])) ∧ (c.room = 0 → E .outboundQueueFull c) := by
  simp only [pushOutbound, wp_bind, wp_get, wp_ensure, wp_modify, lt_limit_iff, Nat.not_lt,
    Nat.le_zero]
  rfl

theorem wp_nextId {Q : RequestId → LanguageClient → Prop} :
    wp nextId Q E P c ↔
      (c.ids ≠ -1 → Q ⟨c.ids + 1⟩ { c with ids := c.ids + 1 }) ∧
        (c.ids = -1 → E (.protocol .requestIdExhausted) c) := by
  simp only [nextId, wp_bind, wp_get, wp_ensure, wp_modify, wp_pure, not_not, ne_eq]

theorem wp_ensureReady :
    wp ensureReady Q E P c ↔ (c.state = .ready → Q () c) ∧ (c.state ≠ .ready → E .notReady c) := by
  simp only [ensureReady, wp_bind, wp_get, wp_ensure, ne_eq]

theorem wp_invalidate {id : RequestId} :
    wp (invalidate id) Q E P c ↔
      (0 < c.room → Q () (c.invalidated [id])) ∧
        (c.room = 0 → E .outboundQueueFull (c.invalidated [id])) := by
  have hremove : c.requests.remove id = c.requests.filterKeys (fun k => k ∉ [id]) :=
    SortedMap.ext_get? fun k => by by_cases hk : k = id <;> simp [hk]
  have hroom : room { c with requests := c.requests.remove id } = c.room := rfl
  simp only [invalidate, pushCancel, wp_bind, wp_modify, wp_pushOutbound, hroom]
  refine and_congr (imp_congr_right fun h => ?_) (imp_congr_right fun h => ?_)
  · have htake : [id].take c.room = [id] := List.take_of_length_le h
    have htake' : [id].take (c.room + 1) = [id] := List.take_of_length_le (by simp)
    simp only [invalidated, queue, htake, htake', hremove, List.map_cons, List.map_nil]
  · simp only [invalidated, h, List.take_zero, List.map_nil, List.append_nil, hremove,
      List.take_succ_cons]

theorem room_invalidated {ids : List RequestId} (h : ids.length ≤ c.room) :
    (c.invalidated ids).room = c.room - ids.length := by
  have htake : ids.take c.room = ids := List.take_of_length_le h
  unfold room at *
  simp only [invalidated, room, htake, List.length_append, List.length_map]
  omega

theorem invalidated_cons {id : RequestId} {ids : List RequestId} (h : 0 < c.room) :
    (c.invalidated [id]).invalidated ids = c.invalidated (id :: ids) := by
  have hroom : (c.invalidated [id]).room = c.room - 1 := room_invalidated h
  obtain ⟨n, hn⟩ : ∃ n, c.room = n + 1 := ⟨c.room - 1, by omega⟩
  rw [hn, Nat.add_sub_cancel] at hroom
  have hrequests : (c.requests.filterKeys (· ∉ [id])).filterKeys (· ∉ ids.take (n + 1)) =
      c.requests.filterKeys (· ∉ id :: ids.take (n + 1)) :=
    SortedMap.ext_get? fun k => by
      by_cases hk : k = id <;> by_cases hids : k ∈ ids.take (n + 1) <;> simp [hk, hids]
  rw [invalidated, hroom, invalidated, invalidated, hn]
  simp only [List.take_succ_cons, List.take_nil, List.map_cons, List.map_nil, List.append_assoc,
    List.cons_append, List.nil_append]
  congr 1

theorem wp_forM_invalidate {ids : List RequestId} :
    wp (forM ids invalidate) Q E P c ↔
      (ids.length ≤ c.room → Q () (c.invalidated ids)) ∧
        (c.room < ids.length → E .outboundQueueFull (c.invalidated ids)) := by
  induction ids generalizing c with
  | nil => simp [invalidated_nil]
  | cons id ids ih =>
    rw [List.forM_cons]
    simp only [wp_bind, wp_invalidate, ih, List.length_cons]
    obtain hzero | hpos := Nat.eq_zero_or_pos c.room
    · have hsame : c.invalidated [id] = c.invalidated (id :: ids) := by
        simp [invalidated, hzero]
      rw [hsame, hzero]
      simp
    · have hroom : (c.invalidated [id]).room = c.room - 1 := room_invalidated hpos
      simp only [hpos, true_implies, invalidated_cons hpos, hroom, hpos.ne', false_implies,
        and_true]
      refine and_congr (imp_congr_left ?_) (imp_congr_left ?_) <;> omega

theorem wp_invalidateDocumentRequests :
    wp (invalidateDocumentRequests document order) Q E P c ↔
      ((order.order (c.requestsOf document)).length ≤ c.room →
        Q () (c.invalidated (order.order (c.requestsOf document)))) ∧
      (c.room < (order.order (c.requestsOf document)).length →
        E .outboundQueueFull (c.invalidated (order.order (c.requestsOf document)))) := by
  simp only [invalidateDocumentRequests, wp_bind, wp_get, wp_forM_invalidate]

/-- The request that `invalidateFeatureRequest` cancels. -/
def replaced (c : LanguageClient) (kind : FeatureRequestKind) (document : String)
    (order : HashOrder) : List RequestId :=
  (order.order (c.requestsOfKind kind document)).head?.toList

theorem wp_invalidateFeatureRequest
    {kind : FeatureRequestKind} :
    wp (invalidateFeatureRequest kind document order) Q E P c ↔
      ((c.replaced kind document order).length ≤ c.room →
        Q () (c.invalidated (c.replaced kind document order))) ∧
      (c.room < (c.replaced kind document order).length →
        E .outboundQueueFull (c.invalidated (c.replaced kind document order))) := by
  simp only [invalidateFeatureRequest, replaced, wp_bind, wp_get]
  cases (order.order (c.requestsOfKind kind document)).head? with
  | none => simp [invalidated_nil]
  | some id =>
    simp only [wp_invalidate, Option.toList_some, List.length_singleton]
    exact and_congr (imp_congr_left Nat.succ_le_iff.symm) (imp_congr_left Nat.lt_one_iff.symm)

/-- The messages that an operation queued: those past the former end of the queue. -/
def newlyQueued (c c' : LanguageClient) : List OutboundMessage :=
  c'.outbound.drop c.outbound.length

theorem newlyQueued_eq {ms : List OutboundMessage} (h : c'.outbound = c.outbound ++ ms) :
    newlyQueued c c' = ms := by
  rw [newlyQueued, h, List.drop_left]

theorem newlyQueued_of_le (h : c'.outbound.length ≤ c.outbound.length) : newlyQueued c c' = [] :=
  List.drop_eq_nil_of_le h

/-! ## Flushing -/

/-- The message of a document's held change. -/
def changeMessage (c : LanguageClient) (document : String) : Option OutboundMessage :=
  (c.pendingChanges.get? document).map fun p => .didChange document p.revision p.text

/-- The messages that find room when the held changes of `documents` are queued in turn. -/
def flushedMessages (c : LanguageClient) (documents : List String) : List OutboundMessage :=
  (documents.filterMap c.changeMessage).take c.room

/-- The client after the held changes of `documents` were taken out in turn. -/
def flushed (c : LanguageClient) (documents : List String) : LanguageClient :=
  { c with
    pendingChanges := c.pendingChanges.filterKeys (· ∉ documents)
    outbound := c.outbound ++ c.flushedMessages documents }

theorem flushed_nil : c.flushed [] = c := by
  have hpending : c.pendingChanges.filterKeys (fun k => k ∉ ([] : List String)) =
      c.pendingChanges := SortedMap.ext_get? fun k => by simp
  simp only [flushed, flushedMessages, List.filterMap_nil, List.take_nil, List.append_nil,
    hpending]

theorem flushedMessages_cons {documents : List String} (hnot : document ∉ documents) :
    c.flushedMessages [document] ++ (c.flushed [document]).flushedMessages documents =
      c.flushedMessages (document :: documents) := by
  have hmessage : ∀ d ∈ documents, (c.flushed [document]).changeMessage d = c.changeMessage d := by
    intro d hd
    have hne : d ≠ document := fun he => hnot (he ▸ hd)
    simp [changeMessage, flushed, hne]
  have hroom : (c.flushed [document]).room = c.room - (c.flushedMessages [document]).length := by
    simp only [room, flushed, List.length_append]
    omega
  rw [flushedMessages, flushedMessages, flushedMessages, hroom, List.filterMap_congr hmessage,
    flushedMessages, List.filterMap_cons, List.filterMap_cons, List.filterMap_nil]
  cases c.changeMessage document with
  | none => simp
  | some m => cases c.room <;> simp

theorem flushed_cons {documents : List String} (hnot : document ∉ documents) :
    (c.flushed [document]).flushed documents = c.flushed (document :: documents) := by
  have hpending : (c.pendingChanges.filterKeys (· ∉ [document])).filterKeys (· ∉ documents) =
      c.pendingChanges.filterKeys (· ∉ document :: documents) :=
    SortedMap.ext_get? fun k => by by_cases hk : k = document <;> simp [hk]
  rw [flushed, flushed.eq_def c (document :: documents), ← flushedMessages_cons hnot]
  simp only [flushed, List.append_assoc]
  congr 1

/-- One round of the loop. -/
theorem wp_flushChange {Q : Nat → LanguageClient → Prop} :
    wp (flushChange document) Q E P c ↔
      Q (c.flushedMessages [document]).length (c.flushed [document]) := by
  have hroom : ∀ pendingChanges, room { c with pendingChanges } = c.room := fun _ => rfl
  have hremove : c.pendingChanges.remove document =
      c.pendingChanges.filterKeys (· ∉ [document]) :=
    SortedMap.ext_get? fun k => by by_cases hk : k = document <;> simp [hk]
  simp only [flushChange, wp_bind, wp_get]
  cases hp : c.pendingChanges.get? document with
  | none =>
    have hsame : c.flushed [document] = c := by
      have hpending : c.pendingChanges.filterKeys (· ∉ [document]) = c.pendingChanges :=
        SortedMap.ext_get? fun k => by by_cases hk : k = document <;> simp [hk, hp]
      simp only [flushed, hpending]
      simp [flushedMessages, changeMessage, hp]
    rw [hsame]
    simp [flushedMessages, changeMessage, hp]
  | some p =>
    have hmessage : c.changeMessage document = some (.didChange document p.revision p.text) := by
      simp [changeMessage, hp]
    simp only [wp_bind, wp_modify, wp_attempt, wp_pushOutbound, wp_pure, hroom, hremove, flushed,
      flushedMessages, List.filterMap_cons_some hmessage, List.filterMap_nil]
    cases c.room <;> simp [queue, Except.isOk, Except.toBool]

theorem wp_flush {Q : Nat → LanguageClient → Prop} {documents : List String}
    (h : documents.Nodup) (queued : Nat) :
    wp (documents.foldlM (fun queued document => do pure (queued + (← flushChange document)))
        queued) Q E P c ↔
      Q (queued + (c.flushedMessages documents).length) (c.flushed documents) := by
  induction documents generalizing c queued with
  | nil => simp [flushed_nil, flushedMessages]
  | cons document documents ih =>
    obtain ⟨hnot, hnodup⟩ := List.nodup_cons.mp h
    rw [List.foldlM_cons]
    simp only [wp_bind, wp_flushChange, wp_pure, ih hnodup, flushed_cons hnot, Nat.add_assoc,
      ← List.length_append, flushedMessages_cons hnot]

theorem nodup_due (c : LanguageClient) (now : Duration) : (c.due now).Nodup :=
  c.pendingChanges.nodup_keys.sublist (List.filter_sublist.map _)

theorem wp_flushChanges {Q : Nat → LanguageClient → Prop} :
    wp (flushChanges now) Q E P c ↔
      Q (c.flushedMessages (c.due now)).length (c.flushed (c.due now)) := by
  simp only [flushChanges, wp_bind, wp_get, wp_flush (nodup_due c now), Nat.zero_add]

/-! ## The states that the methods leave -/

/-- `start` before it takes an identifier. -/
def starting (c : LanguageClient) : LanguageClient :=
  { c with generation := c.generation.satSucc, state := .starting, capabilities := none }

def started (c : LanguageClient) (deadline : Duration) : LanguageClient :=
  { c.starting with
    ids := c.ids + 1
    initializeId := some ⟨c.ids + 1⟩
    initializeDeadline := some deadline }

def accepted (c : LanguageClient) (capabilities : ServerCapabilities) : LanguageClient :=
  { c with
    initializeId := none
    initializeDeadline := none
    capabilities := some capabilities
    state := .ready }

def opened (c : LanguageClient) (document : String) (revision : UInt64) : LanguageClient :=
  { c with documents := c.documents.insert document revision, idleDeadline := none }

def closed (c : LanguageClient) (document : String) : LanguageClient :=
  { c with
    documents := c.documents.remove document
    pendingChanges := c.pendingChanges.remove document }

def changed (c : LanguageClient) (document : String) (change : PendingChange) : LanguageClient :=
  { c with
    documents := c.documents.insert document change.revision
    pendingChanges := c.pendingChanges.insert document change }

/-- The end of a server process: nothing is queued, held back or outstanding. -/
def ended (c : LanguageClient) (state : LanguageServerState) : LanguageClient :=
  { c with
    generation := c.generation.satSucc
    state
    capabilities := none
    initializeId := none
    initializeDeadline := none
    shutdownId := none
    shutdownDeadline := none
    idleDeadline := none
    outbound := []
    pendingChanges := .empty
    requests := .empty }

/-- `begin_shutdown` before it takes an identifier. -/
def stopping (c : LanguageClient) : LanguageClient :=
  { c with state := .stopping, pendingChanges := .empty, requests := .empty }

def shuttingDown (c : LanguageClient) (deadline : Duration) : LanguageClient :=
  { c.stopping with
    ids := c.ids + 1
    shutdownId := some ⟨c.ids + 1⟩
    shutdownDeadline := some deadline }

def finished (c : LanguageClient) : LanguageClient :=
  { c with
    state := .stopped
    capabilities := none
    outbound := []
    pendingChanges := .empty
    requests := .empty
    initializeDeadline := none
    shutdownDeadline := none
    idleDeadline := none }

end Strukt.Language.LanguageClient

namespace Strukt.Language

open Method LanguageClient

inductive ClientOp where
  | start (now : Duration)
  | acceptInitialize (id : RequestId) (capabilities : ServerCapabilities)
  | rejectInitialize (id : RequestId)
  | failProtocol
  | didOpen (document : String) (revision : UInt64) (text : String)
  | didSave (document : String)
  | didClose (document : String) (now : Duration) (order : HashOrder)
  | didChange (document : String) (revision : UInt64) (text : String) (now : Duration)
      (order : HashOrder)
  | flushChanges (now : Duration)
  | requestFeature (kind : FeatureRequestKind) (document : String) (revision : UInt64)
      (position : LspPosition) (now : Duration) (order : HashOrder)
  | acceptFeatureResponse (request : FeatureRequest)
  | restartGeneration
  | processExited (now : Duration)
  | beginShutdown (now : Duration)
  | acceptShutdown (id : RequestId)
  | finishShutdown
  | pollTimeouts (now : Duration)
  | takeOutbound

namespace ClientOp

def run : ClientOp → ClientM Unit
  | .start now => discard (LanguageClient.start now)
  | .acceptInitialize id capabilities => LanguageClient.acceptInitialize id capabilities
  | .rejectInitialize id => LanguageClient.rejectInitialize id
  | .failProtocol => LanguageClient.failProtocol
  | .didOpen document revision text => LanguageClient.didOpen document revision text
  | .didSave document => LanguageClient.didSave document
  | .didClose document now order => LanguageClient.didClose document now order
  | .didChange document revision text now order =>
    LanguageClient.didChange document revision text now order
  | .flushChanges now => discard (LanguageClient.flushChanges now)
  | .requestFeature kind document revision position now order =>
    discard (LanguageClient.requestFeature kind document revision position now order)
  | .acceptFeatureResponse request => discard (LanguageClient.acceptFeatureResponse request)
  | .restartGeneration => LanguageClient.restartGeneration
  | .processExited now => discard (LanguageClient.processExited now)
  | .beginShutdown now => discard (LanguageClient.beginShutdown now)
  | .acceptShutdown id => LanguageClient.acceptShutdown id
  | .finishShutdown => LanguageClient.finishShutdown
  | .pollTimeouts now => discard (LanguageClient.pollTimeouts now)
  | .takeOutbound => discard LanguageClient.takeOutbound

end ClientOp

/-! ## What a poll does -/

/-- Requests go, and are cancelled as far as the queue has room; a ready client that has none is
degraded. -/
def Cancelled (c c' : LanguageClient) : Prop :=
  ∃ state requests cancels,
    c' = { c with state, requests, outbound := c.outbound ++ cancels } ∧
      (∀ m ∈ cancels, ∃ id, m = .cancelRequest id) ∧
      (∀ id r, requests.get? id = some r → c.requests.get? id = some r) ∧
      (state = c.state ∨ c.state = .ready ∧ state = .degraded)

/-- The requests at their deadline go. -/
structure Expired (c c' : LanguageClient) : Prop where
  cancelled : Cancelled c c'
  none : c.requests = .empty → c' = c

def InitializeExpired (c c' : LanguageClient) : Prop :=
  c' = c ∨ c.initializeDeadline.isSome ∧
    c' = { c with initializeDeadline := none, initializeId := none, state := .failed }

def ShutdownExpired (c c' : LanguageClient) : Prop :=
  c' = c ∨ c.shutdownDeadline.isSome ∧
    c' = { c with shutdownDeadline := none, shutdownId := none, state := .stopped }

/-- An idle client shuts its server down, or fails where it cannot. -/
inductive IdleExpired (c : LanguageClient) : LanguageClient → Prop where
  | not : IdleExpired c c
  | shutdown (deadline : Duration) (hready : c.state = .ready) (hroom : 0 < c.room) :
    IdleExpired c ((shuttingDown { c with idleDeadline := none } deadline).queue
      [.shutdown ⟨c.ids + 1⟩])
  | full (deadline : Duration) (hready : c.state = .ready) :
    IdleExpired c { shuttingDown { c with idleDeadline := none } deadline with state := .failed }
  | exhausted (hready : c.state = .ready) :
    IdleExpired c { stopping { c with idleDeadline := none } with state := .failed }

/-- The four parts of a poll in turn. -/
def Polled (c c' : LanguageClient) : Prop :=
  ∃ c₁ c₂ c₃,
    InitializeExpired c c₁ ∧ Expired c₁ c₂ ∧ ShutdownExpired c₂ c₃ ∧ IdleExpired c₃ c'

variable {c c' c'' : LanguageClient}

theorem Cancelled.refl (c : LanguageClient) : Cancelled c c :=
  ⟨c.state, c.requests, [], by simp, nofun, fun _ _ h => h, .inl rfl⟩

theorem Cancelled.trans (h : Cancelled c c') (h' : Cancelled c' c'') : Cancelled c c'' := by
  obtain ⟨state, requests, cancels, rfl, hcancels, hrequests, hstate⟩ := h
  obtain ⟨state', requests', cancels', rfl, hcancels', hrequests', hstate'⟩ := h'
  refine ⟨state', requests', cancels ++ cancels', by simp, fun m hm => ?_,
    fun id r hr => hrequests id r (hrequests' id r hr), ?_⟩
  · exact (List.mem_append.mp hm).elim (hcancels m) (hcancels' m)
  · obtain rfl | ⟨hready, rfl⟩ := hstate
    · exact hstate'
    · obtain rfl | ⟨hdegraded, -⟩ := hstate'
      · exact .inr ⟨hready, rfl⟩
      · cases hdegraded

theorem expireRequest_spec (id : RequestId) (c : LanguageClient) :
    wp (expireRequest id) (fun _ c' => Cancelled c c') (fun _ _ => False) False c := by
  have hrequests : ∀ k r, (c.requests.remove id).get? k = some r → c.requests.get? k = some r := by
    intro k r hr
    rw [SortedMap.get?_remove] at hr
    split at hr
    · cases hr
    · exact hr
  simp only [expireRequest, pushCancel, wp_bind, wp_modify, wp_attempt, wp_pushOutbound, wp_get,
    wp_ite, wp_pure]
  refine ⟨fun _ => ⟨fun hc => ?_, fun _ => ?_⟩, fun _ => ⟨fun hc => ?_, fun _ => ?_⟩⟩
  · cases hc.1
  · exact ⟨c.state, c.requests.remove id, [.cancelRequest id], rfl,
      fun m hm => ⟨id, List.mem_singleton.mp hm⟩, hrequests, .inl rfl⟩
  · exact ⟨.degraded, c.requests.remove id, [], by simp, by simp, hrequests, .inr ⟨hc.2, rfl⟩⟩
  · exact ⟨c.state, c.requests.remove id, [], by simp, by simp, hrequests, .inl rfl⟩

theorem expireRequests_spec (now : Duration) (c : LanguageClient) :
    wp (expireRequests now) (fun _ c' => Expired c c') (fun _ _ => False) False c := by
  have hloop : ∀ (ids : List RequestId) (c₁ : LanguageClient), Cancelled c c₁ →
      wp (forM ids expireRequest) (fun _ c' => Cancelled c c') (fun _ _ => False) False c₁ := by
    intro ids
    induction ids with
    | nil => exact fun c₁ h => h
    | cons id ids ih =>
      intro c₁ h
      rw [List.forM_cons, wp_bind]
      exact wp_mono (expireRequest_spec id c₁) (fun _ c₂ h' => ih c₂ (h.trans h'))
        (fun _ _ h => h) fun h => h
  simp only [expireRequests, wp_bind, wp_get, wp_pure]
  by_cases hnone : c.requests = .empty
  · simp only [hnone, SortedMap.empty, List.filter_nil, List.map_nil, List.forM_nil, wp_pure]
    exact ⟨.refl c, fun _ => rfl⟩
  · exact wp_mono (hloop _ c (.refl c)) (fun _ c' h => ⟨h, fun he => absurd he hnone⟩)
      (fun _ _ h => h) fun h => h

theorem expireInitialize_spec (now : Duration) (c : LanguageClient) :
    wp (expireInitialize now) (fun _ c' => InitializeExpired c c') (fun _ _ => False) False c := by
  simp only [expireInitialize, wp_bind, wp_get, wp_ite, wp_modify, wp_pure]
  exact ⟨fun hreached => .inr ⟨Option.isSome_of_any hreached, rfl⟩, fun _ => .inl rfl⟩

theorem expireShutdown_spec (now : Duration) (c : LanguageClient) :
    wp (expireShutdown now) (fun _ c' => ShutdownExpired c c') (fun _ _ => False) False c := by
  simp only [expireShutdown, wp_bind, wp_get, wp_ite, wp_modify, wp_pure]
  exact ⟨fun hreached => .inr ⟨Option.isSome_of_any hreached, rfl⟩, fun _ => .inl rfl⟩

theorem wp_beginShutdown {Q : OutboundMessage → LanguageClient → Prop}
    {E : ClientError → LanguageClient → Prop} {P : Prop} {now : Duration} :
    wp (beginShutdown now) Q E P c ↔
      (c.state = .ready ∨ c.state = .degraded →
        (c.ids ≠ -1 →
          (∀ deadline, now.checkedAdd shutdownTimeout = some deadline →
            Q (.shutdown ⟨c.ids + 1⟩) (c.shuttingDown deadline)) ∧
          (now.checkedAdd shutdownTimeout = none → P)) ∧
        (c.ids = -1 → E (.protocol .requestIdExhausted) c.stopping)) ∧
      (¬(c.state = .ready ∨ c.state = .degraded) → E .invalidState c) := by
  simp only [beginShutdown, wp_bind, wp_get, wp_ensure, wp_modify, wp_nextId, wp_orPanic, wp_pure]
  rfl

theorem expireIdle_spec (now : Duration) (c : LanguageClient) :
    wp (expireIdle now) (fun _ c' => IdleExpired c c') (fun _ _ => False) True c := by
  have hroom : ∀ deadline, room (shuttingDown { c with idleDeadline := none } deadline) = c.room :=
    fun _ => rfl
  simp only [expireIdle, wp_bind, wp_get, wp_ite, wp_modify, wp_attempt, wp_beginShutdown, wp_pure,
    wp_pushOutbound, hroom]
  refine ⟨fun hidle => ⟨fun hactive => ⟨fun hids => ⟨fun deadline _ => ⟨fun hpos => ?_,
    fun hfull => ?_⟩, fun _ => trivial⟩, fun hexhausted => ?_⟩, fun hinactive => ?_⟩, fun _ => .not⟩
  · exact ⟨fun _ => .shutdown deadline hidle.1 hpos, fun hnot => absurd rfl hnot⟩
  · exact ⟨fun hok => absurd hok (by decide), fun _ => .full deadline hidle.1⟩
  · exact .exhausted hidle.1
  · exact absurd (.inl hidle.1) hinactive

theorem pollTimeouts_spec (now : Duration) (c : LanguageClient) :
    wp (pollTimeouts now) (fun _ c' => Polled c c') (fun _ _ => False) True c := by
  simp only [pollTimeouts, wp_bind, wp_pure]
  refine wp_mono (expireInitialize_spec now c) (fun _ c₁ h₁ => ?_) (fun _ _ h => h) False.elim
  refine wp_mono (expireRequests_spec now c₁) (fun _ c₂ h₂ => ?_) (fun _ _ h => h) False.elim
  refine wp_mono (expireShutdown_spec now c₂) (fun _ c₃ h₃ => ?_) (fun _ _ h => h) False.elim
  exact wp_mono (expireIdle_spec now c₃) (fun _ c' h₄ => ⟨c₁, c₂, c₃, h₁, h₂, h₃, h₄⟩)
    (fun _ _ h => h) fun h => h

/-! ## What an operation does -/

namespace ClientOp

/-- The state that an accepted operation leaves. -/
def Done (c c' : LanguageClient) : ClientOp → Prop
  | .start _ =>
    (c.state = .stopped ∨ c.state = .restarting) ∧ c.ids ≠ -1 ∧ ∃ deadline, c' = c.started deadline
  | .acceptInitialize id capabilities =>
    c.state = .starting ∧ c.initializeId = some id ∧ 0 < c.room ∧
      c' = (c.accepted capabilities).queue [.initialized]
  | .rejectInitialize _ | .failProtocol => c' = c.ended .failed
  | .didOpen document revision text =>
    c.state = .ready ∧ 0 < c.room ∧
      c' = (c.opened document revision).queue [.didOpen document c.descriptorId revision text]
  | .didSave document =>
    c.state = .ready ∧ document ∈ c.documents.keys ∧
      (c' = c ∨ 0 < c.room ∧ c' = c.queue [.didSave document])
  | .didClose document _ order =>
    c.state = .ready ∧ document ∈ c.documents.keys ∧
      (order.order (c.requestsOf document)).length < c.room ∧ ∃ idleDeadline,
        c' =
          { ((c.closed document).invalidated (order.order (c.requestsOf document))).queue
              [.didClose document] with
            idleDeadline }
  | .didChange document revision text _ order =>
    c.state = .ready ∧ (∃ known, c.documents.get? document = some known ∧ known < revision) ∧
      (order.order (c.requestsOf document)).length ≤ c.room ∧ ∃ due,
        c' = (c.changed document ⟨revision, text, due⟩).invalidated
          (order.order (c.requestsOf document))
  | .flushChanges now => c' = c.flushed (c.due now)
  | .requestFeature kind document revision position _ order =>
    c.state = .ready ∧ c.documents.get? document = some revision ∧
      (c.replaced kind document order).length < c.room ∧ ∃ request,
        c' =
          { (c.invalidated (c.replaced kind document order)).queue
              [.feature ⟨c.ids + 1⟩ kind document position] with
            ids := c.ids + 1
            requests := (c.invalidated (c.replaced kind document order)).requests.insert
              ⟨c.ids + 1⟩ request }
  | .acceptFeatureResponse request => c' = { c with requests := c.requests.remove request.id }
  | .restartGeneration => c' = c.ended .restarting
  | .processExited _ => ∃ crashTimes state,
    (state = .restarting ∨ state = .failed) ∧ c' = { c.ended state with crashTimes }
  | .beginShutdown _ =>
    (c.state = .ready ∨ c.state = .degraded) ∧ ∃ deadline, c' = c.shuttingDown deadline
  | .acceptShutdown id =>
    c.state = .stopping ∧ c.shutdownId = some id ∧ 0 < c.room ∧
      c' = queue { c with shutdownId := none, shutdownDeadline := none } [.exit]
  | .finishShutdown => c' = c.finished
  | .pollTimeouts _ => Polled c c'
  | .takeOutbound => c' = { c with outbound := c.outbound.tail }

/-- The state that a failed operation leaves: often not the one that it found. -/
def Failed (c c' : LanguageClient) : ClientOp → Prop
  | .start _ =>
    c' = c ∨ (c.state = .stopped ∨ c.state = .restarting) ∧ c.ids = -1 ∧ c' = c.starting
  | .acceptInitialize id capabilities =>
    c' = c ∨ c.state = .starting ∧ c.initializeId = some id ∧ c.room = 0 ∧
      c' = c.accepted capabilities
  | .didOpen document revision _ =>
    c' = c ∨ c.state = .ready ∧ c.room = 0 ∧ c' = c.opened document revision
  | .didClose document _ order =>
    c' = c ∨ c.state = .ready ∧ document ∈ c.documents.keys ∧
      c' = (c.closed document).invalidated (order.order (c.requestsOf document))
  | .didChange document revision text _ order =>
    c' = c ∨ c.state = .ready ∧
      (∃ known, c.documents.get? document = some known ∧ known < revision) ∧ ∃ due,
        c' = (c.changed document ⟨revision, text, due⟩).invalidated
          (order.order (c.requestsOf document))
  | .requestFeature kind document revision _ _ order =>
    c' = c ∨ c.state = .ready ∧ c.documents.get? document = some revision ∧ ∃ ids,
      c' = { c.invalidated (c.replaced kind document order) with ids }
  | .beginShutdown _ => c' = c ∨ (c.state = .ready ∨ c.state = .degraded) ∧ c' = c.stopping
  | .acceptShutdown _ =>
    c' = c ∨ c.state = .stopping ∧ c' = { c with shutdownId := none, shutdownDeadline := none }
  | _ => c' = c

theorem run_spec (op : ClientOp) (c : LanguageClient) :
    wp op.run (fun _ c' => op.Done c c') (fun _ c' => op.Failed c c') True c := by
  cases op with
  | start now =>
    simp only [run, LanguageClient.start, wp_discard, wp_bind, wp_get, wp_ensure, wp_modify,
      wp_nextId, wp_orPanic, wp_pure]
    refine ⟨fun hstate => ⟨fun hids => ⟨fun deadline _ => ⟨hstate, hids, deadline, rfl⟩,
      fun _ => trivial⟩, fun hids => .inr ⟨hstate, hids, rfl⟩⟩, fun _ => .inl rfl⟩
  | acceptInitialize id capabilities =>
    simp only [run, LanguageClient.acceptInitialize, wp_bind, wp_get, wp_ensure, wp_modify,
      wp_pushOutbound]
    exact ⟨fun h => ⟨fun hroom => ⟨h.1, h.2, hroom, rfl⟩, fun hroom => .inr ⟨h.1, h.2, hroom, rfl⟩⟩,
      fun _ => .inl rfl⟩
  | rejectInitialize id =>
    simp only [run, LanguageClient.rejectInitialize, failActiveGeneration, wp_bind, wp_get,
      wp_ensure, wp_modify]
    exact ⟨fun _ => rfl, fun _ => rfl⟩
  | failProtocol => exact wp_modify.mpr rfl
  | didOpen document revision text =>
    simp only [run, LanguageClient.didOpen, wp_bind, wp_ensureReady, wp_modify, wp_get,
      wp_pushOutbound]
    exact ⟨fun h => ⟨fun hroom => ⟨h, hroom, rfl⟩, fun hroom => .inr ⟨h, hroom, rfl⟩⟩,
      fun _ => .inl rfl⟩
  | didSave document =>
    simp only [run, LanguageClient.didSave, wp_bind, wp_ensureReady, wp_get, wp_ensure, wp_ite,
      wp_pushOutbound, wp_pure, SortedMap.containsKey_iff]
    exact ⟨fun h => ⟨fun hknown => ⟨fun _ => ⟨fun hroom => ⟨h, hknown, .inr ⟨hroom, rfl⟩⟩,
      fun _ => rfl⟩, fun _ => ⟨h, hknown, .inl rfl⟩⟩, fun _ => rfl⟩, fun _ => rfl⟩
  | didClose document now order =>
    simp only [run, LanguageClient.didClose, wp_bind, wp_ensureReady, wp_get, wp_discard, wp_okOr,
      wp_modify, wp_invalidateDocumentRequests, wp_pushOutbound, wp_ite, wp_orPanic, wp_pure]
    refine ⟨fun h => ⟨fun revision hknown => ?_, fun _ => .inl rfl⟩, fun _ => .inl rfl⟩
    have hmem := SortedMap.mem_keys_of_get? hknown
    refine ⟨fun hfits => ?_, fun _ => .inr ⟨h, hmem, rfl⟩⟩
    have hroom : ((c.closed document).invalidated (order.order (c.requestsOf document))).room =
        c.room - (order.order (c.requestsOf document)).length := room_invalidated hfits
    refine ⟨fun hpos => ?_, fun _ => .inr ⟨h, hmem, rfl⟩⟩
    have hlt : (order.order (c.requestsOf document)).length < c.room :=
      Nat.lt_of_sub_pos (hroom ▸ hpos)
    exact ⟨fun _ => ⟨fun deadline _ => ⟨h, hmem, hlt, _, rfl⟩, fun _ => trivial⟩,
      fun _ => ⟨h, hmem, hlt, _, rfl⟩⟩
  | didChange document revision text now order =>
    simp only [run, LanguageClient.didChange, wp_bind, wp_ensureReady, wp_get, wp_okOr, wp_ensure,
      wp_orPanic, wp_modify, wp_invalidateDocumentRequests]
    refine ⟨fun h => ⟨fun known hknown => ⟨fun hlt => ⟨fun due _ => ?_, fun _ => trivial⟩,
      fun _ => .inl rfl⟩, fun _ => .inl rfl⟩, fun _ => .inl rfl⟩
    exact ⟨fun hfits => ⟨h, ⟨known, hknown, hlt⟩, hfits, due, rfl⟩,
      fun _ => .inr ⟨h, ⟨known, hknown, hlt⟩, due, rfl⟩⟩
  | flushChanges now =>
    rw [run, wp_discard, wp_flushChanges]
    exact rfl
  | requestFeature kind document revision position now order =>
    simp only [run, LanguageClient.requestFeature, wp_discard, wp_bind, wp_ensureReady, wp_get,
      wp_ensure, wp_invalidateFeatureRequest, wp_nextId, wp_orPanic, wp_pushOutbound, wp_modify,
      wp_pure]
    refine ⟨fun h => ⟨fun _ => ⟨fun hknown => ⟨fun _ => ⟨fun hfits => ⟨fun _ => ⟨fun deadline _ => ?_,
      fun _ => trivial⟩, fun _ => .inr ⟨h, hknown, c.ids, rfl⟩⟩,
      fun _ => .inr ⟨h, hknown, c.ids, rfl⟩⟩, fun _ => .inl rfl⟩, fun _ => .inl rfl⟩,
      fun _ => .inl rfl⟩, fun _ => .inl rfl⟩
    have hroom : (c.invalidated (c.replaced kind document order)).room =
        c.room - (c.replaced kind document order).length := room_invalidated hfits
    refine ⟨fun hpos => ⟨h, hknown, Nat.lt_of_sub_pos (hroom ▸ hpos), _, rfl⟩,
      fun _ => .inr ⟨h, hknown, _, rfl⟩⟩
  | acceptFeatureResponse request =>
    simp only [run, LanguageClient.acceptFeatureResponse, wp_discard, wp_bind, wp_get, wp_modify,
      wp_ite, wp_pure]
    exact ⟨fun _ => rfl, fun _ => rfl⟩
  | restartGeneration => exact wp_modify.mpr rfl
  | processExited now =>
    simp only [run, LanguageClient.processExited, LanguageClient.restartGeneration, wp_discard,
      wp_bind, wp_modify, wp_get, wp_ite, wp_pure]
    exact ⟨fun _ => ⟨_, .failed, .inr rfl, rfl⟩, fun _ => ⟨_, .restarting, .inl rfl, rfl⟩⟩
  | beginShutdown now =>
    rw [run, wp_discard, wp_beginShutdown]
    exact ⟨fun h => ⟨fun _ => ⟨fun deadline _ => ⟨h, deadline, rfl⟩, fun _ => trivial⟩,
      fun _ => .inr ⟨h, rfl⟩⟩, fun _ => .inl rfl⟩
  | acceptShutdown id =>
    simp only [run, LanguageClient.acceptShutdown, wp_bind, wp_get, wp_ensure, wp_modify,
      wp_pushOutbound]
    exact ⟨fun h => ⟨fun hroom => ⟨h.1, h.2, hroom, rfl⟩, fun _ => .inr ⟨h.1, rfl⟩⟩,
      fun _ => .inl rfl⟩
  | finishShutdown => exact wp_modify.mpr rfl
  | pollTimeouts now =>
    rw [run, wp_discard]
    exact wp_mono (pollTimeouts_spec now c) (fun _ _ h => h) (fun _ _ h => h.elim) fun h => h
  | takeOutbound =>
    simp only [run, LanguageClient.takeOutbound, wp_discard, wp_bind, wp_get, wp_modify, wp_pure]
    rfl

end ClientOp

/-! ## Settled clients -/

/-- The server is up, and takes messages about documents. -/
def LanguageClient.Active (c : LanguageClient) : Prop := c.state = .ready ∨ c.state = .degraded

structure LanguageClient.Settled (c : LanguageClient) : Prop where
  idle : ¬c.Active → c.pendingChanges = .empty ∧ c.requests = .empty
  initializing : c.initializeDeadline.isSome → c.state = .starting
  shutdown : c.shutdownDeadline.isSome → c.state = .stopping ∨ c.state = .failed
  awaited : c.initializeId.isSome → ¬c.Active ∧ c.state ≠ .stopping

namespace LanguageClient

/-- No deadline waits for a server that is up, apart from those of its requests. -/
theorem Settled.none_of_active (h : c.Settled) (hactive : c.Active) :
    c.initializeDeadline = none ∧ c.shutdownDeadline = none ∧ c.initializeId = none := by
  refine ⟨?_, ?_, ?_⟩
  · by_contra hsome
    have hstate := h.initializing (Option.isSome_iff_ne_none.mpr hsome)
    rcases hactive with hactive | hactive <;> rw [hstate] at hactive <;> cases hactive
  · by_contra hsome
    have hstate := h.shutdown (Option.isSome_iff_ne_none.mpr hsome)
    rcases hactive with hactive | hactive <;> rw [hactive] at hstate <;>
      rcases hstate with hstate | hstate <;> cases hstate
  · by_contra hsome
    exact absurd hactive (h.awaited (Option.isSome_iff_ne_none.mpr hsome)).1

theorem settled_of_none (hidle : ¬c.Active → c.pendingChanges = .empty ∧ c.requests = .empty)
    (hnone : c.initializeDeadline = none ∧ c.shutdownDeadline = none ∧ c.initializeId = none) :
    c.Settled := by
  obtain ⟨hwaiting, hshutdown, hawaited⟩ := hnone
  refine ⟨hidle, fun hsome => ?_, fun hsome => ?_, fun hsome => ?_⟩
  · rw [hwaiting] at hsome; cases hsome
  · rw [hshutdown] at hsome; cases hsome
  · rw [hawaited] at hsome; cases hsome

/-- A ready client stays ready, with its deadlines as they are. -/
theorem Settled.still (h : c.Settled) (hready : c.state = .ready) (hready' : c'.state = .ready)
    (hsame : c'.initializeDeadline = c.initializeDeadline ∧
      c'.shutdownDeadline = c.shutdownDeadline ∧ c'.initializeId = c.initializeId) :
    c'.Settled := by
  obtain ⟨hwaiting, hshutdown, hawaited⟩ := hsame
  refine settled_of_none (fun hidle => absurd (.inl hready') hidle) ?_
  rw [hwaiting, hshutdown, hawaited]
  exact h.none_of_active (.inl hready)

theorem settled_ended {state : LanguageServerState} : (c.ended state).Settled :=
  settled_of_none (fun _ => ⟨rfl, rfl⟩) ⟨rfl, rfl, rfl⟩

/-- A shutdown begins where the server is up, and forgets what is held back or outstanding. -/
theorem Settled.shutdown_of_active (h : c.Settled) (hactive : c.Active)
    (hstate : c'.state = .stopping ∨ c'.state = .failed) (hpending : c'.pendingChanges = .empty)
    (hrequests : c'.requests = .empty) (hwaiting : c'.initializeDeadline = c.initializeDeadline)
    (hawaited : c'.initializeId = c.initializeId) : c'.Settled := by
  obtain ⟨hwaiting', -, hawaited'⟩ := h.none_of_active hactive
  refine ⟨fun _ => ⟨hpending, hrequests⟩, fun hsome => ?_, fun _ => hstate, fun hsome => ?_⟩
  · rw [hwaiting, hwaiting'] at hsome; cases hsome
  · rw [hawaited, hawaited'] at hsome; cases hsome

theorem not_active {state : LanguageServerState} (hstate : c.state = state)
    (hready : state ≠ .ready) (hdegraded : state ≠ .degraded) : ¬c.Active := by
  rintro (hactive | hactive)
  · exact hready (hstate ▸ hactive)
  · exact hdegraded (hstate ▸ hactive)

/-- Where no server is up, a poll queues nothing, and begins no shutdown. -/
theorem Settled.polled_idle (h : c.Settled) (hidle : ¬c.Active) (hp : Polled c c') :
    c'.outbound = c.outbound ∧ (c'.state = .stopping → c.state = .stopping) := by
  obtain ⟨c₁, c₂, c₃, h₁, h₂, h₃, h₄⟩ := hp
  have hc₁ : c₁.requests = .empty ∧ ¬c₁.Active ∧ c₁.outbound = c.outbound ∧
      (c₁.state = .stopping → c.state = .stopping) := by
    obtain rfl | ⟨-, rfl⟩ := h₁
    · exact ⟨(h.idle hidle).2, hidle, rfl, fun hs => hs⟩
    · exact ⟨(h.idle hidle).2, not_active rfl nofun nofun, rfl, nofun⟩
  obtain ⟨hempty, hidle₁, houtbound, hstopping⟩ := hc₁
  obtain rfl := h₂.none hempty
  have hc₃ : ¬c₃.Active ∧ c₃.outbound = c₂.outbound ∧
      (c₃.state = .stopping → c₂.state = .stopping) := by
    obtain rfl | ⟨-, rfl⟩ := h₃
    · exact ⟨hidle₁, rfl, fun hs => hs⟩
    · exact ⟨not_active rfl nofun nofun, rfl, nofun⟩
  cases h₄ with
  | not => exact ⟨hc₃.2.1.trans houtbound, fun hs => hstopping (hc₃.2.2 hs)⟩
  | shutdown _ hready _ => exact absurd (.inl hready) hc₃.1
  | full _ hready => exact absurd (.inl hready) hc₃.1
  | exhausted hready => exact absurd (.inl hready) hc₃.1

/-- Cancellations and shutdown requests are queued, and nothing else happens to the documents; the
held changes stay where the server stays up. -/
structure Fewer (c c' : LanguageClient) : Prop where
  outbound : ∃ ms, c'.outbound = c.outbound ++ ms ∧
    ∀ m ∈ ms, ∃ id, m = .cancelRequest id ∨ m = .shutdown id
  documents : c'.documents = c.documents
  pending : c'.pendingChanges = c.pendingChanges ∨ c'.pendingChanges = .empty ∧ ¬c'.Active
  active : c'.Active → c.Active
  awaited : c'.initializeId = c.initializeId ∨ c'.initializeId = none

theorem Fewer.refl (c : LanguageClient) : Fewer c c :=
  ⟨⟨[], by simp, nofun⟩, rfl, .inl rfl, fun h => h, .inl rfl⟩

theorem Fewer.trans {c'' : LanguageClient} (h : Fewer c c') (h' : Fewer c' c'') :
    Fewer c c'' := by
  obtain ⟨ms, hms, hin⟩ := h.outbound
  obtain ⟨ms', hms', hin'⟩ := h'.outbound
  refine ⟨⟨ms ++ ms', ?_, fun m hm => ?_⟩, h'.documents.trans h.documents, ?_,
    fun ha => h.active (h'.active ha), ?_⟩
  · rw [hms', hms, List.append_assoc]
  · exact (List.mem_append.mp hm).elim (hin m) (hin' m)
  · obtain hp' | hp' := h'.pending
    · obtain hp | ⟨hp, hidle⟩ := h.pending
      · exact .inl (hp'.trans hp)
      · exact .inr ⟨hp'.trans hp, fun ha => hidle (h'.active ha)⟩
    · exact .inr hp'
  · obtain ha' | ha' := h'.awaited
    · rw [ha']
      exact h.awaited
    · exact .inr ha'

theorem Polled.fewer (h : Polled c c') : Fewer c c' := by
  obtain ⟨c₁, c₂, c₃, h₁, h₂, h₃, h₄⟩ := h
  have hf₁ : Fewer c c₁ := by
    obtain rfl | ⟨-, rfl⟩ := h₁
    · exact .refl _
    · exact ⟨⟨[], by simp, nofun⟩, rfl, .inl rfl, fun ha => absurd ha (not_active rfl nofun nofun),
        .inr rfl⟩
  have hf₂ : Fewer c₁ c₂ := by
    obtain ⟨state, requests, cancels, rfl, hcancels, -, hstate⟩ := h₂.cancelled
    refine ⟨⟨cancels, rfl, fun m hm => ?_⟩, rfl, .inl rfl, fun ha => ?_, .inl rfl⟩
    · obtain ⟨id, rfl⟩ := hcancels m hm
      exact ⟨id, .inl rfl⟩
    · obtain rfl | ⟨hready, -⟩ := hstate
      · exact ha
      · exact .inl hready
  have hf₃ : Fewer c₂ c₃ := by
    obtain rfl | ⟨-, rfl⟩ := h₃
    · exact .refl _
    · exact ⟨⟨[], by simp, nofun⟩, rfl, .inl rfl, fun ha => absurd ha (not_active rfl nofun nofun),
        .inl rfl⟩
  refine hf₁.trans (hf₂.trans (hf₃.trans ?_))
  cases h₄ with
  | not => exact .refl _
  | shutdown deadline hready _ =>
    exact ⟨⟨[.shutdown ⟨c₃.ids + 1⟩], rfl, fun m hm => ⟨_, .inr (List.mem_singleton.mp hm)⟩⟩, rfl,
      .inr ⟨rfl, not_active rfl nofun nofun⟩, fun _ => .inl hready, .inl rfl⟩
  | full deadline hready =>
    exact ⟨⟨[], (List.append_nil _).symm, nofun⟩, rfl, .inr ⟨rfl, not_active rfl nofun nofun⟩,
      fun _ => .inl hready, .inl rfl⟩
  | exhausted hready =>
    exact ⟨⟨[], (List.append_nil _).symm, nofun⟩, rfl, .inr ⟨rfl, not_active rfl nofun nofun⟩,
      fun _ => .inl hready, .inl rfl⟩

theorem Settled.polled (h : c.Settled) (hp : Polled c c') : c'.Settled := by
  obtain ⟨c₁, c₂, c₃, h₁, h₂, h₃, h₄⟩ := hp
  have hs₁ : c₁.Settled := by
    obtain rfl | ⟨hsome, rfl⟩ := h₁
    · exact h
    · have hstate := h.initializing hsome
      have hidle : ¬c.Active := not_active hstate nofun nofun
      exact ⟨fun _ => h.idle hidle, nofun, fun _ => .inr rfl, nofun⟩
  have hs₂ : c₂.Settled := by
    obtain ⟨state, requests, cancels, rfl, -, hrequests, hstate⟩ := h₂.cancelled
    obtain rfl | ⟨hready, rfl⟩ := hstate
    · refine ⟨fun hidle => ?_, hs₁.initializing, hs₁.shutdown, hs₁.awaited⟩
      obtain ⟨hpending, hempty⟩ := hs₁.idle hidle
      refine ⟨hpending, SortedMap.ext_get? fun id => ?_⟩
      cases hget : requests.get? id with
      | none => rfl
      | some r =>
        have := hrequests id r hget
        rw [hempty] at this
        cases this
    · exact settled_of_none (fun hidle => absurd (.inr rfl) hidle)
        (hs₁.none_of_active (.inl hready))
  have hs₃ : c₃.Settled := by
    obtain rfl | ⟨hsome, rfl⟩ := h₃
    · exact hs₂
    · have hstate := hs₂.shutdown hsome
      have hidle : ¬c₂.Active :=
        hstate.elim (not_active · nofun nofun) (not_active · nofun nofun)
      refine ⟨fun _ => hs₂.idle hidle, fun hdeadline => ?_, nofun,
        fun _ => ⟨not_active rfl nofun nofun, nofun⟩⟩
      · have hstarting := hs₂.initializing hdeadline
        rw [hstarting] at hstate
        rcases hstate with hstate | hstate <;> cases hstate
  cases h₄ with
  | not => exact hs₃
  | shutdown deadline hready _ => exact hs₃.shutdown_of_active (.inl hready) (.inl rfl) rfl rfl rfl rfl
  | full deadline hready => exact hs₃.shutdown_of_active (.inl hready) (.inr rfl) rfl rfl rfl rfl
  | exhausted hready => exact hs₃.shutdown_of_active (.inl hready) (.inr rfl) rfl rfl rfl rfl

theorem Settled.starting (h : c.Settled)
    (hstate : c.state = .stopped ∨ c.state = .restarting) : c.starting.Settled := by
  have hidle : ¬c.Active := hstate.elim (not_active · nofun nofun) (not_active · nofun nofun)
  refine ⟨fun _ => h.idle hidle, fun _ => rfl, fun hsome => ?_,
    fun _ => ⟨not_active rfl nofun nofun, nofun⟩⟩
  have hstate' := h.shutdown hsome
  rcases hstate with hstate | hstate <;> rw [hstate] at hstate' <;>
    rcases hstate' with hstate' | hstate' <;> cases hstate'

theorem Settled.started {deadline : Duration} (h : c.Settled)
    (hstate : c.state = .stopped ∨ c.state = .restarting) : (c.started deadline).Settled := by
  have hs := h.starting hstate
  exact ⟨hs.idle, fun _ => rfl, hs.shutdown, fun _ => ⟨not_active rfl nofun nofun, nofun⟩⟩

theorem Settled.accepted {capabilities : ServerCapabilities} (h : c.Settled)
    (hstate : c.state = .starting) : (c.accepted capabilities).Settled := by
  refine settled_of_none (fun hidle => absurd (.inl rfl) hidle) ⟨rfl, ?_, rfl⟩
  by_contra hsome
  have hstate' := h.shutdown (Option.isSome_iff_ne_none.mpr hsome)
  rw [hstate] at hstate'
  rcases hstate' with hstate' | hstate' <;> cases hstate'

end LanguageClient

open LanguageClient

theorem ClientOp.Done.settled {op : ClientOp} (hd : op.Done c c') (h : c.Settled) :
    c'.Settled := by
  cases op with
  | start now =>
    obtain ⟨hstate, -, deadline, rfl⟩ := hd
    exact h.started hstate
  | acceptInitialize id capabilities =>
    obtain ⟨hstate, -, -, rfl⟩ := hd
    obtain ⟨hidle, hinitializing, hshutdown, hawaited⟩ :=
      @Settled.accepted _ capabilities h hstate
    exact ⟨hidle, hinitializing, hshutdown, hawaited⟩
  | rejectInitialize | failProtocol | restartGeneration =>
    obtain rfl := hd
    exact settled_ended
  | processExited now =>
    obtain ⟨crashTimes, state, -, rfl⟩ := hd
    obtain ⟨hidle, hinitializing, hshutdown, hawaited⟩ := @settled_ended c state
    exact ⟨hidle, hinitializing, hshutdown, hawaited⟩
  | finishShutdown =>
    obtain rfl := hd
    exact ⟨fun _ => ⟨rfl, rfl⟩, nofun, nofun, fun _ => ⟨not_active rfl nofun nofun, nofun⟩⟩
  | didOpen document revision text =>
    obtain ⟨hready, -, rfl⟩ := hd
    exact h.still hready hready ⟨rfl, rfl, rfl⟩
  | didClose document now order =>
    obtain ⟨hready, -, -, _, rfl⟩ := hd
    exact h.still hready hready ⟨rfl, rfl, rfl⟩
  | didChange document revision text now order =>
    obtain ⟨hready, -, -, _, rfl⟩ := hd
    exact h.still hready hready ⟨rfl, rfl, rfl⟩
  | requestFeature kind document revision position now order =>
    obtain ⟨hready, -, -, _, rfl⟩ := hd
    exact h.still hready hready ⟨rfl, rfl, rfl⟩
  | didSave document =>
    obtain ⟨-, -, rfl | ⟨-, rfl⟩⟩ := hd
    · exact h
    · exact ⟨h.idle, h.initializing, h.shutdown, h.awaited⟩
  | flushChanges now =>
    obtain rfl := hd
    refine ⟨fun hidle => ?_, h.initializing, h.shutdown, h.awaited⟩
    obtain ⟨hpending, hrequests⟩ := h.idle hidle
    refine ⟨SortedMap.ext_get? fun d => ?_, hrequests⟩
    simp [flushed, hpending]
  | acceptFeatureResponse request =>
    obtain rfl := hd
    refine ⟨fun hidle => ?_, h.initializing, h.shutdown, h.awaited⟩
    obtain ⟨hpending, hrequests⟩ := h.idle hidle
    refine ⟨hpending, SortedMap.ext_get? fun id => ?_⟩
    simp [hrequests]
  | beginShutdown now =>
    obtain ⟨hactive, deadline, rfl⟩ := hd
    exact h.shutdown_of_active hactive (.inl rfl) rfl rfl rfl rfl
  | acceptShutdown id =>
    obtain ⟨hstate, -, -, rfl⟩ := hd
    exact ⟨h.idle, h.initializing, nofun, h.awaited⟩
  | pollTimeouts now => exact h.polled hd
  | takeOutbound =>
    obtain rfl := hd
    exact ⟨h.idle, h.initializing, h.shutdown, h.awaited⟩

theorem ClientOp.Failed.settled {op : ClientOp} (hf : op.Failed c c') (h : c.Settled) :
    c'.Settled := by
  cases op with
  | start now =>
    obtain rfl | ⟨hstate, -, rfl⟩ := hf
    · exact h
    · exact h.starting hstate
  | acceptInitialize id capabilities =>
    obtain rfl | ⟨hstate, -, -, rfl⟩ := hf
    · exact h
    · exact h.accepted hstate
  | didOpen document revision text =>
    obtain rfl | ⟨hready, -, rfl⟩ := hf
    · exact h
    · exact h.still hready hready ⟨rfl, rfl, rfl⟩
  | didClose document now order =>
    obtain rfl | ⟨hready, -, rfl⟩ := hf
    · exact h
    · exact h.still hready hready ⟨rfl, rfl, rfl⟩
  | didChange document revision text now order =>
    obtain rfl | ⟨hready, -, _, rfl⟩ := hf
    · exact h
    · exact h.still hready hready ⟨rfl, rfl, rfl⟩
  | requestFeature kind document revision position now order =>
    obtain rfl | ⟨hready, -, _, rfl⟩ := hf
    · exact h
    · exact h.still hready hready ⟨rfl, rfl, rfl⟩
  | beginShutdown now =>
    obtain rfl | ⟨hactive, rfl⟩ := hf
    · exact h
    · exact h.shutdown_of_active hactive (.inl rfl) rfl rfl rfl rfl
  | acceptShutdown id =>
    obtain rfl | ⟨-, rfl⟩ := hf
    · exact h
    · exact ⟨h.idle, h.initializing, nofun, h.awaited⟩
  | rejectInitialize | failProtocol | didSave | flushChanges | acceptFeatureResponse
  | restartGeneration | processExited | finishShutdown | pollTimeouts | takeOutbound =>
    obtain rfl := hf
    exact h

end Strukt.Language
