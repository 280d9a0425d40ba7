import Strukt.Language.ClientSpec
import Strukt.Lib.Runs

/-!
# The responses to feature requests

`Responses` is a language client with the requests that it returned so far (`issued`) and those that
no response may be applied for any more (`closed`): answered, superseded, cancelled or timed out
ones, those of a document that was edited or closed, and those of a server process that ended.

* **Requests that go** (`Expelled`): the client keeps some of its requests, and cancels none that it
  keeps.
* **Open requests** (`Tracked`): what the client keeps was issued and is not closed, each under an
  identifier of its own, one for each kind and document.
* **The law** (`response_law`): in every run, a response is applied in a ready client only, for a
  request of its generation that is not closed, with its document at its revision; and never again.
-/

namespace Strukt.Language

open Method LanguageClient

variable {c c' c'' : LanguageClient} {gone : List RequestId} {op : ClientOp}

/-! ## Requests that go -/

/-- The client keeps requests that are not gone, and those that it cancels are. -/
structure Expelled (c c' : LanguageClient) (gone : List RequestId) : Prop where
  requests : ∀ id r, c'.requests.get? id = some r → c.requests.get? id = some r ∧ id ∉ gone
  cancels : ∀ id, .cancelRequest id ∈ newlyQueued c c' → id ∈ gone
  ids : c.ids.toNat ≤ c'.ids.toNat

theorem not_mem_of_nil {c c' : LanguageClient} (h : c'.outbound.length ≤ c.outbound.length)
    (id : RequestId) : .cancelRequest id ∈ newlyQueued c c' → id ∈ gone := by
  rw [newlyQueued_of_le h]
  exact fun hmem => nomatch hmem

/-- Nothing goes where only other messages are queued. -/
theorem expelled_of_queued {ms : List OutboundMessage} (hrequests : c'.requests = c.requests)
    (houtbound : c'.outbound = c.outbound ++ ms) (hms : ∀ id, .cancelRequest id ∉ ms)
    (hids : c.ids.toNat ≤ c'.ids.toNat) : Expelled c c' [] := by
  refine ⟨fun id r hr => ⟨hrequests ▸ hr, List.not_mem_nil⟩, fun id hmem => ?_, hids⟩
  rw [newlyQueued_eq houtbound] at hmem
  exact absurd hmem (hms id)

/-- Everything goes at the end of a server process. -/
theorem expelled_of_empty (hrequests : c'.requests = .empty)
    (houtbound : c'.outbound.length ≤ c.outbound.length) (hids : c.ids.toNat ≤ c'.ids.toNat) :
    Expelled c c' [] := by
  refine ⟨fun id r hr => ?_, not_mem_of_nil houtbound, hids⟩
  rw [hrequests] at hr
  cases hr

theorem expelled_of_same (hrequests : c'.requests = c.requests)
    (houtbound : c'.outbound = c.outbound) (hids : c.ids.toNat ≤ c'.ids.toNat) :
    Expelled c c' [] :=
  expelled_of_queued hrequests (houtbound.trans (List.append_nil _).symm)
    (fun _ => List.not_mem_nil) hids

theorem expelled_self (c : LanguageClient) : Expelled c c [] :=
  expelled_of_same rfl rfl (Nat.le_refl _)

theorem expelled_of_invalidated {ids : List RequestId} {ms : List OutboundMessage}
    (hrequests : c'.requests = (c.invalidated ids).requests)
    (houtbound : c'.outbound = (c.invalidated ids).outbound ++ ms)
    (hms : ∀ id, .cancelRequest id ∉ ms) (hids : c.ids.toNat ≤ c'.ids.toNat) :
    Expelled c c' (ids.take (c.room + 1)) := by
  refine ⟨fun id r hr => ?_, fun id hmem => ?_, hids⟩
  · rw [hrequests, invalidated, SortedMap.get?_filterKeys] at hr
    split at hr
    · next hnot => exact ⟨hr, of_decide_eq_true hnot⟩
    · cases hr
  · rw [newlyQueued_eq (houtbound.trans (List.append_assoc ..)), List.mem_append] at hmem
    obtain hmem | hmem := hmem
    · obtain ⟨id', hid, heq⟩ := List.mem_map.mp hmem
      cases heq
      exact (List.take_sublist_take_left (Nat.le_succ _)).subset hid
    · exact absurd hmem (hms id)

theorem toNat_add_one {n : UInt64} (h : n ≠ -1) : (n + 1).toNat = n.toNat + 1 := by
  have hlt : n.toNat < u64Max := by
    have := toNat_le_u64Max n
    have hne : n.toNat ≠ u64Max := fun he => h (UInt64.toNat_inj.mp he)
    omega
  have := toNat_satSucc_of_lt hlt
  rwa [UInt64.satSucc, if_neg h] at this

/-! ## Polls -/

/-- A part of a poll: what it reports is gone, and it queues behind what is queued. -/
def Polling (c : LanguageClient) (timeouts : List ClientTimeout) (c' : LanguageClient) : Prop :=
  ∃ (gone : List RequestId) (ms : List OutboundMessage),
    (∀ id r, c'.requests.get? id = some r → c.requests.get? id = some r ∧ id ∉ gone) ∧
    c'.outbound = c.outbound ++ ms ∧ (∀ id, .cancelRequest id ∈ ms → id ∈ gone) ∧
    (∀ id, .request id ∈ timeouts → id ∈ gone) ∧ c.ids.toNat ≤ c'.ids.toNat

theorem Polling.trans {timeouts timeouts' : List ClientTimeout} (h : Polling c timeouts c')
    (h' : Polling c' timeouts' c'') : Polling c (timeouts ++ timeouts') c'' := by
  obtain ⟨gone, ms, hrequests, houtbound, hms, htimeouts, hids⟩ := h
  obtain ⟨gone', ms', hrequests', houtbound', hms', htimeouts', hids'⟩ := h'
  refine ⟨gone ++ gone', ms ++ ms', fun id r hr => ?_, ?_, fun id hid => ?_, fun id hid => ?_,
    hids.trans hids'⟩
  · obtain ⟨hr', hnot'⟩ := hrequests' id r hr
    obtain ⟨hr, hnot⟩ := hrequests id r hr'
    exact ⟨hr, fun hmem => (List.mem_append.mp hmem).elim hnot hnot'⟩
  · rw [houtbound', houtbound, List.append_assoc]
  · exact List.mem_append.mpr ((List.mem_append.mp hid).imp (hms id) (hms' id))
  · exact List.mem_append.mpr ((List.mem_append.mp hid).imp (htimeouts id) (htimeouts' id))

/-- A part that times no request out, and cancels none. -/
theorem polling_of_queued {timeouts : List ClientTimeout} {ms : List OutboundMessage}
    (hrequests : ∀ id r, c'.requests.get? id = some r → c.requests.get? id = some r)
    (houtbound : c'.outbound = c.outbound ++ ms) (hms : ∀ id, .cancelRequest id ∉ ms)
    (htimeouts : ∀ id, .request id ∉ timeouts) (hids : c.ids.toNat ≤ c'.ids.toNat) :
    Polling c timeouts c' :=
  ⟨[], ms, fun id r hr => ⟨hrequests id r hr, List.not_mem_nil⟩, houtbound,
    fun id hid => absurd hid (hms id), fun id hid => absurd hid (htimeouts id), hids⟩

/-- A part that leaves the queue as it is, too. -/
theorem polling_of_still {timeouts : List ClientTimeout}
    (hrequests : ∀ id r, c'.requests.get? id = some r → c.requests.get? id = some r)
    (houtbound : c'.outbound = c.outbound) (htimeouts : ∀ id, .request id ∉ timeouts)
    (hids : c.ids.toNat ≤ c'.ids.toNat) : Polling c timeouts c' :=
  polling_of_queued hrequests (houtbound.trans (List.append_nil _).symm)
    (fun _ => List.not_mem_nil) htimeouts hids

theorem polling_expireInitialize (now : Duration) (c : LanguageClient) :
    wp (expireInitialize now) (fun timeouts c' => Polling c timeouts c') (fun _ _ => False) False
      c := by
  simp only [expireInitialize, wp_bind, wp_get, wp_ite, wp_modify, wp_pure]
  exact ⟨fun _ => polling_of_still (fun _ _ hr => hr) rfl (by simp) (Nat.le_refl _),
    fun _ => polling_of_still (fun _ _ hr => hr) rfl (by simp) (Nat.le_refl _)⟩

theorem polling_expireShutdown (now : Duration) (c : LanguageClient) :
    wp (expireShutdown now) (fun timeouts c' => Polling c timeouts c') (fun _ _ => False) False
      c := by
  simp only [expireShutdown, wp_bind, wp_get, wp_ite, wp_modify, wp_pure]
  exact ⟨fun _ => polling_of_still (fun _ _ hr => hr) rfl (by simp) (Nat.le_refl _),
    fun _ => polling_of_still (fun _ _ hr => hr) rfl (by simp) (Nat.le_refl _)⟩

theorem polling_expireRequest (id : RequestId) (c : LanguageClient) :
    wp (expireRequest id) (fun _ c' => Polling c [.request id] c') (fun _ _ => False) False c := by
  have hrequests : ∀ k r, (c.requests.remove id).get? k = some r →
      c.requests.get? k = some r ∧ k ∉ [id] := by
    intro k r hr
    rw [SortedMap.get?_remove] at hr
    split at hr
    · cases hr
    · next hne => exact ⟨hr, fun hk => hne (List.mem_singleton.mp hk)⟩
  have hqueued : Polling c [.request id]
      (queue { c with requests := c.requests.remove id } [.cancelRequest id]) :=
    ⟨[id], [.cancelRequest id], hrequests, rfl, by simp, by simp, Nat.le_refl _⟩
  have hfull : ∀ state, Polling c [.request id]
      { c with requests := c.requests.remove id, state } := fun state =>
    ⟨[id], [], hrequests, (List.append_nil _).symm, by simp, by simp, Nat.le_refl _⟩
  simp only [expireRequest, pushCancel, wp_bind, wp_modify, wp_attempt, wp_pushOutbound, wp_get,
    wp_ite, wp_pure]
  exact ⟨fun _ => ⟨fun h => absurd h.1 (by decide), fun _ => hqueued⟩,
    fun _ => ⟨fun _ => hfull .degraded, fun _ => hfull c.state⟩⟩

theorem polling_expireRequests (now : Duration) (c : LanguageClient) :
    wp (expireRequests now) (fun timeouts c' => Polling c timeouts c') (fun _ _ => False) False
      c := by
  have hloop : ∀ (ids : List RequestId) (c : LanguageClient),
      wp (forM ids expireRequest) (fun _ c' => Polling c (ids.map .request) c')
        (fun _ _ => False) False c := by
    intro ids
    induction ids with
    | nil =>
      exact fun c => polling_of_still (fun _ _ hr => hr) rfl (by simp) (Nat.le_refl _)
    | cons id ids ih =>
      intro c
      rw [List.forM_cons, wp_bind]
      exact wp_mono (polling_expireRequest id c)
        (fun _ c₁ h₁ => wp_mono (ih c₁) (fun _ c₂ h₂ => h₁.trans h₂) (fun _ _ h => h) fun h => h)
        (fun _ _ h => h) fun h => h
  simp only [expireRequests, wp_bind, wp_get, wp_pure]
  exact hloop _ c

theorem polling_expireIdle (now : Duration) (c : LanguageClient) :
    wp (expireIdle now) (fun timeouts c' => Polling c timeouts c') (fun _ _ => False) True c := by
  have hempty : ∀ id r, (SortedMap.empty : SortedMap RequestId FeatureRequest).get? id = some r →
      c.requests.get? id = some r := fun id r hr => nomatch hr
  simp only [expireIdle, wp_bind, wp_get, wp_ite, wp_modify, wp_attempt, wp_beginShutdown, wp_pure,
    wp_pushOutbound]
  refine ⟨fun hidle => ⟨fun hactive => ⟨fun hids => ⟨fun deadline _ => ?_, fun _ => trivial⟩,
    fun _ => ?_⟩, fun hinactive => absurd (.inl hidle.1) hinactive⟩, fun _ => ?_⟩
  · have hle : c.ids.toNat ≤ (c.ids + 1).toNat := by
      rw [toNat_add_one hids]
      exact Nat.le_succ _
    refine ⟨fun _ => ⟨fun _ => ?_, fun hnot => absurd rfl hnot⟩,
      fun _ => ⟨fun h => absurd h (by decide), fun _ => ?_⟩⟩
    · exact polling_of_queued hempty rfl (by simp) (by simp) hle
    · exact polling_of_still hempty rfl (by simp) hle
  · exact polling_of_still hempty rfl (by simp) (Nat.le_refl _)
  · exact polling_of_still (fun _ _ hr => hr) rfl (by simp) (Nat.le_refl _)

theorem polling_pollTimeouts (now : Duration) (c : LanguageClient) :
    wp (pollTimeouts now) (fun timeouts c' => Polling c timeouts c') (fun _ _ => False) True c := by
  simp only [pollTimeouts, wp_bind, wp_pure]
  refine wp_mono (polling_expireInitialize now c) (fun _ c₁ h₁ => ?_) (fun _ _ h => h) False.elim
  refine wp_mono (polling_expireRequests now c₁) (fun _ c₂ h₂ => ?_) (fun _ _ h => h) False.elim
  refine wp_mono (polling_expireShutdown now c₂) (fun _ c₃ h₃ => ?_) (fun _ _ h => h) False.elim
  exact wp_mono (polling_expireIdle now c₃) (fun _ _ h₄ => ((h₁.trans h₂).trans h₃).trans h₄)
    (fun _ _ h => h) fun h => h

/-! ## Operations -/

/-- What an accepted operation other than a request or a poll closes: everything, where a server
process starts or ends, or what its document or its response is of. -/
def ClientOp.closes : ClientOp → FeatureRequest → Bool
  | .start _, _ => true
  | .rejectInitialize _, _ => true
  | .failProtocol, _ => true
  | .restartGeneration, _ => true
  | .processExited _, _ => true
  | .beginShutdown _, _ => true
  | .finishShutdown, _ => true
  | .didChange document _ _ _ _, r => r.document = document
  | .didClose document _ _, r => r.document = document
  | .acceptFeatureResponse request, r => r.id = request.id
  | _, _ => false

theorem mem_requestsOf {document : String} {order : HashOrder} {id : RequestId} {r : FeatureRequest}
    (hr : c.requests.get? id = some r) (hdocument : r.document = document) :
    id ∈ order.order (c.requestsOf document) := by
  rw [(order.perm _).mem_iff]
  exact List.mem_map.mpr ⟨(id, r), List.mem_filter.mpr ⟨SortedMap.get?_eq_some.mp hr,
    decide_eq_true hdocument⟩, rfl⟩

/-- A document whose requests were all cancelled has none. -/
theorem document_ne_of_invalidated {document : String} {order : HashOrder}
    (hfits : (order.order (c.requestsOf document)).length ≤ c.room)
    (hrequests : c'.requests = (c.invalidated (order.order (c.requestsOf document))).requests)
    {id : RequestId} {r : FeatureRequest} (hr : c'.requests.get? id = some r) :
    r.document ≠ document := by
  intro hdocument
  rw [hrequests, invalidated, SortedMap.get?_filterKeys,
    List.take_of_length_le (Nat.le_succ_of_le hfits)] at hr
  split at hr
  · next hnot => exact of_decide_eq_true hnot (mem_requestsOf hr hdocument)
  · cases hr

theorem cancel_not_mem_flushed (c : LanguageClient) (now : Duration) (id : RequestId) :
    .cancelRequest id ∉ c.flushedMessages (c.due now) := by
  intro hmem
  obtain ⟨document, -, hmessage⟩ := List.mem_filterMap.mp (List.mem_of_mem_take hmem)
  obtain ⟨change, -, heq⟩ := Option.map_eq_some_iff.mp hmessage
  cases heq

/-- An accepted operation keeps no request that it closes. -/
theorem expelled_of_done (h : c.Settled) (hd : op.Done c c')
    (hshutdown : ∀ now, op ≠ .beginShutdown now) (hpoll : ∀ now, op ≠ .pollTimeouts now)
    (hrequest : ∀ kind document revision position now order,
      op ≠ .requestFeature kind document revision position now order) :
    ∃ gone, Expelled c c' gone ∧
      ∀ id r, c'.requests.get? id = some r → r.id = id → op.closes r = false := by
  have none_of_empty : c'.requests = .empty →
      ∀ id r, c'.requests.get? id = some r → r.id = id → op.closes r = false := by
    intro hempty id r hr
    rw [hempty] at hr
    cases hr
  cases op with
  | beginShutdown now => exact absurd rfl (hshutdown now)
  | pollTimeouts now => exact absurd rfl (hpoll now)
  | requestFeature kind document revision position now order =>
    exact absurd rfl (hrequest kind document revision position now order)
  | start now =>
    obtain ⟨hstate, hids, deadline, rfl⟩ := hd
    have hidle : ¬c.Active := hstate.elim (not_active · nofun nofun) (not_active · nofun nofun)
    refine ⟨[], expelled_of_same rfl rfl ?_, none_of_empty (h.idle hidle).2⟩
    exact (Nat.le_succ _).trans (Nat.le_of_eq (toNat_add_one hids).symm)
  | acceptInitialize id capabilities =>
    obtain ⟨-, -, -, rfl⟩ := hd
    exact ⟨[], expelled_of_queued rfl rfl (by simp) (Nat.le_refl _), fun _ _ _ _ => rfl⟩
  | rejectInitialize | failProtocol | restartGeneration | finishShutdown =>
    obtain rfl := hd
    exact ⟨[], expelled_of_empty rfl (Nat.zero_le _) (Nat.le_refl _), none_of_empty rfl⟩
  | processExited now =>
    obtain ⟨crashTimes, state, -, rfl⟩ := hd
    exact ⟨[], expelled_of_empty rfl (Nat.zero_le _) (Nat.le_refl _), none_of_empty rfl⟩
  | didOpen document revision text =>
    obtain ⟨-, -, rfl⟩ := hd
    exact ⟨[], expelled_of_queued rfl rfl (by simp) (Nat.le_refl _), fun _ _ _ _ => rfl⟩
  | didSave document =>
    obtain ⟨-, -, rfl | ⟨-, rfl⟩⟩ := hd
    · exact ⟨[], expelled_self _, fun _ _ _ _ => rfl⟩
    · exact ⟨[], expelled_of_queued rfl rfl (by simp) (Nat.le_refl _), fun _ _ _ _ => rfl⟩
  | didClose document now order =>
    obtain ⟨-, -, hfits, idleDeadline, rfl⟩ := hd
    refine ⟨_, expelled_of_invalidated rfl rfl (by simp) (Nat.le_refl _), fun id r hr _ => ?_⟩
    exact decide_eq_false (document_ne_of_invalidated (Nat.le_of_lt hfits) rfl hr)
  | didChange document revision text now order =>
    obtain ⟨-, -, hfits, due, rfl⟩ := hd
    refine ⟨_, expelled_of_invalidated rfl (List.append_nil _).symm (fun _ => List.not_mem_nil)
      (Nat.le_refl _), fun id r hr _ => ?_⟩
    exact decide_eq_false (document_ne_of_invalidated hfits rfl hr)
  | flushChanges now =>
    obtain rfl := hd
    exact ⟨[], expelled_of_queued rfl rfl (cancel_not_mem_flushed c now) (Nat.le_refl _),
      fun _ _ _ _ => rfl⟩
  | acceptFeatureResponse request =>
    obtain rfl := hd
    refine ⟨[request.id], ⟨fun id r hr => ?_, not_mem_of_nil (Nat.le_refl _), Nat.le_refl _⟩,
      fun id r hr hid => ?_⟩
    · rw [SortedMap.get?_remove] at hr
      split at hr
      · cases hr
      · next hne => exact ⟨hr, fun hid => hne (List.mem_singleton.mp hid)⟩
    · rw [SortedMap.get?_remove] at hr
      split at hr
      · cases hr
      · next hne => exact decide_eq_false (hid ▸ hne)
  | acceptShutdown id =>
    obtain ⟨-, -, -, rfl⟩ := hd
    exact ⟨[], expelled_of_queued rfl rfl (by simp) (Nat.le_refl _), fun _ _ _ _ => rfl⟩
  | takeOutbound =>
    obtain rfl := hd
    refine ⟨[], ⟨fun id r hr => ⟨hr, List.not_mem_nil⟩, not_mem_of_nil ?_, Nat.le_refl _⟩,
      fun _ _ _ _ => rfl⟩
    rw [List.length_tail]
    exact Nat.sub_le ..

theorem expelled_of_failed (hf : op.Failed c c')
    (hrequest : ∀ kind document revision position now order,
      op ≠ .requestFeature kind document revision position now order) :
    ∃ gone, Expelled c c' gone := by
  cases op with
  | requestFeature kind document revision position now order =>
    exact absurd rfl (hrequest kind document revision position now order)
  | start now =>
    obtain rfl | ⟨-, -, rfl⟩ := hf
    · exact ⟨[], expelled_self _⟩
    · exact ⟨[], expelled_of_same rfl rfl (Nat.le_refl _)⟩
  | acceptInitialize id capabilities =>
    obtain rfl | ⟨-, -, -, rfl⟩ := hf
    · exact ⟨[], expelled_self _⟩
    · exact ⟨[], expelled_of_same rfl rfl (Nat.le_refl _)⟩
  | didOpen document revision text =>
    obtain rfl | ⟨-, -, rfl⟩ := hf
    · exact ⟨[], expelled_self _⟩
    · exact ⟨[], expelled_of_same rfl rfl (Nat.le_refl _)⟩
  | didClose document now order =>
    obtain rfl | ⟨-, -, rfl⟩ := hf
    · exact ⟨[], expelled_self _⟩
    · exact ⟨_, expelled_of_invalidated rfl (List.append_nil _).symm (fun _ => List.not_mem_nil)
        (Nat.le_refl _)⟩
  | didChange document revision text now order =>
    obtain rfl | ⟨-, -, due, rfl⟩ := hf
    · exact ⟨[], expelled_self _⟩
    · exact ⟨_, expelled_of_invalidated rfl (List.append_nil _).symm (fun _ => List.not_mem_nil)
        (Nat.le_refl _)⟩
  | beginShutdown now =>
    obtain rfl | ⟨-, rfl⟩ := hf
    · exact ⟨[], expelled_self _⟩
    · exact ⟨[], expelled_of_empty rfl (Nat.le_refl _) (Nat.le_refl _)⟩
  | acceptShutdown id =>
    obtain rfl | ⟨-, rfl⟩ := hf
    · exact ⟨[], expelled_self _⟩
    · exact ⟨[], expelled_of_same rfl rfl (Nat.le_refl _)⟩
  | rejectInitialize | failProtocol | didSave | flushChanges | acceptFeatureResponse
  | restartGeneration | processExited | finishShutdown | pollTimeouts | takeOutbound =>
    obtain rfl := hf
    exact ⟨[], expelled_self _⟩

/-- A request, and the state that it leaves. -/
def Requested (c : LanguageClient) (kind : FeatureRequestKind) (document : String)
    (revision : UInt64) (position : LspPosition) (order : HashOrder) (request : FeatureRequest)
    (c' : LanguageClient) : Prop :=
  c.state = .ready ∧ c.documents.get? document = some revision ∧ c.ids ≠ -1 ∧
    (c.replaced kind document order).length ≤ c.room ∧
    (∃ deadline, request =
      ⟨⟨c.ids + 1⟩, kind, document, revision, position, c.generation, deadline⟩) ∧
    c' =
      { (c.invalidated (c.replaced kind document order)).queue
          [.feature ⟨c.ids + 1⟩ kind document position] with
        ids := c.ids + 1
        requests := (c.invalidated (c.replaced kind document order)).requests.insert
          ⟨c.ids + 1⟩ request }

theorem requestFeature_spec (kind : FeatureRequestKind) (document : String) (revision : UInt64)
    (position : LspPosition) (now : Duration) (order : HashOrder) (c : LanguageClient) :
    wp (requestFeature kind document revision position now order)
      (fun request c' => Requested c kind document revision position order request c')
      (fun _ c' => ∃ gone, Expelled c c' gone) True c := by
  have hgone : ∀ ids : UInt64, c.ids.toNat ≤ ids.toNat → ∃ gone,
      Expelled c { c.invalidated (c.replaced kind document order) with ids } gone := fun ids hle =>
    ⟨_, expelled_of_invalidated rfl (List.append_nil _).symm (fun _ => List.not_mem_nil) hle⟩
  simp only [requestFeature, wp_bind, wp_ensureReady, wp_get, wp_ensure,
    wp_invalidateFeatureRequest, wp_nextId, wp_orPanic, wp_pushOutbound, wp_modify, wp_pure]
  refine ⟨fun hready => ⟨fun _ => ⟨fun hknown => ⟨fun _ => ⟨fun hfits => ⟨fun hids =>
    ⟨fun deadline _ => ⟨fun _ => ?_, fun _ => ?_⟩, fun _ => trivial⟩, fun _ => ?_⟩, fun _ => ?_⟩,
    fun _ => ?_⟩, fun _ => ?_⟩, fun _ => ?_⟩, fun _ => ?_⟩
  · exact ⟨hready, hknown, hids, hfits, ⟨deadline, rfl⟩, rfl⟩
  · exact hgone _ ((Nat.le_succ _).trans (Nat.le_of_eq (toNat_add_one hids).symm))
  · exact hgone _ (Nat.le_refl _)
  · exact hgone _ (Nat.le_refl _)
  all_goals exact ⟨[], expelled_self c⟩

theorem beginShutdown_spec (now : Duration) (c : LanguageClient) :
    wp (beginShutdown now) (fun _ c' => c'.requests = .empty ∧ Expelled c c' []) (fun _ _ => True)
      True c := by
  rw [wp_beginShutdown]
  refine ⟨fun _ => ⟨fun hids => ⟨fun deadline _ => ⟨rfl, ?_⟩, fun _ => trivial⟩, fun _ => trivial⟩,
    fun _ => trivial⟩
  exact expelled_of_empty rfl (Nat.le_refl _)
    ((Nat.le_succ _).trans (Nat.le_of_eq (toNat_add_one hids).symm))

/-! ## Every run -/

/-- A client, with the requests that it returned and those that are closed. -/
structure Responses where
  client : LanguageClient
  issued : List FeatureRequest
  closed : List RequestId
  deriving DecidableEq

namespace Responses

variable {s s' : Responses}

def start (c : LanguageClient) : Responses := ⟨c, [], []⟩

/-- The requests that `p` holds of are closed, and those that were cancelled. -/
def closing (s : Responses) (c : LanguageClient) (p : FeatureRequest → Bool) : Responses :=
  { s with
    client := c
    closed := s.closed ++ (s.issued.filter fun r =>
      p r || .cancelRequest r.id ∈ newlyQueued s.client c).map (·.id) }

def step (s : Responses) (op : ClientOp) : Option Responses :=
  match op with
  | .requestFeature kind document revision position now order =>
    observe (LanguageClient.requestFeature kind document revision position now order) s.client
      (fun request c =>
        { s.closing c (fun r => r.kind = kind ∧ r.document = document) with
          issued := s.issued ++ [request] })
      fun _ c => s.closing c fun _ => false
  | .pollTimeouts now =>
    observe (LanguageClient.pollTimeouts now) s.client
      (fun timeouts c => s.closing c fun r => .request r.id ∈ timeouts)
      fun _ c => s.closing c fun _ => false
  | op => observe op.run s.client (fun _ c => s.closing c op.closes) fun _ c =>
      s.closing c fun _ => false

/-- What the client keeps is open. -/
structure Tracked (s : Responses) : Prop where
  settled : s.client.Settled
  known : ∀ id r, s.client.requests.get? id = some r → r.id = id ∧ r ∈ s.issued ∧ id ∉ s.closed
  single : ∀ id r id' r', s.client.requests.get? id = some r →
    s.client.requests.get? id' = some r' → r.kind = r'.kind → r.document = r'.document → id = id'
  below : ∀ r ∈ s.issued, r.id.value.toNat ≤ s.client.ids.toNat
  unique : ∀ r ∈ s.issued, ∀ r' ∈ s.issued, r.id = r'.id → r = r'
  closed : ∀ id ∈ s.closed, ∃ r ∈ s.issued, r.id = id

theorem Tracked.closing (h : s.Tracked) {p : FeatureRequest → Bool} (hsettled : c'.Settled)
    (hgone : Expelled s.client c' gone)
    (hp : ∀ id r, c'.requests.get? id = some r → r.id = id → p r = false) :
    (s.closing c' p).Tracked := by
  refine ⟨hsettled, fun id r hr => ?_, fun id r id' r' hr hr' => ?_,
    fun r hr => (h.below r hr).trans hgone.ids, h.unique, fun id hid => ?_⟩
  · obtain ⟨hold, hnot⟩ := hgone.requests id r hr
    obtain ⟨rfl, hissued, hopen⟩ := h.known id r hold
    refine ⟨rfl, hissued, fun hclosed => ?_⟩
    obtain hclosed | hclosed := List.mem_append.mp hclosed
    · exact hopen hclosed
    · obtain ⟨r', hr', hid⟩ := List.mem_map.mp hclosed
      obtain ⟨hissued', hcloses⟩ := List.mem_filter.mp hr'
      obtain rfl := h.unique r' hissued' r hissued hid
      rw [hp _ _ hr rfl, Bool.false_or] at hcloses
      exact hnot (hgone.cancels _ (of_decide_eq_true hcloses))
  · exact h.single id r id' r' (hgone.requests id r hr).1 (hgone.requests id' r' hr').1
  · obtain hid | hid := List.mem_append.mp hid
    · exact h.closed id hid
    · obtain ⟨r, hr, rfl⟩ := List.mem_map.mp hid
      exact ⟨r, List.mem_of_mem_filter hr, rfl⟩

/-- The requests of the kind and the document are the one that is replaced. -/
theorem Tracked.replaced (h : s.Tracked) {kind : FeatureRequestKind} {document : String}
    {order : HashOrder} {id : RequestId} {r : FeatureRequest}
    (hr : s.client.requests.get? id = some r) (hkind : r.kind = kind)
    (hdocument : r.document = document) : id ∈ s.client.replaced kind document order := by
  have mem_iff : ∀ id', id' ∈ order.order (s.client.requestsOfKind kind document) →
      id' = id := by
    intro id' hid'
    rw [(order.perm _).mem_iff] at hid'
    obtain ⟨⟨key, r'⟩, hmem, rfl⟩ := List.mem_map.mp hid'
    obtain ⟨hentry, hsame⟩ := List.mem_filter.mp hmem
    obtain ⟨hkind', hdocument'⟩ := of_decide_eq_true hsame
    exact h.single key r' id r (SortedMap.get?_eq_some.mpr hentry) hr (hkind'.trans hkind.symm)
      (hdocument'.trans hdocument.symm)
  have hmem : id ∈ order.order (s.client.requestsOfKind kind document) := by
    rw [(order.perm _).mem_iff]
    exact List.mem_map.mpr ⟨(id, r), List.mem_filter.mpr ⟨SortedMap.get?_eq_some.mp hr,
      decide_eq_true ⟨hkind, hdocument⟩⟩, rfl⟩
  unfold LanguageClient.replaced
  cases hlist : order.order (s.client.requestsOfKind kind document) with
  | nil =>
    rw [hlist] at hmem
    cases hmem
  | cons first rest =>
    rw [hlist] at mem_iff
    rw [mem_iff first List.mem_cons_self]
    exact List.mem_singleton.mpr rfl

variable {request : FeatureRequest}

/-- A request is issued where none of its kind and document is left. -/
theorem Tracked.issue (h : s.Tracked)
    (hfresh : ∀ r ∈ s.issued, r.id.value.toNat < request.id.value.toNat)
    (hids : request.id.value.toNat ≤ s.client.ids.toNat)
    (hnone : ∀ id r, s.client.requests.get? id = some r →
      ¬(r.kind = request.kind ∧ r.document = request.document))
    (hclient : c' = { s.client with requests := s.client.requests.insert request.id request })
    (hsettled : c'.Settled) :
    Tracked { s with client := c', issued := s.issued ++ [request] } := by
  have hget : ∀ id r, c'.requests.get? id = some r →
      id = request.id ∧ r = request ∨ s.client.requests.get? id = some r := by
    intro id r hr
    rw [hclient, SortedMap.get?_insert] at hr
    split at hr
    · next heq => exact .inl ⟨heq, (Option.some.inj hr).symm⟩
    · exact .inr hr
  have hne : ∀ r ∈ s.issued, r.id ≠ request.id := by
    intro r hr heq
    have := hfresh r hr
    rw [heq] at this
    exact Nat.lt_irrefl _ this
  have hmem : ∀ r ∈ s.issued ++ [request], r ∈ s.issued ∨ r = request := fun r hr =>
    (List.mem_append.mp hr).imp_right List.mem_singleton.mp
  refine ⟨hsettled, fun id r hr => ?_, fun id r id' r' hr hr' hkind hdocument => ?_,
    fun r hr => ?_, fun r hr r' hr' hid => ?_, fun id hid => ?_⟩
  · obtain ⟨rfl, rfl⟩ | hr := hget id r hr
    · refine ⟨rfl, List.mem_append_right _ List.mem_cons_self, fun hclosed => ?_⟩
      obtain ⟨r, hr, hid⟩ := h.closed _ hclosed
      exact hne r hr hid
    · obtain ⟨hid, hissued, hopen⟩ := h.known id r hr
      exact ⟨hid, List.mem_append_left _ hissued, hopen⟩
  · obtain ⟨rfl, rfl⟩ | hold := hget id r hr
    · obtain ⟨rfl, -⟩ | hold' := hget id' r' hr'
      · rfl
      · exact absurd ⟨hkind.symm, hdocument.symm⟩ (hnone id' r' hold')
    · obtain ⟨rfl, rfl⟩ | hold' := hget id' r' hr'
      · exact absurd ⟨hkind, hdocument⟩ (hnone id r hold)
      · exact h.single id r id' r' hold hold' hkind hdocument
  · rw [hclient]
    obtain hr | rfl := hmem r hr
    · exact h.below r hr
    · exact hids
  · obtain hold | rfl := hmem r hr
    · obtain hold' | rfl := hmem r' hr'
      · exact h.unique r hold r' hold' hid
      · exact absurd hid (hne r hold)
    · obtain hold' | rfl := hmem r' hr'
      · exact absurd hid.symm (hne r' hold')
      · rfl
  · obtain ⟨r, hr, hid⟩ := h.closed id hid
    exact ⟨r, List.mem_append_left _ hr, hid⟩

theorem Tracked.requested (h : s.Tracked) {kind : FeatureRequestKind} {document : String}
    {revision : UInt64} {position : LspPosition} {order : HashOrder}
    (hr : Requested s.client kind document revision position order request c') :
    Tracked { s.closing c' (fun r => r.kind = kind ∧ r.document = document) with
      issued := s.issued ++ [request] } := by
  obtain ⟨hready, -, hids, hfits, ⟨deadline, rfl⟩, rfl⟩ := hr
  have hnext := toNat_add_one hids
  -- The client before it takes the new request in.
  let c₁ : LanguageClient :=
    { (s.client.invalidated (s.client.replaced kind document order)).queue
        [.feature ⟨s.client.ids + 1⟩ kind document position] with
      ids := s.client.ids + 1 }
  have hgone : Expelled s.client c₁ _ := expelled_of_invalidated rfl rfl (by simp)
    ((Nat.le_succ _).trans (Nat.le_of_eq hnext.symm))
  have hnone : ∀ id r, c₁.requests.get? id = some r → ¬(r.kind = kind ∧ r.document = document) := by
    rintro id r hr ⟨hkind, hdocument⟩
    obtain ⟨hold, hnot⟩ := hgone.requests id r hr
    rw [List.take_of_length_le (Nat.le_succ_of_le hfits)] at hnot
    exact hnot (h.replaced hold hkind hdocument)
  have hclosing : (s.closing c₁ fun r => r.kind = kind ∧ r.document = document).Tracked :=
    h.closing (h.settled.still hready hready ⟨rfl, rfl, rfl⟩) hgone fun id r hr _ =>
      decide_eq_false (hnone id r hr)
  refine hclosing.issue (fun r hr => ?_) (Nat.le_refl _) hnone rfl
    (h.settled.still hready hready ⟨rfl, rfl, rfl⟩)
  exact (Nat.lt_succ_of_le (h.below r hr)).trans_eq hnext.symm

theorem Tracked.step (h : s.Tracked) (hs : s.step op = some s') : s'.Tracked := by
  have hrun : wp op.run (fun _ c' => op.Done s.client c' ∧ c'.Settled)
      (fun _ c' => op.Failed s.client c' ∧ c'.Settled) True s.client :=
    wp_mono (op.run_spec s.client) (fun _ _ hd => ⟨hd, hd.settled h.settled⟩)
      (fun _ _ hf => ⟨hf, hf.settled h.settled⟩) fun h => h
  have hfailed : ∀ {c'}, (∃ gone, Expelled s.client c' gone) → c'.Settled →
      (s.closing c' fun _ => false).Tracked := by
    rintro c' ⟨_, hgone⟩ hsettled
    exact h.closing hsettled hgone fun _ _ _ _ => rfl
  unfold Responses.step at hs
  split at hs
  · next kind document revision position now order =>
    rw [ClientOp.run, wp_discard] at hrun
    refine wp.observe (I := Tracked) (P := True) ?_ hs
    exact wp_mono (wp_and (requestFeature_spec kind document revision position now order s.client)
      hrun) (fun _ _ hd => h.requested hd.1) (fun _ _ hf => hfailed hf.1 hf.2.2) fun _ => trivial
  · next now =>
    rw [ClientOp.run, wp_discard] at hrun
    refine wp.observe (I := Tracked) (P := True) ?_ hs
    refine wp_mono (wp_and (polling_pollTimeouts now s.client) hrun) (fun timeouts c' hd => ?_)
      (fun _ _ hf => hf.1.elim) fun _ => trivial
    obtain ⟨⟨gone, ms, hrequests, houtbound, hms, htimeouts, hids⟩, -, hsettled⟩ := hd
    refine h.closing hsettled ⟨hrequests, fun id hid => ?_, hids⟩ fun id r hr hid => ?_
    · rw [newlyQueued_eq houtbound] at hid
      exact hms id hid
    · exact decide_eq_false fun hmem => (hrequests id r hr).2 (hid ▸ htimeouts _ hmem)
  · next hrequest hpoll =>
    refine wp.observe (I := Tracked) (P := True) ?_ hs
    by_cases hshutdown : ∃ now, op = .beginShutdown now
    · obtain ⟨now, rfl⟩ := hshutdown
      rw [ClientOp.run, wp_discard] at hrun ⊢
      refine wp_mono (wp_and (beginShutdown_spec now s.client) hrun) (fun _ c' hd => ?_)
        (fun _ c' hf => hfailed (expelled_of_failed hf.2.1 fun _ _ _ _ _ _ he => by cases he)
          hf.2.2) fun _ => trivial
      refine h.closing hd.2.2 hd.1.2 fun id r hr => ?_
      rw [hd.1.1] at hr
      cases hr
    · refine wp_mono hrun (fun _ c' hd => ?_) (fun _ c' hf => ?_) fun _ => trivial
      · obtain ⟨gone, hgone, hcloses⟩ := expelled_of_done h.settled hd.1
          (fun now he => hshutdown ⟨now, he⟩) hpoll hrequest
        exact h.closing hd.2 hgone hcloses
      · exact hfailed (expelled_of_failed hf.1 hrequest) hf.2

theorem tracked_new (workspaceId descriptorId : String) :
    (start (.new workspaceId descriptorId)).Tracked :=
  ⟨settled_of_none (fun _ => ⟨rfl, rfl⟩) ⟨rfl, rfl, rfl⟩, nofun, nofun, nofun, nofun, nofun⟩

/-- What is closed stays closed. -/
theorem closed_step (hs : s.step op = some s') : s.closed ⊆ s'.closed := by
  have hclosing : ∀ c p, s.closed ⊆ (s.closing c p).closed := fun c p =>
    List.subset_append_left _ _
  unfold step at hs
  split at hs
  all_goals
    refine wp.observe (I := fun s' => s.closed ⊆ s'.closed) (P := True) ?_ hs
    exact wp_mono (wp_self _ _) (fun _ _ _ => hclosing _ _) (fun _ _ _ => hclosing _ _)
      fun _ => trivial

/-! ## The law -/

theorem of_applied
    (h : (acceptFeatureResponse request).exec c = some (.ok .applied, c')) :
    c.requests.get? request.id = some request ∧ request.generation = c.generation ∧
      c.documents.get? request.document = some request.revision ∧ c.state = .ready := by
  have hspec : wp (acceptFeatureResponse request) (fun disposition _ => disposition = .applied →
      c.requests.get? request.id = some request ∧ request.generation = c.generation ∧
        c.documents.get? request.document = some request.revision ∧ c.state = .ready)
      (fun _ _ => True) True c := by
    simp only [acceptFeatureResponse, wp_bind, wp_get, wp_modify, wp_ite, wp_pure]
    exact ⟨fun h _ => h, fun _ hstale => absurd hstale (by decide)⟩
  exact hspec.of_ok h rfl

/-- A response closes its request. -/
theorem closed_of_response (hissued : request ∈ s.issued)
    (hs : s.step (.acceptFeatureResponse request) = some s') : request.id ∈ s'.closed := by
  have hclosing : ∀ c', request.id ∈
      (s.closing c' (ClientOp.acceptFeatureResponse request).closes).closed := by
    intro c'
    refine List.mem_append_right _ (List.mem_map_of_mem (List.mem_filter.mpr ⟨hissued, ?_⟩))
    rw [ClientOp.closes, decide_eq_true rfl, Bool.true_or]
  unfold Responses.step at hs
  dsimp only at hs
  refine wp.observe (I := fun s' : Responses => request.id ∈ s'.closed) (P := True) ?_ hs
  simp only [ClientOp.run, acceptFeatureResponse, wp_discard, wp_bind, wp_get, wp_modify, wp_ite,
    wp_pure]
  exact ⟨fun _ => hclosing _, fun _ => hclosing _⟩

/-- What holds where a response is applied, and that the next one for the request is not. -/
theorem response_law {workspaceId descriptorId : String} {request : FeatureRequest}
    (h : Runs step (fun _ _ => True) (start (.new workspaceId descriptorId)) s)
    (happlied : (acceptFeatureResponse request).exec s.client = some (.ok .applied, c)) :
    s.client.state = .ready ∧ request ∈ s.issued ∧ request.id ∉ s.closed ∧
    request.generation = s.client.generation ∧
    s.client.documents.get? request.document = some request.revision ∧
    ∀ s₁, s.step (.acceptFeatureResponse request) = some s₁ →
      ∀ s₂, Runs step (fun _ _ => True) s₁ s₂ →
        ∀ c₂, (acceptFeatureResponse request).exec s₂.client ≠ some (.ok .applied, c₂) := by
  have htracked : s.Tracked :=
    h.invariant (tracked_new workspaceId descriptorId) fun _ _ _ ht _ hs => ht.step hs
  obtain ⟨hget, hgeneration, hdocument, hready⟩ := of_applied happlied
  obtain ⟨-, hissued, hopen⟩ := htracked.known _ _ hget
  refine ⟨hready, hissued, hopen, hgeneration, hdocument, fun s₁ hs₁ s₂ h₂ c₂ hagain => ?_⟩
  have hlater : s₂.Tracked ∧ request.id ∈ s₂.closed :=
    h₂.invariant (I := fun s => s.Tracked ∧ request.id ∈ s.closed)
      ⟨htracked.step hs₁, closed_of_response hissued hs₁⟩
      fun _ _ _ ht _ hs => ⟨ht.1.step hs, closed_step hs ht.2⟩
  exact (hlater.1.known _ _ (of_applied hagain).1).2.2 hlater.2

/-- A hover request whose response is applied once. -/
theorem response_law_hover : ∃ (s s₁ : Responses) (request : FeatureRequest) (c : LanguageClient),
    (acceptFeatureResponse request).exec s.client = some (.ok .applied, c) ∧
      s.step (.acceptFeatureResponse request) = some s₁ ∧ request.id ∉ s.closed ∧
      ∀ c₂, (acceptFeatureResponse request).exec s₁.client ≠ some (.ok .applied, c₂) := by
  have hrun : ([.start 0,
      .acceptInitialize ⟨1⟩ (.new .full [.hover] .utf16), .didOpen "a.rs" 7 "fn",
      .requestFeature .hover "a.rs" 7 ⟨0, 1⟩ 0 .sorted].foldlM step (start (.new "w" "rust"))).any
        fun s => s.issued.any fun request =>
          ((acceptFeatureResponse request).exec s.client).any fun r =>
            r.1.toOption = some .applied ∧ (s.step (.acceptFeatureResponse request)).isSome := by
    decide
  obtain ⟨s, hs, hissued⟩ := (Option.any_eq_true _ _).mp hrun
  obtain ⟨request, -, happlied⟩ := List.any_eq_true.mp hissued
  obtain ⟨⟨r, c⟩, hexec, hr⟩ := (Option.any_eq_true _ _).mp happlied
  obtain ⟨hok, hsome⟩ := of_decide_eq_true hr
  obtain ⟨s₁, hs₁⟩ := Option.isSome_iff_exists.mp hsome
  cases r with
  | error e => cases hok
  | ok disposition =>
    obtain rfl := Option.some.inj hok
    obtain ⟨-, -, hopen, -, -, hagain⟩ := response_law (Along.runs (along_true _ _) hs) hexec
    exact ⟨s, s₁, request, c, hexec, hs₁, hopen, hagain s₁ hs₁ s₁ .refl⟩

end Responses

end Strukt.Language
