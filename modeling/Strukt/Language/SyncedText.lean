import Strukt.Language.DocumentOrder

/-!
# The text that a request is about

A position means something in the text that the server has. `requestFeature` compares its revision
with the recorded one, and a recorded change is held back until `flushChanges`.

* **Synced sessions** (`Synced`): in every run, a recorded revision that is neither held back nor
  given up is the last one that the server was sent in this generation.
* **Requests** (`text_law`): so a request is about the text that the server has when its document
  has no held change and is not `unsent`, and a save follows every change when none is held.
* **Held changes** (`request_before_change`): both are accepted while a change is held back.
-/

namespace Strukt.Language

open Method LanguageClient

variable {document : String} {ms : List OutboundMessage} {m : OutboundMessage}
  {c c' : LanguageClient}

theorem version?_cancels {ids : List RequestId} :
    ∀ m ∈ ids.map OutboundMessage.cancelRequest, m.version? document = none := by
  intro m hm
  obtain ⟨id, -, rfl⟩ := List.mem_map.mp hm
  rfl

theorem version?_concat {ids : List RequestId} (h : m.version? document = none) :
    ∀ m' ∈ ids.map OutboundMessage.cancelRequest ++ [m], m'.version? document = none := by
  intro m' hm'
  obtain hm' | hm' := List.mem_append.mp hm'
  · exact version?_cancels m' hm'
  · exact List.mem_singleton.mp hm' ▸ h

namespace Session

variable {s s' : Session} {op : ClientOp} {unopened unsent : List String}

structure Synced (s : Session) : Prop where
  settled : s.client.Settled
  awaited : s.client.initializeId.isSome → ∀ d ∈ s.client.documents.keys, d ∈ s.unsent
  sent : s.client.Active → ∀ d r, s.client.documents.get? d = some r →
    s.client.pendingChanges.get? d = none → d ∉ s.unsent →
      latest (OutboundMessage.version? d) s.queued = some r

/-- An operation queues messages that give a synced document no new version. -/
theorem Synced.queue (h : s.Synced) (hsettled : c'.Settled)
    (houtbound : c'.outbound = s.client.outbound ++ ms)
    (hactive : c'.Active → s.client.Active)
    (hawaited : c'.initializeId.isSome → ∀ d ∈ c'.documents.keys, d ∈ unsent)
    (hsent : c'.Active → ∀ d r, c'.documents.get? d = some r →
      c'.pendingChanges.get? d = none → d ∉ unsent →
        (s.client.documents.get? d = some r ∧ s.client.pendingChanges.get? d = none ∧
          d ∉ s.unsent) ∧ ∀ m ∈ ms, m.version? d = none) :
    Synced { s.extended c' with unopened, unsent } := by
  refine ⟨hsettled, hawaited, fun ha d r hknown hpending hnot => ?_⟩
  obtain ⟨⟨hknown', hpending', hnot'⟩, hms⟩ := hsent ha d r hknown hpending hnot
  have hlatest := h.sent (hactive ha) d r hknown' hpending' hnot'
  show latest _ (s.queued ++ newlyQueued s.client c') = some r
  rw [newlyQueued_eq houtbound, latest_append_of_none hms, hlatest]

/-- An operation that changes no document and holds no change back. -/
theorem Synced.quiet (h : s.Synced) (hsettled : c'.Settled)
    (houtbound : c'.outbound = s.client.outbound ++ ms)
    (hms : ∀ d, ∀ m ∈ ms, m.version? d = none)
    (hactive : c'.Active → s.client.Active ∧ c'.pendingChanges = s.client.pendingChanges)
    (hdocuments : c'.documents = s.client.documents)
    (hwaiting : c'.initializeId = s.client.initializeId ∨ c'.initializeId = none) :
    (s.extended c').Synced := by
  refine h.queue hsettled houtbound (fun ha => (hactive ha).1) (fun hsome d hd => ?_)
    fun ha d r hknown hpending hnot => ⟨⟨hdocuments ▸ hknown, (hactive ha).2 ▸ hpending, hnot⟩, hms d⟩
  obtain he | he := hwaiting
  · exact h.awaited (he ▸ hsome) d (hdocuments ▸ hd)
  · rw [he] at hsome
    cases hsome

/-- An operation that leaves no server up, or takes a message out. -/
theorem Synced.taken (h : s.Synced) (hsettled : c'.Settled)
    (houtbound : c'.outbound.length ≤ s.client.outbound.length)
    (hactive : c'.Active → s.client.Active ∧ c'.pendingChanges = s.client.pendingChanges)
    (hdocuments : c'.documents = s.client.documents)
    (hwaiting : c'.initializeId = s.client.initializeId ∨ c'.initializeId = none) :
    (s.extended c').Synced := by
  have hqueued : (s.extended c').queued = s.queued := by
    rw [extended, newlyQueued_of_le houtbound, List.append_nil]
  refine ⟨hsettled, fun hsome d hd => ?_, fun ha d r hknown hpending hnot => ?_⟩
  · obtain he | he := hwaiting
    · exact h.awaited (he ▸ hsome) d (hdocuments ▸ hd)
    · have hsome : c'.initializeId.isSome := hsome
      rw [he] at hsome
      cases hsome
  · rw [hqueued]
    obtain ⟨ha', hpending'⟩ := hactive ha
    exact h.sent ha' d r (hdocuments ▸ hknown) (hpending' ▸ hpending) hnot

theorem Synced.accepts {id : RequestId} (h : s.Synced)
    (hsettled : c'.Settled) (hid : s.client.initializeId = some id)
    (hdocuments : c'.documents = s.client.documents) (hwaiting : c'.initializeId = none) :
    (s.extended c').Synced := by
  have hall := h.awaited (by rw [hid]; rfl)
  refine ⟨hsettled, fun hsome => ?_, fun _ d r hknown _ hnot => ?_⟩
  · have hsome : c'.initializeId.isSome := hsome
    rw [hwaiting] at hsome
    cases hsome
  · have hknown : c'.documents.get? d = some r := hknown
    rw [hdocuments] at hknown
    exact absurd (hall d (SortedMap.mem_keys_of_get? hknown)) hnot

/-- The messages of a flush are about the documents with a change due. -/
theorem version?_flush {now : Duration} (h : document ∉ c.due now) :
    ∀ m ∈ c.flushedMessages (c.due now), m.version? document = none := by
  intro m hm
  obtain ⟨d, hdue, hd⟩ := List.mem_filterMap.mp (List.mem_of_mem_take hm)
  obtain ⟨p, -, rfl⟩ := Option.map_eq_some_iff.mp hd
  exact if_neg fun he : d = document => h (he ▸ hdue)

theorem Synced.flush {now : Duration} (h : s.Synced) (hsettled : c'.Settled)
    (hc : c' = s.client.flushed (s.client.due now)) :
    (s.done c' (.flushChanges now)).Synced := by
  subst hc
  have hnew : newlyQueued s.client (s.client.flushed (s.client.due now)) =
      s.client.flushedMessages (s.client.due now) := newlyQueued_eq rfl
  refine ⟨hsettled, fun hsome d hd => ?_, fun ha d r hknown hpending hnot => ?_⟩
  · have hnone := (h.settled.idle (h.settled.awaited hsome).1).1
    have hdue : s.client.due now = [] := by simp [due, hnone, SortedMap.empty]
    simp only [Session.done, hdue, List.append_nil]
    exact List.mem_filter.mpr ⟨h.awaited hsome d hd, by simp⟩
  · show latest _ (s.queued ++ newlyQueued _ _) = some r
    have hnot' : d ∉ (s.unsent ++ s.client.due now).filter fun document =>
        document ∉ s.client.due now ∨
          ¬Sent s.client (s.client.flushed (s.client.due now)) document := hnot
    rw [List.mem_filter, List.mem_append, decide_eq_true_eq] at hnot'
    by_cases hdue : d ∈ s.client.due now
    · -- The document's own change was queued, with the recorded revision.
      have hsent : Sent s.client (s.client.flushed (s.client.due now)) d := by
        by_contra hsent
        exact hnot' ⟨.inr hdue, .inr hsent⟩
      have hlatest : latest (OutboundMessage.version? d) (newlyQueued s.client
          (s.client.flushed (s.client.due now))) = some r := hsent.trans hknown
      rw [latest_append, hlatest, Option.some_or]
    · have hheld : s.client.pendingChanges.get? d = none := by
        have hpending : (s.client.pendingChanges.filterKeys (· ∉ s.client.due now)).get? d =
            none := hpending
        simpa [hdue] using hpending
      rw [hnew, latest_append_of_none (version?_flush hdue)]
      exact h.sent ha d r hknown hheld fun hin => hnot' ⟨.inl hin, .inl hdue⟩

theorem Synced.opens {revision : UInt64} {text : String} (h : s.Synced) (hsettled : c'.Settled)
    (hready : s.client.state = .ready)
    (hc : c' = (s.client.opened document revision).queue
      [.didOpen document s.client.descriptorId revision text]) :
    (s.done c' (.didOpen document revision text)).Synced := by
  have hnone := (h.settled.none_of_active (.inl hready)).2.2
  subst hc
  refine ⟨hsettled, fun hsome => ?_, fun ha d r hknown hpending hnot => ?_⟩
  · have hsome : s.client.initializeId.isSome := hsome
    rw [hnone] at hsome
    cases hsome
  · show latest _ (s.queued ++ newlyQueued _ _) = some r
    have hknown : (s.client.documents.insert document revision).get? d = some r := hknown
    rw [newlyQueued_eq rfl]
    by_cases hd : d = document
    · rw [SortedMap.get?_insert, if_pos hd] at hknown
      exact latest_concat (by rw [OutboundMessage.version?, if_pos hd.symm, hknown])
    · rw [SortedMap.get?_insert, if_neg hd] at hknown
      have hother : ∀ m ∈ [OutboundMessage.didOpen document s.client.descriptorId revision text],
          m.version? d = none := by
        intro m hm
        obtain rfl := List.mem_singleton.mp hm
        exact if_neg fun he => hd he.symm
      rw [latest_append_of_none hother]
      refine h.sent (.inl hready) d r hknown hpending fun hin => hnot ?_
      exact List.mem_filter.mpr ⟨hin, by simpa using hd⟩

/-- A document is closed, and nothing else gets a version. -/
theorem Synced.closes (h : s.Synced) (hsettled : c'.Settled) (hready : s.client.state = .ready)
    (houtbound : c'.outbound = s.client.outbound ++ ms)
    (hms : ∀ d, ∀ m ∈ ms, m.version? d = none)
    (hc : c'.documents = s.client.documents.remove document ∧
      c'.pendingChanges = s.client.pendingChanges.remove document ∧
      c'.initializeId = s.client.initializeId) :
    (s.extended c').Synced := by
  have hnone := (h.settled.none_of_active (.inl hready)).2.2
  refine h.queue hsettled houtbound (fun _ => .inl hready) (fun hsome => ?_)
    fun _ d r hknown hpending hnot => ?_
  · rw [hc.2.2, hnone] at hsome
    cases hsome
  · rw [hc.1, SortedMap.get?_remove] at hknown
    split at hknown
    · cases hknown
    · rw [hc.2.1, SortedMap.get?_remove, if_neg ‹_›] at hpending
      exact ⟨⟨hknown, hpending, hnot⟩, hms d⟩

theorem Synced.changes {change : PendingChange} {ids : List RequestId} (h : s.Synced)
    (hsettled : c'.Settled) (hready : s.client.state = .ready)
    (hc : c' = (s.client.changed document change).invalidated ids) :
    (s.extended c').Synced := by
  have hnone := (h.settled.none_of_active (.inl hready)).2.2
  subst hc
  refine h.queue hsettled rfl (fun _ => .inl hready) (fun hsome => ?_)
    fun _ d r hknown hpending hnot => ?_
  · have hsome : s.client.initializeId.isSome := hsome
    rw [hnone] at hsome
    cases hsome
  · have hpending : (s.client.pendingChanges.insert document change).get? d = none := hpending
    have hknown : (s.client.documents.insert document change.revision).get? d = some r := hknown
    rw [SortedMap.get?_insert] at hpending hknown
    split at hpending
    · cases hpending
    · rw [if_neg ‹_›] at hknown
      exact ⟨⟨hknown, hpending, hnot⟩, version?_cancels⟩

theorem Synced.done (h : s.Synced) (hd : op.Done s.client c') : (s.done c' op).Synced := by
  have hsettled := hd.settled h.settled
  cases op with
  | start now =>
    obtain ⟨-, -, deadline, rfl⟩ := hd
    exact ⟨hsettled, fun _ _ hd => hd, fun ha => absurd ha (not_active rfl nofun nofun)⟩
  | acceptInitialize id capabilities =>
    obtain ⟨-, hid, -, rfl⟩ := hd
    exact h.accepts hsettled hid rfl rfl
  | rejectInitialize | failProtocol | restartGeneration =>
    obtain rfl := hd
    exact h.taken hsettled (Nat.zero_le _) (fun ha => absurd ha (not_active rfl nofun nofun)) rfl
      (.inr rfl)
  | finishShutdown =>
    obtain rfl := hd
    exact h.taken hsettled (Nat.zero_le _) (fun ha => absurd ha (not_active rfl nofun nofun)) rfl
      (.inl rfl)
  | processExited now =>
    obtain ⟨crashTimes, state, hstate, rfl⟩ := hd
    refine h.taken hsettled (Nat.zero_le _) (fun ha => absurd ha ?_) rfl (.inr rfl)
    obtain rfl | rfl := hstate
    · exact not_active rfl nofun nofun
    · exact not_active rfl nofun nofun
  | didOpen document revision text =>
    obtain ⟨hready, -, hc⟩ := hd
    exact h.opens hsettled hready hc
  | didSave document =>
    obtain ⟨-, -, rfl | ⟨-, rfl⟩⟩ := hd
    · exact h.quiet hsettled (List.append_nil _).symm nofun (fun ha => ⟨ha, rfl⟩) rfl (.inl rfl)
    · exact h.quiet hsettled rfl (by simp [OutboundMessage.version?]) (fun ha => ⟨ha, rfl⟩) rfl
        (.inl rfl)
  | didClose document now order =>
    obtain ⟨hready, -, -, _, rfl⟩ := hd
    exact h.closes hsettled hready (List.append_assoc ..) (fun d => version?_concat rfl)
      ⟨rfl, rfl, rfl⟩
  | didChange document revision text now order =>
    obtain ⟨hready, -, -, due, hc⟩ := hd
    exact h.changes hsettled hready hc
  | flushChanges now => exact h.flush hsettled hd
  | requestFeature kind document revision position now order =>
    obtain ⟨-, -, -, request, rfl⟩ := hd
    exact h.quiet hsettled (List.append_assoc ..) (fun d => version?_concat rfl)
      (fun ha => ⟨ha, rfl⟩) rfl (.inl rfl)
  | acceptFeatureResponse request =>
    obtain rfl := hd
    exact h.quiet hsettled (List.append_nil _).symm nofun (fun ha => ⟨ha, rfl⟩) rfl (.inl rfl)
  | beginShutdown now =>
    obtain ⟨-, deadline, rfl⟩ := hd
    exact h.taken hsettled le_rfl (fun ha => absurd ha (not_active rfl nofun nofun)) rfl (.inl rfl)
  | acceptShutdown id =>
    obtain ⟨-, -, -, rfl⟩ := hd
    exact h.quiet hsettled rfl (by simp [OutboundMessage.version?]) (fun ha => ⟨ha, rfl⟩) rfl
      (.inl rfl)
  | pollTimeouts now =>
    obtain ⟨⟨ms, houtbound, hms⟩, hdocuments, hpending, hactive, hwaiting⟩ := Polled.fewer hd
    refine h.quiet hsettled houtbound (fun d m hm => ?_) (fun ha => ⟨hactive ha, ?_⟩) hdocuments
      hwaiting
    · obtain ⟨id, rfl | rfl⟩ := hms m hm
      · rfl
      · rfl
    · exact hpending.resolve_right fun hnot => hnot.2 ha
  | takeOutbound =>
    obtain rfl := hd
    exact h.taken hsettled (by simp) (fun ha => ⟨ha, rfl⟩) rfl (.inl rfl)

theorem Synced.failed (h : s.Synced) (hf : op.Failed s.client c') : (s.failed c' op).Synced := by
  have hsettled := hf.settled h.settled
  have hsame : c' = s.client → (s.extended c').Synced := by
    rintro rfl
    exact h.taken hsettled le_rfl (fun ha => ⟨ha, rfl⟩) rfl (.inl rfl)
  cases op with
  | start now =>
    obtain he | ⟨-, -, rfl⟩ := hf
    · exact hsame he
    · have hstate : s.client.starting.state = .starting := rfl
      have hidle := not_active hstate (by decide) (by decide)
      exact h.taken hsettled le_rfl (fun ha => absurd ha hidle) rfl (.inl rfl)
  | acceptInitialize id capabilities =>
    obtain he | ⟨-, hid, -, rfl⟩ := hf
    · exact hsame he
    · exact h.accepts hsettled hid rfl rfl
  | didOpen document revision text =>
    by_cases hready : s.client.state = .ready
    · simp only [Session.failed, if_pos hready]
      have hnone := (h.settled.none_of_active (.inl hready)).2.2
      obtain rfl | ⟨-, -, rfl⟩ := hf
      · refine h.queue hsettled (List.append_nil _).symm (fun ha => ha) (fun hsome => ?_)
          fun _ d r hknown hpending hnot => ⟨⟨hknown, hpending, ?_⟩, by simp⟩
        · rw [hnone] at hsome
          cases hsome
        · exact fun hin => hnot (List.mem_cons_of_mem _ hin)
      · refine h.queue hsettled (List.append_nil _).symm (fun ha => ha) (fun hsome => ?_)
          fun _ d r hknown hpending hnot => ⟨⟨?_, hpending, ?_⟩, by simp⟩
        · have hsome : s.client.initializeId.isSome := hsome
          rw [hnone] at hsome
          cases hsome
        · have hne : d ≠ document := fun he => hnot (he ▸ List.mem_cons_self)
          have hknown : (s.client.documents.insert document revision).get? d = some r := hknown
          rwa [SortedMap.get?_insert, if_neg hne] at hknown
        · exact fun hin => hnot (List.mem_cons_of_mem _ hin)
    · simp only [Session.failed, if_neg hready]
      exact hsame (hf.resolve_right fun hf => hready hf.1)
  | didClose document now order =>
    obtain he | ⟨hready, -, rfl⟩ := hf
    · exact hsame he
    · exact h.closes hsettled hready rfl (fun d => version?_cancels) ⟨rfl, rfl, rfl⟩
  | didChange document revision text now order =>
    obtain he | ⟨hready, -, due, hc⟩ := hf
    · exact hsame he
    · exact h.changes hsettled hready hc
  | requestFeature kind document revision position now order =>
    obtain he | ⟨-, -, _, rfl⟩ := hf
    · exact hsame he
    · exact h.quiet hsettled rfl (fun d => version?_cancels) (fun ha => ⟨ha, rfl⟩) rfl (.inl rfl)
  | beginShutdown now =>
    obtain he | ⟨-, rfl⟩ := hf
    · exact hsame he
    · have hstate : s.client.stopping.state = .stopping := rfl
      have hidle := not_active hstate (by decide) (by decide)
      exact h.taken hsettled le_rfl (fun ha => absurd ha hidle) rfl (.inl rfl)
  | acceptShutdown id =>
    obtain he | ⟨-, rfl⟩ := hf
    · exact hsame he
    · exact h.taken hsettled le_rfl (fun ha => ⟨ha, rfl⟩) rfl (.inl rfl)
  | rejectInitialize | failProtocol | didSave | flushChanges | acceptFeatureResponse
  | restartGeneration | processExited | finishShutdown | pollTimeouts | takeOutbound =>
    exact hsame hf

theorem synced_of_runs {workspaceId descriptorId : String}
    (h : Runs step (fun _ _ => True) (start (.new workspaceId descriptorId)) s) : s.Synced := by
  have h₀ : (start (.new workspaceId descriptorId)).Synced :=
    ⟨settled_of_none (fun _ => ⟨rfl, rfl⟩) ⟨rfl, rfl, rfl⟩, nofun, nofun⟩
  refine h.invariant (I := Synced) h₀ fun s op s' hI _ hs => ?_
  obtain ⟨c', hd, rfl⟩ | ⟨c', hf, rfl⟩ := step_cases hs
  · exact hI.done hd
  · exact hI.failed hf

/-- What a successful request queues. -/
theorem queued_of_request {kind : FeatureRequestKind} {revision : UInt64} {position : LspPosition}
    {now : Duration} {order : HashOrder} {request : FeatureRequest}
    (hx : (requestFeature kind document revision position now order).exec s.client =
      some (.ok request, c')) :
    s.client.state = .ready ∧ s.client.documents.get? document = some revision ∧ ∃ ids : List RequestId,
      newlyQueued s.client c' = ids.map OutboundMessage.cancelRequest ++
        [.feature request.id kind document position] := by
  have hspec : wp (requestFeature kind document revision position now order)
      (fun request c' => s.client.state = .ready ∧
        s.client.documents.get? document = some revision ∧ ∃ ids : List RequestId,
          c'.outbound = s.client.outbound ++ (ids.map OutboundMessage.cancelRequest ++
            [.feature request.id kind document position]))
      (fun _ _ => True) True s.client := by
    simp only [requestFeature, wp_bind, wp_ensureReady, wp_get, wp_ensure,
      wp_invalidateFeatureRequest, wp_nextId, wp_orPanic, wp_pushOutbound, wp_modify, wp_pure,
      implies_true, and_true]
    exact fun hready _ hknown _ _ _ _ _ _ => ⟨hready, hknown, _, List.append_assoc ..⟩
  obtain ⟨hready, hknown, ids, houtbound⟩ := hspec.of_ok hx
  exact ⟨hready, hknown, ids, newlyQueued_eq houtbound⟩

/-- In every run: a request for a document with no held change, whose recorded revision was not
given up, stands after a `didOpen` or `didChange` of that revision, the last one of the document; and
after a `didSave` no change is held back exactly when none was before it. -/
theorem text_law {workspaceId descriptorId : String}
    (h : Runs step (fun _ _ => True) (start (.new workspaceId descriptorId)) s) :
    (∀ kind document revision position now order request c',
      (requestFeature kind document revision position now order).exec s.client =
        some (.ok request, c') →
      s.client.pendingChanges.get? document = none → document ∉ s.unsent →
      ∃ pre, (s.extended c').queued = pre ++ [.feature request.id kind document position] ∧
        latest (OutboundMessage.version? document) pre = some revision) ∧
    ∀ document c', (didSave document).exec s.client = some (.ok (), c') →
      (c'.pendingChanges.get? document = none ↔
        s.client.pendingChanges.get? document = none) := by
  refine ⟨fun kind document revision position now order request c' hx hpending hsent => ?_,
    fun document c' hx => ?_⟩
  · obtain ⟨hready, hknown, ids, hnew⟩ := queued_of_request hx
    refine ⟨s.queued ++ ids.map OutboundMessage.cancelRequest, ?_, ?_⟩
    · rw [extended, hnew, List.append_assoc]
    · rw [latest_append_of_none version?_cancels]
      exact (synced_of_runs h).sent (.inl hready) document revision hknown hpending hsent
  · obtain ⟨-, -, rfl | ⟨-, rfl⟩⟩ := ((ClientOp.didSave document).run_spec s.client).of_ok hx
    · exact Iff.rfl
    · exact Iff.rfl

/-- A request after the change was flushed. -/
theorem text_law_flushed : ∃ (s : Session) (request : FeatureRequest) (c' : LanguageClient),
    (requestFeature .hover "a" 2 ⟨0, 0⟩ 0 .sorted).exec s.client = some (.ok request, c') ∧
      ∃ pre, (s.extended c').queued = pre ++ [.feature request.id .hover "a" ⟨0, 0⟩] ∧
        latest (OutboundMessage.version? "a") pre = some 2 := by
  have hruns : ([.start 0, .acceptInitialize ⟨1⟩ capabilities, .didOpen "a" 1 "",
      .didChange "a" 2 "x" 0 .sorted, .flushChanges changeDelay].foldlM step
        (start (.new "w" "rust"))).any fun s =>
        ((requestFeature .hover "a" 2 ⟨0, 0⟩ 0 .sorted).exec s.client).any (·.1.isOk) ∧
          s.client.pendingChanges.get? "a" = none ∧ "a" ∉ s.unsent := by
    decide
  obtain ⟨s, hs, hend⟩ := (Option.any_eq_true _ _).mp hruns
  obtain ⟨hok, hpending, hsent⟩ := of_decide_eq_true hend
  obtain ⟨⟨r, c'⟩, hx, hr⟩ := (Option.any_eq_true _ _).mp hok
  cases r with
  | error e => cases hr
  | ok request =>
    have hto : Runs step (fun _ _ => True) (start (.new "w" "rust")) s :=
      (along_true _ _).runs hs
    exact ⟨s, request, c', hx, (text_law hto).1 _ _ _ _ _ _ _ _ hx hpending hsent⟩

/-- While its change is held back, a document is asked about at the new revision, and saved. -/
theorem request_before_change : ∃ s : Session,
    Runs step (fun _ _ => True) (start (.new "w" "rust")) s ∧
      (((requestFeature .hover "a" 2 ⟨0, 0⟩ 0 .sorted).exec s.client).any fun r =>
        r.1.isOk ∧ (s.extended r.2).queued =
          [.initialized, .didOpen "a" "rust" 1 "", .feature ⟨2⟩ .hover "a" ⟨0, 0⟩]) ∧
      ((didSave "a").exec s.client).any fun r =>
        r.1.isOk ∧ newlyQueued s.client r.2 = [.didSave "a"] ∧
          r.2.pendingChanges.get? "a" ≠ none := by
  have hruns : ([.start 0, .acceptInitialize ⟨1⟩ capabilities, .didOpen "a" 1 "",
      .didChange "a" 2 "x" 0 .sorted].foldlM step (start (.new "w" "rust"))).any fun s =>
        (((requestFeature .hover "a" 2 ⟨0, 0⟩ 0 .sorted).exec s.client).any fun r =>
          r.1.isOk ∧ (s.extended r.2).queued =
            [.initialized, .didOpen "a" "rust" 1 "", .feature ⟨2⟩ .hover "a" ⟨0, 0⟩]) ∧
        ((didSave "a").exec s.client).any fun r =>
          r.1.isOk ∧ newlyQueued s.client r.2 = [.didSave "a"] ∧
            r.2.pendingChanges.get? "a" ≠ none := by
    decide
  obtain ⟨s, hs, hend⟩ := (Option.any_eq_true _ _).mp hruns
  exact ⟨s, (along_true _ _).runs hs, of_decide_eq_true hend⟩

end Session

end Strukt.Language
