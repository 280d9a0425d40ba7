import Strukt.Language.ClientSpec
import Strukt.Lib.Log
import Strukt.Lib.Runs

/-!
# The order of the messages about a document

A `Session` is a language client with the messages it queued since its last successful `start`.

* **Order** (`order_law`): in every run whose steps meet `Opened`, each message about a document
  stands after a `didOpen` of it with no `didClose` in between, and only `didOpen` of the caller
  opens a document.
* **Forgotten starts**: no transition forgets the documents of an ended server, and a `didOpen` that
  finds the queue full records its document. Such a document is `unopened`, and messages about it
  go to a server that does not know it (`save_after_restart`).
* **Unsent texts**: `unsent` are the documents whose recorded revision the server was not sent, and
  is no longer going to be sent (`Strukt.Language.SyncedText`).
-/

namespace Strukt.Language

open Method LanguageClient

/-- The document that a message other than its opening is about. -/
def OutboundMessage.about : OutboundMessage → Option String
  | .didSave document | .didClose document | .didChange document _ _ | .feature _ _ document _ =>
    some document
  | _ => none

def OutboundMessage.Opens (document : String) (m : OutboundMessage) : Prop :=
  ∃ languageId version text, m = .didOpen document languageId version text

/-- The text version that a message gives a document. -/
def OutboundMessage.version? (document : String) : OutboundMessage → Option UInt64
  | .didOpen d _ version _ | .didChange d version _ => if d = document then some version else none
  | _ => none

/-- A `didOpen` of the document, and no `didClose` of it since. -/
def OpenIn (document : String) (l : List OutboundMessage) : Prop :=
  Since (OutboundMessage.Opens document) (· ≠ .didClose document) l

/-- The document that the message is about was opened before it. -/
def Preceded (l : List OutboundMessage) (m : OutboundMessage) : Prop :=
  ∀ document, m.about = some document → OpenIn document l

/-- A client with the messages queued since the last successful `start`, the documents that it
recorded without opening them since then, and the ones whose recorded revision was given up. -/
structure Session where
  client : LanguageClient
  queued : List OutboundMessage
  unopened : List String
  unsent : List String
  deriving DecidableEq

namespace Session

def start (c : LanguageClient) : Session := ⟨c, [], [], []⟩

/-- The message log goes on with what the operation queued. -/
def extended (s : Session) (c' : LanguageClient) : Session :=
  { s with client := c', queued := s.queued ++ newlyQueued s.client c' }

/-- Whether the last message that an operation queued for a document has its recorded revision. -/
def Sent (c c' : LanguageClient) (document : String) : Prop :=
  latest (OutboundMessage.version? document) (newlyQueued c c') = c'.documents.get? document

instance (c c' : LanguageClient) (document : String) : Decidable (Sent c c' document) := by
  unfold Sent; infer_instance

/-- What is observed of an operation that succeeded. -/
def done (s : Session) (c' : LanguageClient) : ClientOp → Session
  | .start _ => ⟨c', [], c'.documents.keys, c'.documents.keys⟩
  | .didOpen document _ _ =>
    { s.extended c' with
      unopened := s.unopened.filter (· ≠ document)
      unsent := s.unsent.filter (· ≠ document) }
  | .flushChanges now =>
    { s.extended c' with
      unsent := (s.unsent ++ s.client.due now).filter fun document =>
        document ∉ s.client.due now ∨ ¬Sent s.client c' document }
  | _ => s.extended c'

/-- What is observed of an operation that failed: a ready client records the document that it could
not open. -/
def failed (s : Session) (c' : LanguageClient) : ClientOp → Session
  | .didOpen document _ _ =>
    if s.client.state = .ready then
      { s.extended c' with
        unopened :=
          if document ∈ s.client.documents.keys then s.unopened else document :: s.unopened
        unsent := document :: s.unsent }
    else s.extended c'
  | _ => s.extended c'

def step (s : Session) (op : ClientOp) : Option Session :=
  observe op.run s.client (fun _ c' => s.done c' op) fun _ c' => s.failed c' op

/-- An operation on a recorded document is one on a document that was opened. -/
def Opened (s : Session) : ClientOp → Prop
  | .didSave document | .didClose document _ _ | .didChange document _ _ _ _
  | .requestFeature _ document _ _ _ _ =>
    document ∈ s.client.documents.keys → document ∉ s.unopened
  | _ => True

instance Opened.decidable (s : Session) : ∀ op, Decidable (s.Opened op)
  | .didSave document | .didClose document _ _ | .didChange document _ _ _ _
  | .requestFeature _ document _ _ _ _ =>
    inferInstanceAs (Decidable (document ∈ s.client.documents.keys → document ∉ s.unopened))
  | .start _ | .acceptInitialize .. | .rejectInitialize _ | .failProtocol | .didOpen ..
  | .flushChanges _ | .acceptFeatureResponse _ | .restartGeneration | .processExited _
  | .beginShutdown _ | .acceptShutdown _ | .finishShutdown | .pollTimeouts _ | .takeOutbound =>
    isTrue trivial

end Session

/-! ## Logs of messages -/

variable {document : String} {l ms : List OutboundMessage} {m : OutboundMessage}
  {c c' : LanguageClient}

theorem OpenIn.append (h : OpenIn document l) (hms : .didClose document ∉ ms) :
    OpenIn document (l ++ ms) :=
  Since.append h fun _ hm he => hms (he ▸ hm)

theorem preceded_of_about (h : m.about = none) : Preceded l m := by
  intro document hd
  rw [h] at hd
  cases hd

/-- Messages that are about no document. -/
theorem each_preceded (h : ∀ m ∈ ms, m.about = none) :
    Each (fun pre m => Preceded (l ++ pre) m) ms :=
  each_of_forall fun m hm _ => preceded_of_about (h m hm)

theorem about_cancels {ids : List RequestId} :
    ∀ m ∈ ids.map OutboundMessage.cancelRequest, m.about = none := by
  intro m hm
  obtain ⟨id, -, rfl⟩ := List.mem_map.mp hm
  rfl

theorem not_mem_of_about (h : ∀ m ∈ ms, m.about = none) : .didClose document ∉ ms :=
  fun hm => nomatch h _ hm

/-! ## Every message is preceded by an opening -/

namespace Session

variable {s s' : Session} {op : ClientOp} {unopened unsent : List String}

structure InOrder (s : Session) : Prop where
  settled : s.client.Settled
  ordered : Each Preceded s.queued
  opened : ∀ d ∈ s.client.documents.keys, d ∉ s.unopened → OpenIn d s.queued
  held : ∀ d ∈ s.client.pendingChanges.keys, OpenIn d s.queued

/-- An operation queues `ms`: it closes no document that stays recorded or held back, and adds none
that was not open. -/
theorem InOrder.queue (h : s.InOrder) (hsettled : c'.Settled)
    (houtbound : c'.outbound = s.client.outbound ++ ms)
    (hms : Each (fun pre m => Preceded (s.queued ++ pre) m) ms)
    (hopen : ∀ d, (d ∈ c'.documents.keys ∧ d ∉ unopened) ∨ d ∈ c'.pendingChanges.keys →
      OpenIn d s.queued ∧ .didClose d ∉ ms) :
    InOrder { s.extended c' with unopened, unsent } := by
  have hqueued : (s.extended c').queued = s.queued ++ ms := by
    rw [extended, newlyQueued_eq houtbound]
  refine ⟨hsettled, ?_, fun d hd hnot => ?_, fun d hd => ?_⟩
  · exact hqueued ▸ h.ordered.append hms
  · obtain ⟨hin, hclose⟩ := hopen d (.inl ⟨hd, hnot⟩)
    exact hqueued ▸ hin.append hclose
  · obtain ⟨hin, hclose⟩ := hopen d (.inr hd)
    exact hqueued ▸ hin.append hclose

/-- An operation that changes no document queues messages about none. -/
theorem InOrder.quiet (h : s.InOrder) (hsettled : c'.Settled)
    (houtbound : c'.outbound = s.client.outbound ++ ms) (hms : ∀ m ∈ ms, m.about = none)
    (hdocuments : c'.documents = s.client.documents)
    (hpending : ∀ d ∈ c'.pendingChanges.keys, d ∈ s.client.pendingChanges.keys) :
    (s.extended c').InOrder := by
  refine h.queue hsettled houtbound (each_preceded hms) fun d hd => ⟨?_, not_mem_of_about hms⟩
  rw [hdocuments] at hd
  exact hd.elim (fun hd => h.opened d hd.1 hd.2) fun hd => h.held d (hpending d hd)

/-- An operation that takes messages out of the queue. -/
theorem InOrder.taken (h : s.InOrder) (hsettled : c'.Settled)
    (houtbound : c'.outbound.length ≤ s.client.outbound.length)
    (hdocuments : c'.documents = s.client.documents)
    (hpending : ∀ d ∈ c'.pendingChanges.keys, d ∈ s.client.pendingChanges.keys) :
    (s.extended c').InOrder := by
  have hqueued : (s.extended c').queued = s.queued := by
    rw [extended, newlyQueued_of_le houtbound, List.append_nil]
  refine ⟨hsettled, hqueued ▸ h.ordered, fun d hd hnot => ?_, fun d hd => ?_⟩
  · rw [hqueued]
    exact h.opened d (hdocuments ▸ hd) hnot
  · rw [hqueued]
    exact h.held d (hpending d hd)

theorem inOrder_start (hsettled : c'.Settled) (hpending : c'.pendingChanges = .empty) :
    InOrder ⟨c', [], c'.documents.keys, unsent⟩ := by
  refine ⟨hsettled, each_nil, fun d hd hnot => absurd hd hnot, fun d hd => ?_⟩
  rw [hpending] at hd
  cases hd

theorem InOrder.openIn (h : s.InOrder) (hopened : document ∈ s.client.documents.keys →
    document ∉ s.unopened) (hknown : document ∈ s.client.documents.keys) :
    OpenIn document s.queued :=
  h.opened document hknown (hopened hknown)

variable {ids : List RequestId}

/-- Cancellations and then one message about a document that was opened. -/
theorem each_preceded_concat (h : OpenIn document l)
    (hm : m.about = some document) : Each (fun pre m => Preceded (l ++ pre) m)
      (ids.map OutboundMessage.cancelRequest ++ [m]) := by
  refine each_concat.mpr ⟨each_preceded about_cancels, fun d hd => ?_⟩
  rw [hm, Option.some.injEq] at hd
  exact hd ▸ h.append (not_mem_of_about about_cancels)

theorem didClose_eq
    (h : .didClose document ∈ ids.map OutboundMessage.cancelRequest ++ [m]) :
    .didClose document = m :=
  (List.mem_append.mp h).elim (fun hin => absurd hin (not_mem_of_about about_cancels))
    List.mem_singleton.mp

theorem InOrder.opens {revision : UInt64} {text : String} (h : s.InOrder)
    (hsettled : c'.Settled)
    (hc : c' = (s.client.opened document revision).queue
      [.didOpen document s.client.descriptorId revision text]) :
    InOrder { s.extended c' with
      unopened := s.unopened.filter (· ≠ document), unsent } := by
  subst hc
  have hqueued : (s.extended ((s.client.opened document revision).queue
      [.didOpen document s.client.descriptorId revision text])).queued =
      s.queued ++ [.didOpen document s.client.descriptorId revision text] := by
    rw [extended, newlyQueued_eq rfl]
  have hopen : OpenIn document (s.queued ++
      [.didOpen document s.client.descriptorId revision text]) :=
    since_concat ⟨_, _, _, rfl⟩
  have happend : ∀ d, OpenIn d s.queued → OpenIn d (s.queued ++
      [.didOpen document s.client.descriptorId revision text]) := fun d hd => hd.append (by simp)
  refine ⟨hsettled, ?_, fun d hd hnot => ?_, fun d hd => ?_⟩
  · exact hqueued ▸ h.ordered.append (each_preceded (by simp [OutboundMessage.about]))
  · rw [hqueued]
    by_cases he : d = document
    · exact he ▸ hopen
    · have hknown := (SortedMap.mem_keys_insert.mp hd).resolve_left he
      exact happend d (h.opened d hknown fun hin => hnot (List.mem_filter.mpr ⟨hin, by simpa⟩))
  · rw [hqueued]
    exact happend d (h.held d hd)

theorem InOrder.flush {now : Duration} (h : s.InOrder) (hsettled : c'.Settled)
    (hc : c' = s.client.flushed (s.client.due now)) :
    InOrder { s.extended c' with unsent } := by
  have hmessages : ∀ m ∈ s.client.flushedMessages (s.client.due now),
      ∃ d p, s.client.pendingChanges.get? d = some p ∧ m = .didChange d p.revision p.text := by
    intro m hm
    obtain ⟨d, -, hd⟩ := List.mem_filterMap.mp (List.mem_of_mem_take hm)
    obtain ⟨p, hp, rfl⟩ := Option.map_eq_some_iff.mp hd
    exact ⟨d, p, hp, rfl⟩
  have hclose : ∀ d, .didClose d ∉ s.client.flushedMessages (s.client.due now) := by
    intro d hd
    obtain ⟨_, _, -, he⟩ := hmessages _ hd
    cases he
  subst hc
  refine h.queue hsettled rfl ?_ fun d hd => ⟨?_, hclose d⟩
  · intro pre m post hpre d hd
    obtain ⟨_, p, hp, rfl⟩ := hmessages m (by rw [hpre]; simp)
    cases hd
    refine (h.held d (SortedMap.mem_keys_of_get? hp)).append fun hin => hclose d ?_
    rw [hpre]
    exact List.mem_append_left _ hin
  · obtain hd | hd := hd
    · exact h.opened d hd.1 hd.2
    · refine h.held d ?_
      obtain ⟨p, hp⟩ := SortedMap.mem_keys_iff.mp hd
      simp only [flushed, SortedMap.get?_filterKeys] at hp
      split at hp
      · exact SortedMap.mem_keys_of_get? hp
      · cases hp

theorem InOrder.closes (h : s.InOrder) (hsettled : c'.Settled)
    (houtbound : c'.outbound = s.client.outbound ++ ms)
    (hms : Each (fun pre m => Preceded (s.queued ++ pre) m) ms)
    (hclose : ∀ d, .didClose d ∈ ms → d = document)
    (hc : c'.documents = s.client.documents.remove document ∧
      c'.pendingChanges = s.client.pendingChanges.remove document) :
    (s.extended c').InOrder := by
  refine h.queue hsettled houtbound hms fun d hd => ?_
  rw [hc.1, hc.2, SortedMap.mem_keys_remove, SortedMap.mem_keys_remove] at hd
  obtain ⟨⟨hne, hknown⟩, hnot⟩ | ⟨hne, hheld⟩ := hd
  · exact ⟨h.opened d hknown hnot, fun hin => hne (hclose d hin)⟩
  · exact ⟨h.held d hheld, fun hin => hne (hclose d hin)⟩

theorem InOrder.changes {change : PendingChange} (h : s.InOrder)
    (hsettled : c'.Settled) (hopen : OpenIn document s.queued)
    (hknown : document ∈ s.client.documents.keys)
    (hc : c' = (s.client.changed document change).invalidated ids) :
    (s.extended c').InOrder := by
  subst hc
  refine h.queue hsettled rfl (each_preceded about_cancels) fun d hd =>
    ⟨?_, not_mem_of_about about_cancels⟩
  obtain ⟨hd, hnot⟩ | hd := hd
  · obtain rfl | hd := SortedMap.mem_keys_insert.mp hd
    · exact hopen
    · exact h.opened d hd hnot
  · obtain rfl | hd := SortedMap.mem_keys_insert.mp hd
    · exact hopen
    · exact h.held d hd

theorem InOrder.done (h : s.InOrder) (hopened : s.Opened op) (hd : op.Done s.client c') :
    (s.done c' op).InOrder := by
  have hsettled := hd.settled h.settled
  cases op with
  | start now =>
    obtain ⟨hstate, -, deadline, rfl⟩ := hd
    have hidle : ¬s.client.Active :=
      hstate.elim (not_active · nofun nofun) (not_active · nofun nofun)
    exact inOrder_start hsettled (h.settled.idle hidle).1
  | acceptInitialize id capabilities =>
    obtain ⟨-, -, -, rfl⟩ := hd
    exact h.quiet hsettled rfl (by simp [OutboundMessage.about]) rfl fun _ hd => hd
  | rejectInitialize | failProtocol | restartGeneration | finishShutdown =>
    obtain rfl := hd
    exact h.taken hsettled (Nat.zero_le _) rfl nofun
  | processExited now =>
    obtain ⟨crashTimes, state, -, rfl⟩ := hd
    exact h.taken hsettled (Nat.zero_le _) rfl nofun
  | didOpen document revision text =>
    obtain ⟨-, -, hc⟩ := hd
    exact h.opens hsettled hc
  | didSave document =>
    obtain ⟨-, hknown, rfl | ⟨-, rfl⟩⟩ := hd
    · exact h.quiet hsettled (List.append_nil _).symm nofun rfl fun _ hd => hd
    · have hsave := @each_preceded_concat _ _ (.didSave document) [] (h.openIn hopened hknown) rfl
      refine h.queue hsettled rfl hsave ?_
      exact fun d hd => ⟨hd.elim (fun hd => h.opened d hd.1 hd.2) (h.held d), by simp⟩
  | didClose document now order =>
    obtain ⟨-, hknown, -, _, rfl⟩ := hd
    refine h.closes hsettled (List.append_assoc ..)
      (each_preceded_concat (h.openIn hopened hknown) rfl) (fun d hd => ?_) ⟨rfl, rfl⟩
    exact OutboundMessage.didClose.inj (didClose_eq hd)
  | didChange document revision text now order =>
    obtain ⟨-, ⟨known, hknown, -⟩, -, due, hc⟩ := hd
    have hmem := SortedMap.mem_keys_of_get? hknown
    exact h.changes hsettled (h.openIn hopened hmem) hmem hc
  | flushChanges now => exact h.flush hsettled hd
  | requestFeature kind document revision position now order =>
    obtain ⟨-, hknown, -, request, rfl⟩ := hd
    refine h.queue hsettled (List.append_assoc ..)
      (each_preceded_concat (h.openIn hopened (SortedMap.mem_keys_of_get? hknown)) rfl) ?_
    exact fun d hd => ⟨hd.elim (fun hd => h.opened d hd.1 hd.2) (h.held d),
      fun hin => nomatch didClose_eq hin⟩
  | acceptFeatureResponse request =>
    obtain rfl := hd
    exact h.quiet hsettled (List.append_nil _).symm nofun rfl fun _ hd => hd
  | beginShutdown now =>
    obtain ⟨-, deadline, rfl⟩ := hd
    exact h.quiet hsettled (List.append_nil _).symm nofun rfl nofun
  | acceptShutdown id =>
    obtain ⟨-, -, -, rfl⟩ := hd
    exact h.quiet hsettled rfl (by simp [OutboundMessage.about]) rfl fun _ hd => hd
  | pollTimeouts now =>
    obtain ⟨⟨ms, houtbound, hms⟩, hdocuments, hpending, -, -⟩ := Polled.fewer hd
    refine h.quiet hsettled houtbound (fun m hm => ?_) hdocuments fun d hd => ?_
    · obtain ⟨id, rfl | rfl⟩ := hms m hm
      · rfl
      · rfl
    · obtain hpending | ⟨hpending, -⟩ := hpending
      · exact hpending ▸ hd
      · rw [hpending] at hd
        cases hd
  | takeOutbound =>
    obtain rfl := hd
    exact h.taken hsettled (by simp) rfl fun _ hd => hd

theorem InOrder.failed (h : s.InOrder) (hopened : s.Opened op) (hf : op.Failed s.client c') :
    (s.failed c' op).InOrder := by
  have hsettled := hf.settled h.settled
  have hsame : c' = s.client → (s.extended c').InOrder := by
    rintro rfl
    exact h.quiet hsettled (List.append_nil _).symm nofun rfl fun _ hd => hd
  cases op with
  | start now =>
    obtain he | ⟨-, -, rfl⟩ := hf
    · exact hsame he
    · exact h.quiet hsettled (List.append_nil _).symm nofun rfl fun _ hd => hd
  | acceptInitialize id capabilities =>
    obtain he | ⟨-, -, -, rfl⟩ := hf
    · exact hsame he
    · exact h.quiet hsettled (List.append_nil _).symm nofun rfl fun _ hd => hd
  | didOpen document revision text =>
    have hknown : ∀ d ∈ c'.documents.keys, d = document ∨ d ∈ s.client.documents.keys := by
      obtain rfl | ⟨-, -, rfl⟩ := hf
      · exact fun d hd => .inr hd
      · exact fun d hd => SortedMap.mem_keys_insert.mp hd
    have hsilent : c'.outbound = s.client.outbound ++ [] ∧
        c'.pendingChanges = s.client.pendingChanges := by
      obtain rfl | ⟨-, -, rfl⟩ := hf
      · exact ⟨(List.append_nil _).symm, rfl⟩
      · exact ⟨(List.append_nil _).symm, rfl⟩
    by_cases hready : s.client.state = .ready
    · simp only [Session.failed, if_pos hready]
      refine h.queue hsettled hsilent.1 (each_preceded nofun) fun d hd => ⟨?_, nofun⟩
      obtain ⟨hd, hnot⟩ | hd := hd
      · split at hnot
        · obtain rfl | hd := hknown d hd
          · exact h.opened d ‹_› hnot
          · exact h.opened d hd hnot
        · obtain ⟨hne, hnot⟩ := not_or.mp (hnot ∘ List.mem_cons.mpr)
          exact h.opened d ((hknown d hd).resolve_left hne) hnot
      · exact h.held d (hsilent.2 ▸ hd)
    · simp only [Session.failed, if_neg hready]
      exact hsame (hf.resolve_right fun hf => hready hf.1)
  | didClose document now order =>
    obtain he | ⟨-, -, rfl⟩ := hf
    · exact hsame he
    · exact h.closes hsettled rfl (each_preceded about_cancels)
        (fun d hd => absurd hd (not_mem_of_about about_cancels)) ⟨rfl, rfl⟩
  | didChange document revision text now order =>
    obtain he | ⟨-, ⟨known, hknown, -⟩, due, hc⟩ := hf
    · exact hsame he
    · have hmem := SortedMap.mem_keys_of_get? hknown
      exact h.changes hsettled (h.openIn hopened hmem) hmem hc
  | requestFeature kind document revision position now order =>
    obtain he | ⟨-, -, _, rfl⟩ := hf
    · exact hsame he
    · exact h.quiet hsettled rfl about_cancels rfl fun _ hd => hd
  | beginShutdown now =>
    obtain he | ⟨-, rfl⟩ := hf
    · exact hsame he
    · exact h.quiet hsettled (List.append_nil _).symm nofun rfl nofun
  | acceptShutdown id =>
    obtain he | ⟨-, rfl⟩ := hf
    · exact hsame he
    · exact h.quiet hsettled (List.append_nil _).symm nofun rfl fun _ hd => hd
  | rejectInitialize | failProtocol | didSave | flushChanges | acceptFeatureResponse
  | restartGeneration | processExited | finishShutdown | pollTimeouts | takeOutbound =>
    exact hsame hf

theorem step_cases (hs : s.step op = some s') :
    (∃ c', op.Done s.client c' ∧ s' = s.done c' op) ∨
      ∃ c', op.Failed s.client c' ∧ s' = s.failed c' op := by
  refine wp.observe (P := True) (I := fun s' => (∃ c', op.Done s.client c' ∧ s' = s.done c' op) ∨
    ∃ c', op.Failed s.client c' ∧ s' = s.failed c' op) ?_ hs
  exact wp_mono (op.run_spec s.client) (fun _ c' hd => .inl ⟨c', hd, rfl⟩)
    (fun _ c' hf => .inr ⟨c', hf, rfl⟩) fun h => h

theorem InOrder.step (h : s.InOrder) (hopened : s.Opened op) (hs : s.step op = some s') :
    s'.InOrder := by
  obtain ⟨c', hd, rfl⟩ | ⟨c', hf, rfl⟩ := step_cases hs
  · exact h.done hopened hd
  · exact h.failed hopened hf

theorem inOrder_new (workspaceId descriptorId : String) :
    (start (.new workspaceId descriptorId)).InOrder :=
  ⟨settled_of_none (fun _ => ⟨rfl, rfl⟩) ⟨rfl, rfl, rfl⟩, each_nil, nofun, nofun⟩

theorem not_opens_cancels :
    ∀ m ∈ ids.map OutboundMessage.cancelRequest, ¬m.Opens document := by
  rintro m hm ⟨_, _, _, rfl⟩
  simp at hm

theorem not_opens_concat (h : ¬m.Opens document) :
    ∀ m' ∈ ids.map OutboundMessage.cancelRequest ++ [m], ¬m'.Opens document := by
  intro m' hm'
  obtain hm' | hm' := List.mem_append.mp hm'
  · exact not_opens_cancels m' hm'
  · exact List.mem_singleton.mp hm' ▸ h

/-- Apart from `didOpen` no operation queues one. -/
theorem not_opens_of_done (hop : ∀ revision text, op ≠ .didOpen document revision text)
    (hd : op.Done c c') : ∀ m ∈ newlyQueued c c', ¬m.Opens document := by
  have hqueue : ∀ ms, c'.outbound = c.outbound ++ ms → (∀ m ∈ ms, ¬m.Opens document) →
      ∀ m ∈ newlyQueued c c', ¬m.Opens document := fun ms houtbound hms =>
    newlyQueued_eq houtbound ▸ hms
  have htaken : c'.outbound.length ≤ c.outbound.length →
      ∀ m ∈ newlyQueued c c', ¬m.Opens document := fun hle =>
    newlyQueued_of_le hle ▸ nofun
  cases op with
  | start now =>
    obtain ⟨-, -, deadline, rfl⟩ := hd
    exact htaken le_rfl
  | acceptInitialize id capabilities =>
    obtain ⟨-, -, -, rfl⟩ := hd
    exact hqueue _ rfl (by simp [OutboundMessage.Opens])
  | rejectInitialize | failProtocol | restartGeneration | finishShutdown =>
    obtain rfl := hd
    exact htaken (Nat.zero_le _)
  | processExited now =>
    obtain ⟨crashTimes, state, -, rfl⟩ := hd
    exact htaken (Nat.zero_le _)
  | didOpen d revision text =>
    obtain ⟨-, -, rfl⟩ := hd
    refine hqueue _ rfl ?_
    rintro m hm ⟨_, _, _, rfl⟩
    obtain ⟨rfl, -⟩ := OutboundMessage.didOpen.inj (List.mem_singleton.mp hm)
    exact hop revision text rfl
  | didSave d =>
    obtain ⟨-, -, rfl | ⟨-, rfl⟩⟩ := hd
    · exact htaken le_rfl
    · exact hqueue _ rfl (by simp [OutboundMessage.Opens])
  | didClose d now order =>
    obtain ⟨-, -, -, _, rfl⟩ := hd
    exact hqueue _ (List.append_assoc ..) (not_opens_concat (by simp [OutboundMessage.Opens]))
  | didChange d revision text now order =>
    obtain ⟨-, -, -, due, rfl⟩ := hd
    exact hqueue _ rfl not_opens_cancels
  | flushChanges now =>
    obtain rfl := hd
    refine hqueue _ rfl ?_
    rintro m hm ⟨_, _, _, rfl⟩
    obtain ⟨d, -, hd⟩ := List.mem_filterMap.mp (List.mem_of_mem_take hm)
    obtain ⟨p, -, he⟩ := Option.map_eq_some_iff.mp hd
    cases he
  | requestFeature kind d revision position now order =>
    obtain ⟨-, -, -, request, rfl⟩ := hd
    exact hqueue _ (List.append_assoc ..) (not_opens_concat (by simp [OutboundMessage.Opens]))
  | acceptFeatureResponse request =>
    obtain rfl := hd
    exact htaken le_rfl
  | beginShutdown now =>
    obtain ⟨-, deadline, rfl⟩ := hd
    exact htaken le_rfl
  | acceptShutdown id =>
    obtain ⟨-, -, -, rfl⟩ := hd
    exact hqueue _ rfl (by simp [OutboundMessage.Opens])
  | pollTimeouts now =>
    obtain ⟨⟨ms, houtbound, hms⟩, -⟩ := Polled.fewer hd
    refine hqueue ms houtbound ?_
    rintro m hm ⟨_, _, _, rfl⟩
    obtain ⟨id, he | he⟩ := hms _ hm <;> cases he
  | takeOutbound =>
    obtain rfl := hd
    exact htaken (by simp)

theorem not_opens_of_failed (hf : op.Failed c c') :
    ∀ m ∈ newlyQueued c c', ¬m.Opens document := by
  have hqueue : ∀ ids : List RequestId, c'.outbound =
      c.outbound ++ ids.map OutboundMessage.cancelRequest →
      ∀ m ∈ newlyQueued c c', ¬m.Opens document := fun ids houtbound =>
    newlyQueued_eq houtbound ▸ not_opens_cancels
  have hstill : c'.outbound = c.outbound → ∀ m ∈ newlyQueued c c', ¬m.Opens document :=
    fun he => newlyQueued_of_le (le_of_eq (congrArg List.length he)) ▸ nofun
  have hsame : c' = c → ∀ m ∈ newlyQueued c c', ¬m.Opens document := fun he => hstill (he ▸ rfl)
  cases op with
  | start now =>
    obtain he | ⟨-, -, rfl⟩ := hf
    · exact hsame he
    · exact hstill rfl
  | acceptInitialize id capabilities =>
    obtain he | ⟨-, -, -, rfl⟩ := hf
    · exact hsame he
    · exact hstill rfl
  | didOpen d revision text =>
    obtain he | ⟨-, -, rfl⟩ := hf
    · exact hsame he
    · exact hstill rfl
  | beginShutdown now =>
    obtain he | ⟨-, rfl⟩ := hf
    · exact hsame he
    · exact hstill rfl
  | acceptShutdown id =>
    obtain he | ⟨-, rfl⟩ := hf
    · exact hsame he
    · exact hstill rfl
  | didClose d now order =>
    obtain he | ⟨-, -, rfl⟩ := hf
    · exact hsame he
    · exact hqueue _ rfl
  | didChange d revision text now order =>
    obtain he | ⟨-, -, due, rfl⟩ := hf
    · exact hsame he
    · exact hqueue _ rfl
  | requestFeature kind d revision position now order =>
    obtain he | ⟨-, -, ids, rfl⟩ := hf
    · exact hsame he
    · exact hqueue _ rfl
  | rejectInitialize | failProtocol | didSave | flushChanges | acceptFeatureResponse
  | restartGeneration | processExited | finishShutdown | pollTimeouts | takeOutbound =>
    exact hsame hf

theorem done_client : (s.done c' op).client = c' := by
  cases op <;> rfl

theorem failed_client : (s.failed c' op).client = c' := by
  cases op with
  | didOpen document revision text =>
    simp only [Session.failed]
    split <;> rfl
  | _ => rfl

/-- The only operation that queues a `didOpen` is the caller's, and it queues one. -/
theorem opens_of_step (hs : s.step op = some s') {m : OutboundMessage}
    (hm : m ∈ newlyQueued s.client s'.client) (hopens : m.Opens document) :
    ∃ revision text, op = .didOpen document revision text ∧
      newlyQueued s.client s'.client = [m] := by
  obtain ⟨c', hd, rfl⟩ | ⟨c', hf, rfl⟩ := step_cases hs
  · rw [done_client] at hm ⊢
    by_cases hop : ∀ revision text, op ≠ .didOpen document revision text
    · exact absurd hopens (not_opens_of_done hop hd m hm)
    · simp only [ne_eq, not_forall, not_not] at hop
      obtain ⟨revision, text, rfl⟩ := hop
      obtain ⟨-, -, rfl⟩ := hd
      rw [newlyQueued_eq rfl, List.mem_singleton] at hm
      rw [newlyQueued_eq rfl, hm]
      exact ⟨revision, text, rfl, rfl⟩
  · rw [failed_client] at hm
    exact absurd hopens (not_opens_of_failed hf m hm)

/-- In every run whose steps meet `Opened`, each message about a document stands after a `didOpen`
of it, in the same generation, with no `didClose` in between. Each `didOpen` is one of the
caller's. -/
theorem order_law {workspaceId descriptorId : String} :
    (∀ s, Runs step Opened (start (.new workspaceId descriptorId)) s → Each Preceded s.queued) ∧
    ∀ s op s' document m, step s op = some s' → m ∈ newlyQueued s.client s'.client →
      m.Opens document → ∃ revision text, op = .didOpen document revision text ∧
        newlyQueued s.client s'.client = [m] := by
  refine ⟨fun s h => ?_, fun s op s' document m hs hm hopens => opens_of_step hs hm hopens⟩
  exact (h.invariant (I := InOrder) (inOrder_new workspaceId descriptorId)
    fun _ _ _ hI hopened hs => hI.step hopened hs).ordered

def capabilities : ServerCapabilities :=
  (ServerCapabilities.new .full [.hover] .utf16).withSaveNotifications true

/-- A document that is opened, changed, asked about, saved and closed. -/
theorem order_law_session : ∃ s : Session, Runs step Opened (start (.new "w" "rust")) s ∧
    s.queued = [.initialized, .didOpen "a" "rust" 1 "", .didChange "a" 2 "x",
      .feature ⟨2⟩ .hover "a" ⟨0, 0⟩, .didSave "a", .cancelRequest ⟨2⟩, .didClose "a"] ∧
    Each Preceded s.queued := by
  have hruns : ([.start 0, .acceptInitialize ⟨1⟩ capabilities, .didOpen "a" 1 "",
      .didChange "a" 2 "x" 0 .sorted, .flushChanges changeDelay,
      .requestFeature .hover "a" 2 ⟨0, 0⟩ 0 .sorted, .didSave "a",
      .didClose "a" 0 .sorted].foldlM step (start (.new "w" "rust"))).any fun s =>
        s.queued = [.initialized, .didOpen "a" "rust" 1 "", .didChange "a" 2 "x",
          .feature ⟨2⟩ .hover "a" ⟨0, 0⟩, .didSave "a", .cancelRequest ⟨2⟩, .didClose "a"] := by
    decide
  obtain ⟨s, hs, hend⟩ := (Option.any_eq_true _ _).mp hruns
  have hto : Runs step Opened (start (.new "w" "rust")) s := Along.runs (by decide) hs
  exact ⟨s, hto, of_decide_eq_true hend, order_law.1 s hto⟩

/-- A document opened before a restart is saved after it, without a `didOpen`. -/
theorem save_after_restart : ∃ s : Session,
    Runs step (fun _ _ => True) (start (.new "w" "rust")) s ∧
      s.queued = [.initialized, .didSave "a"] ∧ ¬Each Preceded s.queued := by
  have hruns : ([.start 0, .acceptInitialize ⟨1⟩ capabilities, .didOpen "a" 1 "",
      .restartGeneration, .start 0, .acceptInitialize ⟨2⟩ capabilities,
      .didSave "a"].foldlM step (start (.new "w" "rust"))).any fun s =>
        s.queued = [.initialized, .didSave "a"] := by
    decide
  obtain ⟨s, hs, hend⟩ := (Option.any_eq_true _ _).mp hruns
  have hqueued := of_decide_eq_true hend
  refine ⟨s, (along_true _ _).runs hs, hqueued, fun hordered => ?_⟩
  obtain ⟨pre, m, post, hpre, ⟨_, _, _, rfl⟩, -⟩ :=
    hordered [.initialized] (.didSave "a") [] hqueued "a" rfl
  have hlen := congrArg List.length hpre
  cases pre with
  | nil => cases hpre
  | cons m pre => simp at hlen

end Session

end Strukt.Language
