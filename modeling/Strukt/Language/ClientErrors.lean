import Strukt.Language.ClientSpec
import Strukt.Lib.Runs

/-!
# What an error of the language client leaves behind

A method records a document, a change or a forgotten request before it queues the message for it,
and the queue may be full by then.

* **Errors** (`errors_law`): the condition `Atomic` on the state before an operation decides whether
  its errors leave the documents, the held changes and the requests as they were.
* **Flushes**: a flush takes every change out that is due, and queues as many as there is room for;
  it loses none exactly when all of them fit.
-/

namespace Strukt.Language

open Method LanguageClient

/-- The revisions, the held changes and the requests are the same. -/
structure Unchanged (c c' : LanguageClient) : Prop where
  documents : c'.documents = c.documents
  pendingChanges : c'.pendingChanges = c.pendingChanges
  requests : c'.requests = c.requests

/-- Where the operation writes before it fails, it does not fail, or what it writes was there. -/
def Atomic (c : LanguageClient) : ClientOp → Prop
  | .didOpen document revision _ =>
    c.state = .ready → 0 < c.room ∨ c.documents.get? document = some revision
  | .didClose document _ _ =>
    c.state = .ready → document ∈ c.documents.keys → (c.requestsOf document).length < c.room
  | .didChange document revision _ now _ =>
    c.state = .ready → ∀ known, c.documents.get? document = some known → known < revision →
      now.checkedAdd changeDelay ≠ none → (c.requestsOf document).length ≤ c.room
  | .requestFeature kind document revision _ now _ =>
    c.state = .ready → c.capabilities.any (·.supports kind) = true →
      c.documents.get? document = some revision → c.requests.length < requestLimit →
        c.requestsOfKind kind document ≠ [] →
          0 < c.room ∧ c.ids ≠ -1 ∧ (1 < c.room ∨ now.checkedAdd requestTimeout = none)
  | .beginShutdown _ =>
    c.Active → c.ids = -1 → c.pendingChanges = .empty ∧ c.requests = .empty
  | _ => True

/-- A flush queues the message of each change that it takes out. -/
def FlushKeeps (c : LanguageClient) (now : Duration) : Prop :=
  ∀ r c', (flushChanges now).exec c = some (r, c') → ∀ document p,
    c.pendingChanges.get? document = some p → c'.pendingChanges.get? document = none →
      .didChange document p.revision p.text ∈ newlyQueued c c'

variable {c c' : LanguageClient} {document : String}

theorem Unchanged.refl (c : LanguageClient) : Unchanged c c := ⟨rfl, rfl, rfl⟩

/-- A document that was recorded and is closed. -/
theorem not_unchanged_closed {ids : List RequestId} (h : document ∈ c.documents.keys) :
    ¬Unchanged c ((c.closed document).invalidated ids) := by
  intro hsame
  have hget : (c.documents.remove document).keys = c.documents.keys :=
    congrArg SortedMap.keys hsame.documents
  rw [← hget, SortedMap.mem_keys_remove] at h
  exact h.1 rfl

theorem not_unchanged_changed {ids : List RequestId} {change : PendingChange} {known : UInt64}
    (h : c.documents.get? document = some known) (hlt : known < change.revision) :
    ¬Unchanged c ((c.changed document change).invalidated ids) := by
  intro hsame
  have hget : (c.documents.insert document change.revision).get? document =
      c.documents.get? document := congrArg (SortedMap.get? · document) hsame.documents
  rw [SortedMap.get?_insert, if_pos rfl, h, Option.some.injEq] at hget
  exact absurd hlt (hget ▸ UInt64.lt_irrefl _)

/-- A request that was outstanding and is forgotten. -/
theorem not_unchanged_forgotten {id : RequestId} (h : id ∈ c.requests.keys)
    (hrequests : c'.requests = (c.invalidated [id]).requests) : ¬Unchanged c c' := by
  intro hsame
  obtain ⟨r, hr⟩ := SortedMap.mem_keys_iff.mp h
  have hget : (c.invalidated [id]).requests.get? id = c.requests.get? id := by
    rw [← hrequests, hsame.requests]
  simp [invalidated, hr] at hget

theorem Unchanged.iff_opened {revision : UInt64} :
    Unchanged c (c.opened document revision) ↔ c.documents.get? document = some revision := by
  constructor
  · intro hsame
    have hget : (c.documents.insert document revision).get? document =
        c.documents.get? document := congrArg (SortedMap.get? · document) hsame.documents
    rw [← hget, SortedMap.get?_insert, if_pos rfl]
  · intro h
    refine ⟨SortedMap.ext_get? fun d => ?_, rfl, rfl⟩
    show (c.documents.insert document revision).get? d = c.documents.get? d
    rw [SortedMap.get?_insert]
    split
    · subst_vars
      exact h.symm
    · rfl

theorem Unchanged.iff_stopping :
    Unchanged c c.stopping ↔ c.pendingChanges = .empty ∧ c.requests = .empty :=
  ⟨fun h => ⟨h.pendingChanges.symm, h.requests.symm⟩, fun h => ⟨rfl, h.1.symm, h.2.symm⟩⟩

theorem length_order {order : HashOrder} {ids : List RequestId} :
    (order.order ids).length = ids.length := (order.perm ids).length_eq

/-- The request that is cancelled for a new one of its kind, if there is one. -/
theorem replaced_cases (c : LanguageClient) (kind : FeatureRequestKind) (document : String)
    (order : HashOrder) :
    (c.requestsOfKind kind document = [] ∧ c.replaced kind document order = []) ∨
      ∃ id ∈ c.requests.keys, c.requestsOfKind kind document ≠ [] ∧
        c.replaced kind document order = [id] := by
  have hperm := order.perm (c.requestsOfKind kind document)
  unfold replaced
  cases hids : order.order (c.requestsOfKind kind document) with
  | nil =>
    rw [hids] at hperm
    exact .inl ⟨hperm.symm.eq_nil, rfl⟩
  | cons id ids =>
    rw [hids] at hperm
    have hmem : id ∈ c.requestsOfKind kind document := hperm.mem_iff.mp List.mem_cons_self
    refine .inr ⟨id, ?_, fun hnil => ?_, rfl⟩
    · obtain ⟨e, he, rfl⟩ := List.mem_map.mp hmem
      exact List.mem_map_of_mem (List.mem_filter.mp he).1
    · rw [hnil] at hmem
      cases hmem

/-- The errors of an operation, as a weakest precondition. -/
def Keeps (c : LanguageClient) (op : ClientOp) : Prop :=
  wp op.run (fun _ _ => True) (fun _ c' => Unchanged c c') True c

theorem keeps_didOpen {revision : UInt64} {text : String} :
    Keeps c (.didOpen document revision text) ↔ Atomic c (.didOpen document revision text) := by
  have hroom : (c.opened document revision).room = c.room := rfl
  simp only [opened] at hroom
  simp only [Keeps, ClientOp.run, LanguageClient.didOpen, wp_bind, wp_ensureReady, wp_modify,
    wp_get, wp_pushOutbound, implies_true, true_and, Atomic, hroom]
  constructor
  · intro h hready
    by_cases hzero : c.room = 0
    · exact .inr (Unchanged.iff_opened.mp (h.1 hready hzero))
    · exact .inl (Nat.pos_of_ne_zero hzero)
  · intro h
    refine ⟨fun hready hzero => Unchanged.iff_opened.mpr ?_, fun _ => .refl c⟩
    exact (h hready).resolve_left fun hpos => by omega

theorem keeps_didClose {now : Duration} {order : HashOrder} :
    Keeps c (.didClose document now order) ↔ Atomic c (.didClose document now order) := by
  have hids : (order.order ((c.closed document).requestsOf document)).length =
      (c.requestsOf document).length := length_order
  have hroom : (c.closed document).room = c.room := rfl
  have hqueue : (c.requestsOf document).length ≤ c.room →
      ((c.closed document).invalidated
        (order.order ((c.closed document).requestsOf document))).room =
      c.room - (c.requestsOf document).length := by
    intro hle
    rw [room_invalidated (by omega), hids, hroom]
  simp only [closed] at hids hroom hqueue
  simp only [Keeps, ClientOp.run, LanguageClient.didClose, wp_bind, wp_ensureReady, wp_get,
    wp_discard, wp_okOr, wp_modify, wp_invalidateDocumentRequests, wp_pushOutbound, wp_ite,
    wp_orPanic, wp_pure, implies_true, true_and, hids, hroom, Atomic]
  constructor
  · intro h hready hmem
    obtain ⟨revision, hget⟩ := SortedMap.mem_keys_iff.mp hmem
    obtain ⟨hpush, hcancel⟩ := (h.1 hready).1 revision hget
    by_contra hnot
    obtain hlt | hle := Nat.lt_or_ge c.room (c.requestsOf document).length
    · exact not_unchanged_closed hmem (hcancel hlt)
    · exact not_unchanged_closed hmem (hpush hle (by rw [hqueue hle]; omega))
  · intro h
    refine ⟨fun hready => ⟨fun revision hget => ?_, fun _ => .refl c⟩, fun _ => .refl c⟩
    have hlt := h hready (SortedMap.mem_keys_iff.mpr ⟨revision, hget⟩)
    refine ⟨fun hle hzero => ?_, fun hlt' => by omega⟩
    rw [hqueue hle] at hzero
    omega

theorem keeps_didChange {revision : UInt64} {text : String} {now : Duration}
    {order : HashOrder} :
    Keeps c (.didChange document revision text now order) ↔
      Atomic c (.didChange document revision text now order) := by
  have hids : ∀ due, (order.order
      ((c.changed document ⟨revision, text, due⟩).requestsOf document)).length =
        (c.requestsOf document).length := fun _ => length_order
  have hroom : ∀ due, (c.changed document ⟨revision, text, due⟩).room = c.room := fun _ => rfl
  simp only [changed] at hids hroom
  simp only [Keeps, ClientOp.run, LanguageClient.didChange, wp_bind, wp_ensureReady, wp_get,
    wp_okOr, wp_ensure, wp_orPanic, wp_modify, wp_invalidateDocumentRequests, implies_true,
    true_and, hids, hroom, Atomic]
  constructor
  · intro h hready known hget hlt hdue
    obtain ⟨due, hdue⟩ := Option.ne_none_iff_exists'.mp hdue
    have hcancel := (((h.1 hready).1 known hget).1 hlt).1 due hdue
    by_contra hnot
    exact @not_unchanged_changed _ _ _ ⟨revision, text, due⟩ known hget hlt
      (hcancel (Nat.lt_of_not_le hnot))
  · intro h
    refine ⟨fun hready => ⟨fun known hget => ⟨fun hlt => ⟨fun due hdue hfull => ?_, trivial⟩,
      fun _ => .refl c⟩, fun _ => .refl c⟩, fun _ => .refl c⟩
    have hle := h hready known hget hlt (by rw [hdue]; exact Option.some_ne_none _)
    omega

theorem keeps_requestFeature {kind : FeatureRequestKind} {revision : UInt64}
    {position : LspPosition} {now : Duration} {order : HashOrder} :
    Keeps c (.requestFeature kind document revision position now order) ↔
      Atomic c (.requestFeature kind document revision position now order) := by
  simp only [Keeps, ClientOp.run, LanguageClient.requestFeature, wp_discard, wp_bind,
    wp_ensureReady, wp_get, wp_ensure, wp_invalidateFeatureRequest, wp_nextId, wp_orPanic,
    wp_pushOutbound, wp_modify, wp_pure, implies_true, true_and, and_true, Atomic]
  constructor
  · intro h hready hsupports hget hlimit hids
    obtain ⟨hkind, -⟩ | ⟨id, hmem, -, hreplaced⟩ := replaced_cases c kind document order
    · exact absurd hkind hids
    · obtain ⟨hgo, hstop⟩ := (((h.1 hready).1 hsupports).1 hget).1 hlimit
      rw [hreplaced, List.length_singleton] at hgo hstop
      have hpos : 0 < c.room := by
        by_contra hnot
        exact not_unchanged_forgotten hmem rfl (hstop (by omega))
      obtain ⟨hnext, hexhausted⟩ := hgo hpos
      have hne : c.ids ≠ -1 := fun hids' => not_unchanged_forgotten hmem rfl (hexhausted hids')
      refine ⟨hpos, hne, ?_⟩
      by_contra hnot
      obtain ⟨hle, hdeadline⟩ := not_or.mp hnot
      obtain ⟨deadline, hdeadline⟩ := Option.ne_none_iff_exists'.mp hdeadline
      have hroom : (c.invalidated [id]).room = c.room - 1 := room_invalidated hpos
      exact absurd (hnext hne deadline hdeadline (hroom.trans (by omega)))
        (not_unchanged_forgotten hmem rfl)
  · intro h
    refine ⟨fun hready => ⟨fun hsupports => ⟨fun hget => ⟨fun hlimit => ?_, fun _ => .refl c⟩,
      fun _ => .refl c⟩, fun _ => .refl c⟩, fun _ => .refl c⟩
    obtain ⟨-, hreplaced⟩ | ⟨id, -, hkind, hreplaced⟩ := replaced_cases c kind document order
    · rw [hreplaced, invalidated_nil]
      exact ⟨fun _ => ⟨fun _ _ _ _ => ⟨rfl, rfl, rfl⟩, fun _ => .refl c⟩, fun hlt => absurd hlt (Nat.not_lt_zero _)⟩
    · obtain ⟨hpos, hne, hlast⟩ := h hready hsupports hget hlimit hkind
      have hroom : (c.invalidated [id]).room = c.room - 1 := room_invalidated hpos
      rw [hreplaced, List.length_singleton]
      refine ⟨fun _ => ⟨fun _ deadline hdeadline hfull => ?_, fun hids => absurd hids hne⟩,
        fun hlt => by omega⟩
      obtain hlast | hnone := hlast
      · have hzero : (c.invalidated [id]).room = 0 := hfull
        omega
      · rw [hnone] at hdeadline
        cases hdeadline

theorem keeps_beginShutdown {now : Duration} :
    Keeps c (.beginShutdown now) ↔ Atomic c (.beginShutdown now) := by
  rw [Keeps, ClientOp.run, wp_discard, wp_beginShutdown]
  constructor
  · intro h hactive hids
    exact Unchanged.iff_stopping.mp ((h.1 hactive).2 hids)
  · intro h
    refine ⟨fun hactive => ⟨fun _ => ⟨fun _ _ => trivial, fun _ => trivial⟩, fun hids => ?_⟩,
      fun _ => .refl c⟩
    exact Unchanged.iff_stopping.mpr (h hactive hids)

theorem keeps_iff (op : ClientOp) : Keeps c op ↔ Atomic c op := by
  cases op with
  | didOpen document revision text => exact keeps_didOpen
  | didClose document now order => exact keeps_didClose
  | didChange document revision text now order => exact keeps_didChange
  | requestFeature kind document revision position now order => exact keeps_requestFeature
  | beginShutdown now => exact keeps_beginShutdown
  | start now =>
    refine iff_of_true (wp_mono (ClientOp.run_spec (.start now) c) (fun _ _ _ => trivial) ?_
      fun h => h) trivial
    rintro _ _ (rfl | ⟨-, -, rfl⟩)
    · exact .refl _
    · exact ⟨rfl, rfl, rfl⟩
  | acceptInitialize id capabilities =>
    refine iff_of_true (wp_mono (ClientOp.run_spec (.acceptInitialize id capabilities) c)
      (fun _ _ _ => trivial) ?_ fun h => h) trivial
    rintro _ _ (rfl | ⟨-, -, -, rfl⟩)
    · exact .refl _
    · exact ⟨rfl, rfl, rfl⟩
  | acceptShutdown id =>
    refine iff_of_true (wp_mono (ClientOp.run_spec (.acceptShutdown id) c)
      (fun _ _ _ => trivial) ?_ fun h => h) trivial
    rintro _ _ (rfl | ⟨-, rfl⟩)
    · exact .refl _
    · exact ⟨rfl, rfl, rfl⟩
  | _ =>
    refine iff_of_true (wp_mono (ClientOp.run_spec _ c) (fun _ _ _ => trivial) ?_ fun h => h)
      trivial
    rintro _ _ rfl
    exact .refl _

/-! ## Flushes -/

theorem due_pending {now : Duration} (h : document ∈ c.due now) :
    ∃ p, c.pendingChanges.get? document = some p := by
  obtain ⟨e, he, rfl⟩ := List.mem_map.mp h
  exact SortedMap.mem_keys_iff.mp (List.mem_map_of_mem (List.mem_filter.mp he).1)

/-- Each document that is due has a message of its own. -/
theorem length_changeMessages (now : Duration) :
    ((c.due now).filterMap c.changeMessage).length = (c.due now).length := by
  refine List.filterMap_length_eq_length.mpr fun d hd => ?_
  obtain ⟨p, hp⟩ := due_pending hd
  simp [changeMessage, hp]

theorem nodup_changeMessages (now : Duration) :
    ((c.due now).filterMap c.changeMessage).Nodup := by
  refine (nodup_due c now).filterMap fun d d' m hd hd' => ?_
  obtain ⟨p, -, rfl⟩ := Option.map_eq_some_iff.mp hd
  obtain ⟨p', -, he⟩ := Option.map_eq_some_iff.mp hd'
  injection he with hdocument
  exact hdocument.symm

theorem flushKeeps_iff (now : Duration) : FlushKeeps c now ↔ (c.due now).length ≤ c.room := by
  have hflush : wp (flushChanges now) (fun _ c' => c' = c.flushed (c.due now)) (fun _ _ => False)
      False c := wp_flushChanges.mpr rfl
  have hqueued : newlyQueued c (c.flushed (c.due now)) = c.flushedMessages (c.due now) :=
    newlyQueued_eq rfl
  constructor
  · intro h
    obtain ⟨r, c', hrun⟩ := hflush.ends
    obtain rfl : c' = c.flushed (c.due now) :=
      (wp_mono hflush (fun _ _ h => h) (fun _ _ h => h.elim) fun h => h).state hrun
    have hsub : (c.due now).filterMap c.changeMessage ⊆ c.flushedMessages (c.due now) := by
      intro m hm
      obtain ⟨d, hd, hmessage⟩ := List.mem_filterMap.mp hm
      obtain ⟨p, hp, rfl⟩ := Option.map_eq_some_iff.mp hmessage
      rw [← hqueued]
      refine h r _ hrun d p hp ?_
      simp [flushed, hd]
    have hlength := (List.subperm_of_subset (nodup_changeMessages now) hsub).length_le
    rw [length_changeMessages] at hlength
    exact hlength.trans (List.length_take_le _ _)
  · intro hle r c' hrun d p hp hnone
    obtain rfl : c' = c.flushed (c.due now) :=
      (wp_mono hflush (fun _ _ h => h) (fun _ _ h => h.elim) fun h => h).state hrun
    have hdue : d ∈ c.due now := by
      by_contra hnot
      simp [flushed, hnot, hp] at hnone
    rw [hqueued, flushedMessages, List.take_of_length_le (by rw [length_changeMessages]; exact hle)]
    exact List.mem_filterMap.mpr ⟨d, hdue, by simp [changeMessage, hp]⟩

/-- An operation leaves the documents, the held changes and the requests as they were in all its
errors exactly where `Atomic` holds, and a flush queues what it takes out exactly where the queue
has room for all of it. -/
theorem LanguageClient.errors_law (c : LanguageClient) :
    (∀ op : ClientOp, (∀ e c', op.run.exec c = some (.error e, c') → Unchanged c c') ↔
      Atomic c op) ∧
    ∀ now, FlushKeeps c now ↔ (c.due now).length ≤ c.room :=
  ⟨fun op => wp_errors.symm.trans (keeps_iff op), flushKeeps_iff⟩

/-- The client after an operation, whether it failed or not. -/
def LanguageClient.step (c : LanguageClient) (op : ClientOp) : Option LanguageClient :=
  observe op.run c (fun _ c' => c') fun _ c' => c'

/-- A client that is ready can be left with a full queue, with `b` not open as before. -/
theorem reaches_full_queue {c : LanguageClient} (hready : c.state = .ready)
    (hget : c.documents.get? "b" = none) :
    ∃ c', Runs LanguageClient.step (fun _ _ => True) c c' ∧ c'.state = .ready ∧ c'.room = 0 ∧
      c'.documents.get? "b" = none := by
  generalize hroom : c.room = n
  induction n generalizing c with
  | zero => exact ⟨c, .refl, hready, hroom, hget⟩
  | succ n ih =>
    have hopen : wp (ClientOp.didOpen "a" 1 "").run
        (fun _ c' => c' = (c.opened "a" 1).queue [.didOpen "a" c.descriptorId 1 ""])
        (fun _ _ => False) False c := by
      simp only [ClientOp.run, LanguageClient.didOpen, wp_bind, wp_ensureReady, wp_modify, wp_get,
        wp_pushOutbound]
      have hnonzero : c.room ≠ 0 := hroom ▸ Nat.succ_ne_zero n
      exact ⟨fun _ => ⟨fun _ => rfl, fun hnone => absurd hnone hnonzero⟩,
        fun hnot => absurd hready hnot⟩
    obtain ⟨r, c', hrun⟩ := hopen.ends
    cases r with
    | error e => exact (hopen.of_error hrun).elim
    | ok a =>
      have hc' := hopen.of_ok hrun
      have hroom' : c'.room = n := by
        rw [hc']
        simp only [LanguageClient.room, LanguageClient.queue, LanguageClient.opened,
          List.length_append, List.length_singleton] at hroom ⊢
        omega
      have hget' : c'.documents.get? "b" = none := by
        rw [hc']
        exact (SortedMap.get?_insert.trans (if_neg (by decide))).trans hget
      obtain ⟨c'', hruns, hend⟩ := ih (hc' ▸ hready) hget' hroom'
      have hstep : LanguageClient.step c (.didOpen "a" 1 "") = some c' := by
        rw [LanguageClient.step, observe, hrun]
        rfl
      exact ⟨c'', (Runs.single trivial hstep).trans hruns, hend⟩

/-- A `didOpen` that finds the queue full records the document. -/
theorem open_on_full_queue : ∃ c c',
    Runs LanguageClient.step (fun _ _ => True) (.new "w" "rust") c ∧
      (ClientOp.didOpen "b" 1 "").run.exec c = some (.error .outboundQueueFull, c') ∧
      ¬Unchanged c c' := by
  have hstart : (([.start 0, .acceptInitialize ⟨1⟩ (.new .full [] .utf16)] :
      List ClientOp).foldlM LanguageClient.step (.new "w" "rust")).any
        fun c => c.state = .ready ∧ c.documents.get? "b" = none := by
    decide
  obtain ⟨c₀, hc₀, hend⟩ := (Option.any_eq_true _ _).mp hstart
  obtain ⟨hready₀, hget₀⟩ := of_decide_eq_true hend
  obtain ⟨c, hruns, hready, hroom, hget⟩ := reaches_full_queue hready₀ hget₀
  have hopen : wp (ClientOp.didOpen "b" 1 "").run (fun _ _ => False)
      (fun e c' => e = .outboundQueueFull ∧ c' = c.opened "b" 1) False c := by
    simp only [ClientOp.run, LanguageClient.didOpen, wp_bind, wp_ensureReady, wp_modify, wp_get,
      wp_pushOutbound]
    exact ⟨fun _ => ⟨fun hpos => absurd hroom hpos.ne', fun _ => ⟨trivial, rfl⟩⟩,
      fun hnot => absurd hready hnot⟩
  obtain ⟨r, c', hrun⟩ := hopen.ends
  cases r with
  | ok a => exact (hopen.of_ok hrun).elim
  | error e =>
    obtain ⟨rfl, rfl⟩ := hopen.of_error hrun
    refine ⟨c, _, ((along_true _ _).runs hc₀).trans hruns, hrun, fun hsame => ?_⟩
    have hget' := Unchanged.iff_opened.mp hsame
    rw [hget] at hget'
    cases hget'

end Strukt.Language
