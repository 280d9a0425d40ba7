import Strukt.Lib.Log
import Strukt.Lib.Runs
import Strukt.Prim

/-!
# The watch queue

The native watcher offers file events to a bounded queue, and the consumer takes them out without
waiting. An event that finds the queue full is dropped, and a flag says so: the next receive clears
the flag, empties the queue and reports the loss. The two sides run on threads of their own, so one
step here is one access to the queue or to the flag.

* **Accounting** (`watch_law`): an event is delivered, waits in the queue, or was dropped, and then
  a stale notification follows or is owed.
* **Progress** (`settles`): receives alone lead to a state in which nothing waits and nothing is
  owed.
* **The end of the channel** is reported once, by its own message, or by the loss notification where
  the recovery from a loss meets it (`disconnect_races`).
-/

namespace Strukt.Fs

def eventQueueCapacity : Nat := 1024
def eventLossMessage : String := "filesystem watcher events were lost"
def eventChannelDisconnectedMessage : String := "filesystem watcher event channel disconnected"

inductive FileEvent where
  | changed (paths : List PathBuf)
  | stale (message : String)
  deriving DecidableEq

def FileEvent.watchError (message : String) : FileEvent := .stale message

/-- An offered event with its number. -/
structure Offer where
  number : Nat
  event : FileEvent
  deriving DecidableEq

/-- The queue and the flags that `event_channel` makes. -/
structure EventChannel where
  capacity : Nat
  events : List Offer
  stale : Bool
  disconnectedReported : Bool
  /-- The sender was not dropped. -/
  connected : Bool
  deriving DecidableEq

/-- Where a call of `try_recv_event` stands. -/
inductive Receiver where
  | idle
  /-- The flag was clear, and `events.try_recv()` is next. -/
  | receiving
  /-- In the loop of `drain_obsolete_events`. -/
  | draining (rounds : Nat)
  deriving DecidableEq

inductive Notice where
  | event (offer : Offer)
  | loss
  | disconnected
  deriving DecidableEq

def Notice.fileEvent : Notice → FileEvent
  | .event offer => offer.event
  | .loss => .watchError eventLossMessage
  | .disconnected => .watchError eventChannelDisconnectedMessage

inductive Entry where
  | dropped (number : Nat)
  | disconnected
  | returned (notice : Option Notice)
  deriving DecidableEq

/-- The channel under its two threads, with the events offered and what happened. -/
structure Watch where
  channel : EventChannel
  /-- The sends that found the queue full and have not set the flag yet. -/
  storing : Nat
  receiver : Receiver
  offered : List FileEvent
  log : List Entry
  deriving DecidableEq

inductive Action where
  | offer (event : FileEvent)
  | store
  | disconnect
  | receive
  deriving DecidableEq

namespace Watch

def start (capacity : Nat) : Watch := ⟨⟨capacity, [], false, false, true⟩, 0, .idle, [], []⟩

/-- The call ends. -/
def returns (w : Watch) (c : EventChannel) (notice : Option Notice) : Watch :=
  { w with channel := c, receiver := .idle, log := w.log ++ [.returned notice] }

/-- `EventHandoff::try_send` up to the store of the flag. -/
def offer (w : Watch) (event : FileEvent) : Watch :=
  if w.channel.events.length < w.channel.capacity then
    { w with
      channel.events := w.channel.events ++ [⟨w.offered.length, event⟩]
      offered := w.offered ++ [event] }
  else
    { w with
      storing := w.storing + 1
      offered := w.offered ++ [event]
      log := w.log ++ [.dropped w.offered.length] }

/-- One access of `try_recv_event` to the flag or the queue. -/
def receive (w : Watch) : Watch :=
  match w.receiver, w.channel.events with
  | .idle, _ =>
    if w.channel.stale then
      { w with channel.stale := false, receiver := .draining w.channel.capacity }
    else { w with receiver := .receiving }
  | .receiving, o :: events => w.returns { w.channel with events } (some (.event o))
  | .receiving, [] =>
    if w.channel.connected || w.channel.disconnectedReported then w.returns w.channel none
    else w.returns { w.channel with disconnectedReported := true } (some .disconnected)
  | .draining 0, _ => w.returns w.channel (some .loss)
  | .draining (rounds + 1), o :: events =>
    { w with
      channel.events := events
      receiver := .draining rounds
      log := w.log ++ [.dropped o.number] }
  | .draining (_ + 1), [] =>
    w.returns
      { w.channel with
        disconnectedReported := w.channel.disconnectedReported || !w.channel.connected }
      (some .loss)

/-- The sender's thread sets the flag before it goes. -/
def step (w : Watch) : Action → Option Watch
  | .offer event => if w.channel.connected then some (w.offer event) else none
  | .store =>
    if 0 < w.storing then some { w with channel.stale := true, storing := w.storing - 1 } else none
  | .disconnect =>
    if w.channel.connected ∧ w.storing = 0 then
      some { w with channel.connected := false, log := w.log ++ [.disconnected] }
    else none
  | .receive => some w.receive

/-! ## Accounting -/

end Watch

/-- The consumer is told to scan again. -/
def Entry.IsStale (e : Entry) : Prop :=
  ∃ notice message, e = .returned (some notice) ∧ notice.fileEvent = .stale message

namespace Watch

/-- A stale notification is to come. -/
def Owed (w : Watch) : Prop :=
  w.channel.stale = true ∨ 0 < w.storing ∨ ∃ rounds, w.receiver = .draining rounds

/-- What became of an offered event. -/
def Accounted (w : Watch) (o : Offer) : Prop :=
  .returned (some (.event o)) ∈ w.log ∨ o ∈ w.channel.events ∨
    .dropped o.number ∈ w.log ∧ (w.Owed ∨ Followed (· = .dropped o.number) Entry.IsStale w.log)

structure Sound (w : Watch) : Prop where
  accounted : ∀ n e, w.offered[n]? = some e → w.Accounted ⟨n, e⟩
  ended : w.channel.connected = false → .disconnected ∈ w.log
  reported : w.channel.disconnectedReported = true → w.channel.connected = false ∧
    w.channel.events = [] ∧ Followed (· = .disconnected) Entry.IsStale w.log
  once : w.log.count (.returned (some .disconnected)) ≤ 1
  unreported : w.channel.disconnectedReported = false →
    .returned (some .disconnected) ∉ w.log
  last : Each (fun pre e => ∀ o, e = .returned (some (.event o)) →
    .returned (some .disconnected) ∉ pre) w.log

variable {w w' : Watch} {c : EventChannel} {o : Offer}

theorem isStale_loss : Entry.IsStale (.returned (some .loss)) := ⟨.loss, eventLossMessage, rfl, rfl⟩

theorem isStale_disconnected : Entry.IsStale (.returned (some .disconnected)) :=
  ⟨.disconnected, eventChannelDisconnectedMessage, rfl, rfl⟩

/-- A step that takes no event out of the queue and pays no debt. -/
theorem Accounted.grows (h : w.Accounted o) {l : List Entry} (hlog : w'.log = w.log ++ l)
    (hevents : o ∈ w.channel.events → o ∈ w'.channel.events) (howed : w.Owed → w'.Owed) :
    w'.Accounted o := by
  obtain h | h | ⟨h, hs⟩ := h
  · exact .inl (hlog ▸ List.mem_append_left _ h)
  · exact .inr (.inl (hevents h))
  · exact .inr (.inr ⟨hlog ▸ List.mem_append_left _ h,
      hs.imp howed fun hs => hlog ▸ hs.append⟩)

/-- A stale notification settles every loss before it. -/
theorem Accounted.stale (h : w.Accounted o) {e : Entry} (hlog : w'.log = w.log ++ [e])
    (hevents : w'.channel.events = w.channel.events) (he : e.IsStale) : w'.Accounted o := by
  obtain h | h | ⟨h, -⟩ := h
  · exact .inl (hlog ▸ List.mem_append_left _ h)
  · exact .inr (.inl (hevents ▸ h))
  · exact .inr (.inr ⟨hlog ▸ List.mem_append_left _ h, .inr (hlog ▸ followed_concat h rfl he)⟩)

/-- An entry that is no message of the channel's end. -/
theorem Sound.once_concat (h : w.Sound) {e : Entry} (he : e ≠ .returned (some .disconnected)) :
    (w.log ++ [e]).count (.returned (some .disconnected)) ≤ 1 ∧
      (w.channel.disconnectedReported = false →
        .returned (some .disconnected) ∉ w.log ++ [e]) := by
  have hcount : [e].count (.returned (some .disconnected)) = 0 := by
    rw [List.count_eq_zero, List.mem_singleton]
    exact fun heq => he heq.symm
  refine ⟨?_, fun hr hmem => ?_⟩
  · rw [List.count_append, hcount]
    exact h.once
  · obtain hmem | hmem := List.mem_append.mp hmem
    · exact h.unreported hr hmem
    · exact he (List.mem_singleton.mp hmem).symm

theorem Sound.last_concat (h : w.Sound) {e : Entry} (he : ∀ o, e ≠ .returned (some (.event o))) :
    Each (fun pre e => ∀ o, e = .returned (some (.event o)) →
      .returned (some .disconnected) ∉ pre) (w.log ++ [e]) :=
  each_concat.mpr ⟨h.last, fun o heq => absurd heq (he o)⟩

theorem sound_start (capacity : Nat) : (start capacity).Sound :=
  ⟨by simp [start], by simp [start], by simp [start], by simp [start], by simp [start], each_nil⟩

theorem getElem?_concat {α : Type} {l : List α} {a b : α} {n : Nat}
    (h : (l ++ [a])[n]? = some b) : l[n]? = some b ∨ n = l.length ∧ b = a := by
  rw [List.getElem?_append] at h
  split at h
  · exact .inl h
  · rw [List.getElem?_singleton] at h
    split at h
    · exact .inr ⟨by omega, (Option.some.inj h).symm⟩
    · cases h

theorem Sound.offer {event : FileEvent} (h : w.Sound) (hc : w.channel.connected = true) :
    (w.offer event).Sound := by
  have hreported : w.channel.disconnectedReported = true → False := fun hr =>
    absurd (h.reported hr).1 (by rw [hc]; decide)
  unfold Watch.offer
  split
  · refine ⟨fun n e hn => ?_, h.ended, fun hr => (hreported hr).elim, h.once, h.unreported, h.last⟩
    obtain hn | ⟨rfl, rfl⟩ := getElem?_concat hn
    · exact (h.accounted n e hn).grows (List.append_nil _).symm (List.mem_append_left _) fun ho => ho
    · exact .inr (.inl (List.mem_append_right _ (List.mem_singleton.mpr rfl)))
  · obtain ⟨honce, hunreported⟩ := h.once_concat (e := .dropped w.offered.length) (by simp)
    refine ⟨fun n e hn => ?_, fun hc' => List.mem_append_left _ (h.ended hc'),
      fun hr => (hreported hr).elim, honce, hunreported, h.last_concat (by simp)⟩
    have howed : 0 < w.storing + 1 := Nat.succ_pos _
    obtain hn | ⟨rfl, rfl⟩ := getElem?_concat hn
    · exact (h.accounted n e hn).grows rfl (fun ho => ho) fun _ => .inr (.inl howed)
    · exact .inr (.inr ⟨List.mem_append_right _ (List.mem_singleton.mpr rfl),
        .inl (.inr (.inl howed))⟩)

theorem Sound.store (h : w.Sound) :
    Sound { w with channel.stale := true, storing := w.storing - 1 } :=
  ⟨fun n e hn => (h.accounted n e hn).grows (List.append_nil _).symm (fun ho => ho)
    fun _ => .inl rfl, h.ended, h.reported, h.once, h.unreported, h.last⟩

theorem Sound.disconnect (h : w.Sound) (hc : w.channel.connected = true) :
    Sound { w with channel.connected := false, log := w.log ++ [.disconnected] } := by
  obtain ⟨honce, hunreported⟩ := h.once_concat (e := .disconnected) (by simp)
  refine ⟨fun n e hn => (h.accounted n e hn).grows rfl (fun ho => ho) fun ho => ho,
    fun _ => List.mem_append_right _ (List.mem_singleton.mpr rfl), fun hr => ?_, honce,
    hunreported, h.last_concat (by simp)⟩
  exact absurd (h.reported hr).1 (by rw [hc]; decide)

/-- A call that is not in a recovery owes nothing itself. -/
theorem Owed.waits (ho : w.Owed) (hr : ∀ rounds, w.receiver ≠ .draining rounds) :
    w.channel.stale = true ∨ 0 < w.storing :=
  ho.imp_right fun ho => ho.resolve_right fun ⟨rounds, h⟩ => hr rounds h

/-- The call returns no event, and no news of the end of the channel. -/
theorem Sound.returns {notice : Option Notice} (h : w.Sound)
    (haccounted : ∀ n e, w.offered[n]? = some e → (w.returns w.channel notice).Accounted ⟨n, e⟩)
    (hnotice : notice = none ∨ notice = some .loss) : (w.returns w.channel notice).Sound := by
  have hdisconnected : Entry.returned notice ≠ .returned (some .disconnected) := by
    obtain rfl | rfl := hnotice <;> simp
  have hevent : ∀ o, Entry.returned notice ≠ .returned (some (.event o)) := by
    obtain rfl | rfl := hnotice <;> simp
  obtain ⟨honce, hunreported⟩ := h.once_concat hdisconnected
  refine ⟨haccounted, fun hc => List.mem_append_left _ (h.ended hc), fun hr => ?_, honce,
    hunreported, h.last_concat hevent⟩
  obtain ⟨hc, hevents, hfollowed⟩ := h.reported hr
  exact ⟨hc, hevents, hfollowed.append⟩

theorem Sound.receive (h : w.Sound) : w.receive.Sound := by
  unfold Watch.receive
  split
  · split
    · exact ⟨fun n e hn => (h.accounted n e hn).grows (List.append_nil _).symm (fun ho => ho)
        fun _ => .inr (.inr ⟨_, rfl⟩), h.ended, h.reported, h.once, h.unreported, h.last⟩
    · next hidle _ =>
      refine ⟨fun n e hn => (h.accounted n e hn).grows (List.append_nil _).symm (fun ho => ho)
        fun ho => ?_, h.ended, h.reported, h.once, h.unreported, h.last⟩
      exact (ho.waits (by simp [hidle])).imp_right .inl
  · next o events hreceiving hevents =>
    have hunreported : w.channel.disconnectedReported = false := by
      by_contra hr
      rw [(h.reported (by simpa using hr)).2.1] at hevents
      cases hevents
    obtain ⟨honce, hnot⟩ := h.once_concat (e := .returned (some (.event o))) (by simp)
    refine ⟨fun n e hn => ?_, fun hc => List.mem_append_left _ (h.ended hc),
      fun hr => absurd hr (by simp [Watch.returns, hunreported]), honce, hnot,
      each_concat.mpr ⟨h.last, fun _ _ => h.unreported hunreported⟩⟩
    obtain ha | ha | ⟨ha, hs⟩ := h.accounted n e hn
    · exact .inl (List.mem_append_left _ ha)
    · rw [hevents] at ha
      obtain rfl | ha := List.mem_cons.mp ha
      · exact .inl (List.mem_append_right _ (List.mem_singleton.mpr rfl))
      · exact .inr (.inl ha)
    · exact .inr (.inr ⟨List.mem_append_left _ ha,
        hs.imp (fun ho => (ho.waits (by simp [hreceiving])).imp_right .inl) Followed.append⟩)
  · next hreceiving hevents =>
    split
    · refine h.returns (fun n e hn => ?_) (.inl rfl)
      exact (h.accounted n e hn).grows rfl (fun ho => ho)
        fun ho => (ho.waits (by simp [hreceiving])).imp_right .inl
    · next hnone =>
      obtain ⟨hconnected, hunreported⟩ : w.channel.connected = false ∧
          w.channel.disconnectedReported = false := by simpa using hnone
      have hzero := List.count_eq_zero.mpr (h.unreported hunreported)
      refine ⟨fun n e hn => (h.accounted n e hn).stale rfl rfl isStale_disconnected,
        fun hc => List.mem_append_left _ (h.ended hc), fun _ => ⟨hconnected, hevents,
          followed_concat (h.ended hconnected) rfl isStale_disconnected⟩, ?_,
        fun hr => by simp [Watch.returns] at hr, h.last_concat (by simp)⟩
      simp [Watch.returns, hzero]
  · exact h.returns (fun n e hn => (h.accounted n e hn).stale rfl rfl isStale_loss) (.inr rfl)
  · next rounds o events _ hevents =>
    have hunreported : w.channel.disconnectedReported = false := by
      by_contra hr
      rw [(h.reported (by simpa using hr)).2.1] at hevents
      cases hevents
    obtain ⟨honce, hnot⟩ := h.once_concat (e := .dropped o.number) (by simp)
    refine ⟨fun n e hn => ?_, fun hc => List.mem_append_left _ (h.ended hc),
      fun hr => absurd hr (by simp [hunreported]), honce, hnot, h.last_concat (by simp)⟩
    have howed : (∃ r, Receiver.draining rounds = .draining r) := ⟨rounds, rfl⟩
    obtain ha | ha | ⟨ha, hs⟩ := h.accounted n e hn
    · exact .inl (List.mem_append_left _ ha)
    · rw [hevents] at ha
      obtain rfl | ha := List.mem_cons.mp ha
      · exact .inr (.inr ⟨List.mem_append_right _ (List.mem_singleton.mpr rfl),
          .inl (.inr (.inr howed))⟩)
      · exact .inr (.inl ha)
    · exact .inr (.inr ⟨List.mem_append_left _ ha, .inl (.inr (.inr howed))⟩)
  · next rounds _ hevents =>
    obtain ⟨honce, hnot⟩ := h.once_concat (e := .returned (some .loss)) (by simp)
    refine ⟨fun n e hn => (h.accounted n e hn).stale rfl rfl isStale_loss,
      fun hc => List.mem_append_left _ (h.ended hc), fun hr => ?_, honce, fun hr => ?_,
      h.last_concat (by simp)⟩
    · have hconnected : w.channel.connected = false := by
        cases hr' : w.channel.disconnectedReported with
        | true => exact (h.reported hr').1
        | false => simpa [Watch.returns, hr'] using hr
      exact ⟨hconnected, hevents, followed_concat (h.ended hconnected) rfl isStale_loss⟩
    · exact hnot (Bool.or_eq_false_iff.mp hr).1

theorem Sound.step {a : Action} (h : w.Sound) (hs : w.step a = some w') : w'.Sound := by
  cases a with
  | offer event =>
    simp only [Watch.step] at hs
    split at hs
    · cases hs
      exact h.offer ‹_›
    · cases hs
  | store =>
    simp only [Watch.step] at hs
    split at hs
    · cases hs
      exact h.store
    · cases hs
  | disconnect =>
    simp only [Watch.step] at hs
    split at hs
    · cases hs
      exact h.disconnect (And.left ‹_›)
    · cases hs
  | receive =>
    cases hs
    exact h.receive

/-! ## Progress -/

/-- Nothing waits, and nothing is owed. -/
structure Settled (w : Watch) : Prop where
  idle : w.receiver = .idle
  events : w.channel.events = []
  fresh : w.channel.stale = false
  told : w.channel.connected = true ∨ w.channel.disconnectedReported = true

/-- What bounds the receives that are left. -/
def work (w : Watch) : Nat :=
  2 * w.channel.events.length + (bif w.channel.stale then w.channel.capacity + 3 else 0) +
    (bif w.channel.connected || w.channel.disconnectedReported then 0 else 2) +
    match w.receiver with
    | .receiving => bif w.channel.stale then 2 else 0
    | .idle => 1
    | .draining rounds => rounds + 2

theorem receive_progress (w : Watch) : w.receive.Settled ∨ w.receive.work < w.work := by
  unfold Watch.receive
  split
  · next hidle =>
    split
    · next hstale =>
      simp only [work, hidle, hstale, cond_true, cond_false]
      omega
    · next hstale =>
      simp only [work, hidle, Bool.not_eq_true _ ▸ hstale, cond_false]
      omega
  · next o events hreceiving hevents =>
    simp only [work, Watch.returns, hreceiving, hevents, List.length_cons]
    omega
  · next hreceiving hevents =>
    split
    · next htold =>
      cases hstale : w.channel.stale with
      | false => exact .inl ⟨rfl, hevents, hstale, (Bool.or_eq_true _ _).mp htold⟩
      | true =>
        simp only [work, Watch.returns, hreceiving, hstale, cond_true]
        omega
    · next htold =>
      simp only [work, Watch.returns, hreceiving, Bool.not_eq_true _ ▸ htold, Bool.or_true,
        cond_true, cond_false]
      omega
  · next hdraining =>
    simp only [work, Watch.returns, hdraining]
    omega
  · next rounds o events hdraining hevents =>
    simp only [work, hdraining, hevents, List.length_cons]
    omega
  · next rounds hdraining hevents =>
    have htold : (w.channel.connected ||
        (w.channel.disconnectedReported || !w.channel.connected)) = true := by
      cases w.channel.connected <;> simp
    simp only [work, Watch.returns, hdraining, hevents, htold, cond_true]
    omega

theorem receive_frame (w : Watch) : w.receive.storing = w.storing ∧
    w.receive.offered = w.offered ∧ w.receive.channel.connected = w.channel.connected := by
  unfold Watch.receive Watch.returns
  split <;> (try split) <;> exact ⟨rfl, rfl, rfl⟩

/-- The consumer alone, receiving again and again, gets everything that it is to get. -/
theorem settles (w : Watch) : ∃ w', Runs step (fun _ a => a = .receive) w w' ∧ w'.Settled ∧
    w'.storing = w.storing ∧ w'.offered = w.offered ∧
      w'.channel.connected = w.channel.connected := by
  induction hn : w.work using Nat.strongRecOn generalizing w with
  | ind n ih =>
    obtain ⟨hstoring, hoffered, hconnected⟩ := w.receive_frame
    have hstep : Next step (fun _ a => a = .receive) w w.receive := ⟨.receive, rfl, rfl⟩
    obtain hsettled | hlt := w.receive_progress
    · exact ⟨w.receive, Relation.ReflTransGen.single hstep, hsettled, hstoring, hoffered, hconnected⟩
    · obtain ⟨w', hruns, hsettled, h₁, h₂, h₃⟩ := ih _ (hn ▸ hlt) w.receive rfl
      exact ⟨w', Relation.ReflTransGen.head hstep hruns, hsettled, h₁.trans hstoring, h₂.trans hoffered,
        h₃.trans hconnected⟩

/-! ## The accounting of a run -/

theorem sound_of_runs {capacity : Nat}
    (h : Runs step (fun _ _ => True) (start capacity) w) : w.Sound :=
  h.invariant (sound_start capacity) fun _ _ _ hI _ hs => hI.step hs

/-- In every run: an offered event is delivered, waits, or was dropped with a stale notification
that follows or is owed. The end of the channel is told at most once by its own message, and no
event is delivered after it. Once no send is under way, receives alone settle everything: what was
not delivered is followed by a stale notification, and so is the end of the channel. -/
theorem watch_law {capacity : Nat} (h : Runs step (fun _ _ => True) (start capacity) w) :
    (∀ n e, w.offered[n]? = some e → w.Accounted ⟨n, e⟩) ∧
    w.log.count (.returned (some .disconnected)) ≤ 1 ∧
    Each (fun pre e => ∀ o, e = .returned (some (.event o)) →
      .returned (some .disconnected) ∉ pre) w.log ∧
    (w.storing = 0 → ∃ w', Runs step (fun _ a => a = .receive) w w' ∧ w'.offered = w.offered ∧
      (∀ n e, w'.offered[n]? = some e → .returned (some (.event ⟨n, e⟩)) ∈ w'.log ∨
        Followed (· = .dropped n) Entry.IsStale w'.log) ∧
      (w.channel.connected = false →
        Followed (· = .disconnected) Entry.IsStale w'.log)) := by
  have hsound := sound_of_runs h
  refine ⟨hsound.accounted, hsound.once, hsound.last, fun hstoring => ?_⟩
  obtain ⟨w', hruns, hsettled, hzero, hoffered, hconnected⟩ := w.settles
  have hsound' : w'.Sound := hruns.invariant hsound fun _ _ _ hI _ hs => hI.step hs
  refine ⟨w', hruns, hoffered, fun n e hn => ?_, fun hc => ?_⟩
  · obtain hd | hq | ⟨-, ho | hf⟩ := hsound'.accounted n e hn
    · exact .inl hd
    · rw [hsettled.events] at hq
      cases hq
    · obtain ho | ho | ⟨rounds, ho⟩ := ho
      · rw [hsettled.fresh] at ho
        cases ho
      · omega
      · rw [hsettled.idle] at ho
        cases ho
    · exact .inr hf
  · obtain ht | ht := hsettled.told
    · rw [hconnected, hc] at ht
      cases ht
    · exact (hsound'.reported ht).2.2

/-- A loss that is announced, and the end of the channel. -/
theorem watch_law_loss : ∃ w : Watch, Runs step (fun _ _ => True) (start 1) w ∧
    w.log = [.dropped 1, .dropped 0, .returned (some .loss), .disconnected,
      .returned (some .disconnected)] ∧
    (∀ n e, w.offered[n]? = some e → w.Accounted ⟨n, e⟩) := by
  have hruns : ([.offer (.changed []), .offer (.changed []), .store, .receive, .receive, .receive,
      .disconnect, .receive, .receive].foldlM step (start 1)).any fun w =>
        w.log = [.dropped 1, .dropped 0, .returned (some .loss), .disconnected,
          .returned (some .disconnected)] := by
    decide
  obtain ⟨w, hw, hend⟩ := (Option.any_eq_true _ _).mp hruns
  have hto : Runs step (fun _ _ => True) (start 1) w := (along_true _ _).runs hw
  exact ⟨w, hto, of_decide_eq_true hend, (watch_law hto).1⟩

/-- Where the end of the channel was reported, its message does not come any more. -/
theorem receive_silent (hr : w.channel.disconnectedReported = true)
    (hn : .returned (some .disconnected) ∉ w.log) :
    w.receive.channel.disconnectedReported = true ∧
      .returned (some .disconnected) ∉ w.receive.log := by
  unfold Watch.receive Watch.returns
  split <;> (try split) <;> simp_all

/-- A recovery that meets the end of the channel keeps its message back for good; and a loss whose
flag is set late is announced after the channel's end. -/
theorem disconnect_races :
    (∃ w : Watch, Runs step (fun _ _ => True) (start 1) w ∧ .disconnected ∈ w.log ∧
      ∀ w', Runs step (fun _ a => a = .receive) w w' →
        .returned (some .disconnected) ∉ w'.log) ∧
    ∃ w : Watch, Runs step (fun _ _ => True) (start 1) w ∧
      w.log = [.dropped 1, .returned (some (.event ⟨0, .changed []⟩)), .disconnected,
        .returned (some .disconnected), .returned (some .loss)] := by
  constructor
  · have hruns : ([.offer (.changed []), .receive, .offer (.changed []), .receive, .store,
        .disconnect, .receive, .receive].foldlM step (start 1)).any fun w =>
          w.channel.disconnectedReported ∧ .disconnected ∈ w.log ∧
            .returned (some .disconnected) ∉ w.log := by
      decide
    obtain ⟨w, hw, hend⟩ := (Option.any_eq_true _ _).mp hruns
    obtain ⟨hr, hlog, hn⟩ := of_decide_eq_true hend
    refine ⟨w, (along_true _ _).runs hw, hlog, fun w' hw' => ?_⟩
    refine (hw'.invariant (I := fun w => w.channel.disconnectedReported = true ∧
      .returned (some .disconnected) ∉ w.log) ⟨hr, hn⟩ fun s a s' hI ha hs => ?_).2
    subst ha
    cases hs
    exact receive_silent hI.1 hI.2
  · have hruns : ([.offer (.changed []), .receive, .offer (.changed []), .receive, .receive, .store,
        .disconnect, .receive, .receive, .receive].foldlM step (start 1)).any fun w =>
          w.log = [.dropped 1, .returned (some (.event ⟨0, .changed []⟩)), .disconnected,
            .returned (some .disconnected), .returned (some .loss)] := by
      decide
    obtain ⟨w, hw, hend⟩ := (Option.any_eq_true _ _).mp hruns
    exact ⟨w, (along_true _ _).runs hw, of_decide_eq_true hend⟩

end Watch

end Strukt.Fs
