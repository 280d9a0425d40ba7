import Strukt.Language.ClientSpec
import Strukt.Lib.Runs

/-!
# The messages that a server is given

A `Delivery` is a language client with the origin of each message in its queue: how many starts had
succeeded when it was queued. `taken` are the messages taken out since the last of them.

* **One generation** (`delivery_law`): in every run whose starts find the queue empty, each message
  taken out was queued in the same generation, and the first one is `initialized`.
* **Stopped by a deadline**: `finishShutdown` empties the queue, the deadline of a shutdown does not.
  A start that finds messages there hands the first of them to the new server (`delivered_late`).
-/

namespace Strukt.Language

open Method LanguageClient

/-- A client with the origins of the queued messages, and the messages taken out since the last
successful `start`. -/
structure Delivery where
  client : LanguageClient
  starts : Nat
  origins : List Nat
  taken : List (Nat × OutboundMessage)
  deriving DecidableEq

namespace Delivery

def start (c : LanguageClient) : Delivery := ⟨c, 0, [], []⟩

/-- The messages that are still queued keep their origin; new ones have the current one. -/
def extended (w : Delivery) (c' : LanguageClient) : Delivery :=
  { w with
    client := c'
    origins := w.origins.take c'.outbound.length ++
      .replicate (c'.outbound.length - w.client.outbound.length) w.starts }

def done (w : Delivery) (c' : LanguageClient) : ClientOp → Delivery
  | .start _ => { w with client := c', starts := w.starts + 1, taken := [] }
  | .takeOutbound =>
    { w with
      client := c'
      origins := w.origins.tail
      taken := w.taken ++ (w.origins.zip w.client.outbound).take 1 }
  | _ => w.extended c'

def step (w : Delivery) (op : ClientOp) : Option Delivery :=
  observe op.run w.client (fun _ c' => w.done c' op) fun _ c' => w.extended c'

/-- A start that succeeds finds the queue empty. -/
def Drained (w : Delivery) : ClientOp → Prop
  | .start _ =>
    w.client.state = .stopped ∨ w.client.state = .restarting → w.client.ids ≠ -1 →
      w.client.outbound = []
  | _ => True

instance Drained.decidable (w : Delivery) : ∀ op, Decidable (w.Drained op)
  | .start _ =>
    inferInstanceAs (Decidable (w.client.state = .stopped ∨ w.client.state = .restarting →
      w.client.ids ≠ -1 → w.client.outbound = []))
  | .acceptInitialize .. | .rejectInitialize _ | .failProtocol | .didOpen .. | .didSave _
  | .didClose .. | .didChange .. | .flushChanges _ | .requestFeature .. | .acceptFeatureResponse _
  | .restartGeneration | .processExited _ | .beginShutdown _ | .acceptShutdown _ | .finishShutdown
  | .pollTimeouts _ | .takeOutbound => isTrue trivial

variable {w w' : Delivery} {op : ClientOp} {c c' : LanguageClient} {ms : List OutboundMessage}

/-! ## Every run -/

/-- Each queued message has an origin, no later than the last start. -/
structure Tagged (w : Delivery) : Prop where
  length : w.origins.length = w.client.outbound.length
  le : ∀ g ∈ w.origins, g ≤ w.starts

theorem Tagged.extended (h : w.Tagged) (c' : LanguageClient) : (w.extended c').Tagged := by
  refine ⟨?_, fun g hg => ?_⟩
  · have hlen := h.length
    simp only [Delivery.extended, List.length_append, List.length_take, List.length_replicate]
    omega
  · obtain hg | hg := List.mem_append.mp hg
    · exact h.le g (List.mem_of_mem_take hg)
    · exact (List.eq_of_mem_replicate hg).le

theorem Tagged.done (h : w.Tagged) (hd : op.Done w.client c') : (w.done c' op).Tagged := by
  cases op with
  | start now =>
    obtain ⟨-, -, deadline, rfl⟩ := hd
    exact ⟨h.length, fun g hg => (h.le g hg).trans (Nat.le_succ _)⟩
  | takeOutbound =>
    obtain rfl := hd
    refine ⟨?_, fun g hg => h.le g (List.mem_of_mem_tail hg)⟩
    simp only [Delivery.done, List.length_tail, h.length]
  | _ => exact h.extended c'

theorem step_cases (hs : w.step op = some w') :
    (∃ c', op.Done w.client c' ∧ w' = w.done c' op) ∨
      ∃ c', op.Failed w.client c' ∧ w' = w.extended c' := by
  refine wp.observe (P := True) (I := fun w' => (∃ c', op.Done w.client c' ∧ w' = w.done c' op) ∨
    ∃ c', op.Failed w.client c' ∧ w' = w.extended c') ?_ hs
  exact wp_mono (op.run_spec w.client) (fun _ c' hd => .inl ⟨c', hd, rfl⟩)
    (fun _ c' hf => .inr ⟨c', hf, rfl⟩) fun h => h

/-! ## Runs whose starts find the queue empty -/

/-- The messages taken out since the last start, and then the queued ones. -/
def all (w : Delivery) : List OutboundMessage := w.taken.map (·.2) ++ w.client.outbound

/-- The state in which messages are queued. -/
def Speaks (c : LanguageClient) : Prop := c.Active ∨ c.state = .stopping

structure InGeneration (w : Delivery) : Prop where
  settled : w.client.Settled
  origins : w.origins = .replicate w.client.outbound.length w.starts
  taken : ∀ p ∈ w.taken, p.1 = w.starts
  first : ∀ m ∈ w.all.head?, m = .initialized
  speaks : Speaks w.client → w.all ≠ []
  awaited : w.client.initializeId.isSome → w.all = []

theorem head?_append_of_ne_nil {α : Type} {l l' : List α} (h : l ≠ []) :
    (l ++ l').head? = l.head? := by
  cases l with
  | nil => contradiction
  | cons a l => rfl

/-- An operation that queues messages does so in a state that follows `initialized`. -/
theorem InGeneration.queue (h : w.InGeneration) (hsettled : c'.Settled)
    (houtbound : c'.outbound = w.client.outbound ++ ms) (hms : ms ≠ [] → Speaks w.client)
    (hspeaks : Speaks c' → Speaks w.client)
    (hawaited : c'.initializeId = w.client.initializeId ∨ c'.initializeId = none) :
    (w.extended c').InGeneration := by
  have hall : (w.extended c').all = w.all ++ ms := by
    simp only [all, extended, houtbound, List.append_assoc]
  have hsame : w.all = [] → ms = [] := fun hnil => by
    by_contra hne
    exact h.speaks (hms hne) hnil
  refine ⟨hsettled, ?_, h.taken, ?_, ?_, fun hsome => ?_⟩
  · simp only [extended, h.origins, houtbound, List.length_append, Nat.add_sub_cancel_left,
      List.take_replicate, List.replicate_append_replicate]
    rw [Nat.min_eq_right (Nat.le_add_right ..)]
  · rw [hall]
    by_cases hnil : w.all = []
    · rw [hnil, hsame hnil]
      nofun
    · rw [head?_append_of_ne_nil hnil]
      exact h.first
  · intro hs hnil
    rw [hall] at hnil
    exact h.speaks (hspeaks hs) (List.append_eq_nil_iff.mp hnil).1
  · obtain he | he := hawaited
    · have hnil := h.awaited (he ▸ hsome)
      rw [hall, hnil, hsame hnil]
      rfl
    · have hsome : c'.initializeId.isSome := hsome
      rw [he] at hsome
      cases hsome

/-- The end of a server empties the queue. -/
theorem InGeneration.ends (h : w.InGeneration) (hsettled : c'.Settled) (houtbound : c'.outbound = [])
    (hspeaks : ¬Speaks c')
    (hawaited : c'.initializeId = w.client.initializeId ∨ c'.initializeId = none) :
    (w.extended c').InGeneration := by
  have hall : (w.extended c').all = w.taken.map (·.2) := by
    simp only [all, extended, houtbound, List.append_nil]
  have hhead : ∀ m ∈ (w.taken.map (·.2)).head?, m ∈ w.all.head? := by
    intro m hm
    unfold all
    cases htaken : w.taken with
    | nil => rw [htaken] at hm; cases hm
    | cons p l => rw [htaken] at hm; exact hm
  refine ⟨hsettled, ?_, h.taken, ?_, fun hs => absurd hs hspeaks, fun hsome => ?_⟩
  · simp [extended, houtbound]
  · rw [hall]
    exact fun m hm => h.first m (hhead m hm)
  · obtain he | he := hawaited
    · rw [hall]
      exact (List.append_eq_nil_iff.mp (h.awaited (he ▸ hsome))).1
    · have hsome : c'.initializeId.isSome := hsome
      rw [he] at hsome
      cases hsome

theorem not_speaks {state : LanguageServerState} (hstate : c.state = state)
    (hready : state ≠ .ready) (hdegraded : state ≠ .degraded) (hstopping : state ≠ .stopping) :
    ¬Speaks c := by
  rintro (hactive | hs)
  · exact not_active hstate hready hdegraded hactive
  · exact hstopping (hstate ▸ hs)

theorem InGeneration.same (h : w.InGeneration) (hsettled : c'.Settled)
    (houtbound : c'.outbound = w.client.outbound) (hspeaks : Speaks c' → Speaks w.client)
    (hawaited : c'.initializeId = w.client.initializeId ∨ c'.initializeId = none) :
    (w.extended c').InGeneration :=
  h.queue hsettled (houtbound.trans (List.append_nil _).symm) nofun hspeaks hawaited

/-- A server is accepted in a generation with nothing queued or taken out so far. -/
theorem InGeneration.accepts {id : RequestId} {capabilities : ServerCapabilities}
    (h : w.InGeneration) (hsettled : c'.Settled) (hid : w.client.initializeId = some id)
    (hc : c' = (w.client.accepted capabilities).queue [.initialized]) :
    (w.extended c').InGeneration := by
  obtain ⟨htaken, houtbound⟩ := List.append_eq_nil_iff.mp (h.awaited (by rw [hid]; rfl))
  subst hc
  have hall : (w.extended ((w.client.accepted capabilities).queue [.initialized])).all =
      [.initialized] := by
    simp only [all, extended, LanguageClient.queue, LanguageClient.accepted, htaken, houtbound,
      List.nil_append]
  have hanswered : ((w.extended ((w.client.accepted capabilities).queue [.initialized])).client
      |>.initializeId) = none := rfl
  refine ⟨hsettled, ?_, h.taken, ?_, ?_, fun hs => by simp [hanswered] at hs⟩
  · simp [extended, LanguageClient.queue, LanguageClient.accepted, h.origins, houtbound]
  · rw [hall]
    simp
  · rw [hall]
    simp

theorem InGeneration.takes (h : w.InGeneration) (hsettled : c'.Settled)
    (hc : c' = { w.client with outbound := w.client.outbound.tail }) :
    (w.done c' .takeOutbound).InGeneration := by
  subst hc
  have hone : (w.origins.zip w.client.outbound).take 1 =
      (w.client.outbound.take 1).map fun m => (w.starts, m) := by
    rw [h.origins]
    cases w.client.outbound with
    | nil => rfl
    | cons m l => simp [List.replicate_succ]
  have hall : (w.done { w.client with outbound := w.client.outbound.tail } .takeOutbound).all =
      w.all := by
    simp only [all, Delivery.done, hone, List.map_append, List.map_map, List.append_assoc]
    cases w.client.outbound with
    | nil => rfl
    | cons m l => rfl
  refine ⟨hsettled, ?_, fun p hp => ?_, hall ▸ h.first, hall ▸ h.speaks, hall ▸ h.awaited⟩
  · simp only [Delivery.done, h.origins, List.tail_replicate, List.length_tail]
  · obtain hp | hp := List.mem_append.mp hp
    · exact h.taken p hp
    · rw [hone] at hp
      obtain ⟨m, -, rfl⟩ := List.mem_map.mp hp
      rfl

theorem InGeneration.done (h : w.InGeneration) (hdrained : w.Drained op)
    (hd : op.Done w.client c') : (w.done c' op).InGeneration := by
  have hsettled := hd.settled h.settled
  cases op with
  | start now =>
    obtain ⟨hstate, hids, deadline, rfl⟩ := hd
    have hempty : w.client.outbound = [] := hdrained hstate hids
    have hall : (w.done (w.client.started deadline) (.start now)).all = [] := hempty
    refine ⟨hsettled, ?_, nofun, by rw [hall]; nofun, fun hs => ?_, fun _ => hall⟩
    · have horigins : w.origins = [] := by rw [h.origins, hempty]; rfl
      simp [Delivery.done, horigins, started, LanguageClient.starting, hempty]
    · exact absurd hs (not_speaks rfl nofun nofun nofun)
  | acceptInitialize id capabilities =>
    obtain ⟨-, hid, -, hc⟩ := hd
    exact h.accepts hsettled hid hc
  | rejectInitialize | failProtocol | restartGeneration =>
    obtain rfl := hd
    exact h.ends hsettled rfl (not_speaks rfl nofun nofun nofun) (.inr rfl)
  | finishShutdown =>
    obtain rfl := hd
    exact h.ends hsettled rfl (not_speaks rfl nofun nofun nofun) (.inl rfl)
  | processExited now =>
    obtain ⟨crashTimes, state, hstate, rfl⟩ := hd
    refine h.ends hsettled rfl ?_ (.inr rfl)
    obtain rfl | rfl := hstate
    · exact not_speaks rfl nofun nofun nofun
    · exact not_speaks rfl nofun nofun nofun
  | didOpen document revision text =>
    obtain ⟨hready, -, rfl⟩ := hd
    exact h.queue hsettled rfl (fun _ => .inl (.inl hready)) (fun hs => hs) (.inl rfl)
  | didSave document =>
    obtain ⟨hready, -, rfl | ⟨-, rfl⟩⟩ := hd
    · exact h.same hsettled rfl (fun hs => hs) (.inl rfl)
    · exact h.queue hsettled rfl (fun _ => .inl (.inl hready)) (fun hs => hs) (.inl rfl)
  | didClose document now order =>
    obtain ⟨hready, -, -, _, rfl⟩ := hd
    exact h.queue hsettled (List.append_assoc ..) (fun _ => .inl (.inl hready)) (fun hs => hs)
      (.inl rfl)
  | didChange document revision text now order =>
    obtain ⟨hready, -, -, due, rfl⟩ := hd
    exact h.queue hsettled rfl (fun _ => .inl (.inl hready)) (fun hs => hs) (.inl rfl)
  | flushChanges now =>
    obtain rfl := hd
    refine h.queue hsettled rfl (fun hne => ?_) (fun hs => hs) (.inl rfl)
    by_contra hidle
    have hnone := (h.settled.idle fun ha => hidle (.inl ha)).1
    exact hne (by simp [flushedMessages, due, hnone, SortedMap.empty])
  | requestFeature kind document revision position now order =>
    obtain ⟨hready, -, -, request, rfl⟩ := hd
    exact h.queue hsettled (List.append_assoc ..) (fun _ => .inl (.inl hready)) (fun hs => hs)
      (.inl rfl)
  | acceptFeatureResponse request =>
    obtain rfl := hd
    exact h.same hsettled rfl (fun hs => hs) (.inl rfl)
  | beginShutdown now =>
    obtain ⟨hactive, deadline, rfl⟩ := hd
    exact h.same hsettled rfl (fun _ => .inl hactive) (.inl rfl)
  | acceptShutdown id =>
    obtain ⟨hstate, -, -, rfl⟩ := hd
    exact h.queue hsettled rfl (fun _ => .inr hstate) (fun hs => hs) (.inl rfl)
  | pollTimeouts now =>
    obtain ⟨⟨ms, houtbound, -⟩, -, -, hup, hawaited⟩ := Polled.fewer hd
    by_cases hactive : w.client.Active
    · exact h.queue hsettled houtbound (fun _ => .inl hactive) (fun _ => .inl hactive) hawaited
    · obtain ⟨hsame, hstopping⟩ := h.settled.polled_idle hactive hd
      exact h.same hsettled hsame (fun hs => hs.imp hup hstopping) hawaited
  | takeOutbound => exact h.takes hsettled hd

theorem InGeneration.failed (h : w.InGeneration) (hf : op.Failed w.client c') :
    (w.extended c').InGeneration := by
  have hsettled := hf.settled h.settled
  have hsame : c' = w.client → (w.extended c').InGeneration := by
    rintro rfl
    exact h.same hsettled rfl (fun hs => hs) (.inl rfl)
  cases op with
  | start now =>
    obtain he | ⟨-, -, rfl⟩ := hf
    · exact hsame he
    · exact h.same hsettled rfl (fun hs => absurd hs (not_speaks rfl nofun nofun nofun)) (.inl rfl)
  | acceptInitialize id capabilities =>
    obtain he | ⟨-, hid, hroom, rfl⟩ := hf
    · exact hsame he
    · have houtbound := (List.append_eq_nil_iff.mp (h.awaited (by rw [hid]; rfl))).2
      simp [room, houtbound, outboundLimit] at hroom
  | didOpen document revision text =>
    obtain he | ⟨-, -, rfl⟩ := hf
    · exact hsame he
    · exact h.same hsettled rfl (fun hs => hs) (.inl rfl)
  | didClose document now order =>
    obtain he | ⟨hready, -, rfl⟩ := hf
    · exact hsame he
    · exact h.queue hsettled rfl (fun _ => .inl (.inl hready)) (fun hs => hs) (.inl rfl)
  | didChange document revision text now order =>
    obtain he | ⟨hready, -, due, rfl⟩ := hf
    · exact hsame he
    · exact h.queue hsettled rfl (fun _ => .inl (.inl hready)) (fun hs => hs) (.inl rfl)
  | requestFeature kind document revision position now order =>
    obtain he | ⟨hready, -, _, rfl⟩ := hf
    · exact hsame he
    · exact h.queue hsettled rfl (fun _ => .inl (.inl hready)) (fun hs => hs) (.inl rfl)
  | beginShutdown now =>
    obtain he | ⟨hactive, rfl⟩ := hf
    · exact hsame he
    · exact h.same hsettled rfl (fun _ => .inl hactive) (.inl rfl)
  | acceptShutdown id =>
    obtain he | ⟨-, rfl⟩ := hf
    · exact hsame he
    · exact h.same hsettled rfl (fun hs => hs) (.inl rfl)
  | rejectInitialize | failProtocol | didSave | flushChanges | acceptFeatureResponse
  | restartGeneration | processExited | finishShutdown | pollTimeouts | takeOutbound =>
    exact hsame hf

theorem tagged_of_runs {cond : Delivery → ClientOp → Prop} {workspaceId descriptorId : String}
    (h : Runs step cond (start (.new workspaceId descriptorId)) w) : w.Tagged := by
  refine h.invariant (I := Tagged) ⟨rfl, nofun⟩ fun w op w' hI _ hs => ?_
  obtain ⟨c', hd, rfl⟩ | ⟨c', -, rfl⟩ := step_cases hs
  · exact hI.done hd
  · exact hI.extended c'

theorem inGeneration_of_runs {workspaceId descriptorId : String}
    (h : Runs step Drained (start (.new workspaceId descriptorId)) w) : w.InGeneration := by
  have h₀ : (start (.new workspaceId descriptorId)).InGeneration :=
    ⟨settled_of_none (fun _ => ⟨rfl, rfl⟩) ⟨rfl, rfl, rfl⟩, rfl, nofun, nofun,
      fun hs => absurd hs (not_speaks rfl nofun nofun nofun), fun _ => rfl⟩
  refine h.invariant (I := InGeneration) h₀ fun w op w' hI hdrained hs => ?_
  obtain ⟨c', hd, rfl⟩ | ⟨c', hf, rfl⟩ := step_cases hs
  · exact hI.done hdrained hd
  · exact hI.failed hf

/-- A start that succeeds leaves the queue as it is. -/
theorem started_of_step {now : Duration} (hs : w.step (.start now) = some w')
    (hne : w'.starts ≠ w.starts) :
    w'.client.outbound = w.client.outbound ∧ w'.origins = w.origins ∧ w'.taken = [] ∧
      w'.starts = w.starts + 1 := by
  obtain ⟨c', ⟨-, -, deadline, rfl⟩, rfl⟩ | ⟨c', -, rfl⟩ := step_cases hs
  · exact ⟨rfl, rfl, rfl, rfl⟩
  · exact absurd rfl hne

theorem step_takeOutbound (w : Delivery) : w.step .takeOutbound =
    some (w.done { w.client with outbound := w.client.outbound.tail } .takeOutbound) := rfl

/-- In every run whose starts find the queue empty, the messages taken out since the last start were
queued since then, and the first one of them is `initialized`. Where a start finds a message, the
next one taken out is from an earlier generation. -/
theorem delivery_law {workspaceId descriptorId : String}
    (h : Runs step Drained (start (.new workspaceId descriptorId)) w) :
    (∀ p ∈ w.taken, p.1 = w.starts) ∧ (∀ p ∈ w.taken.head?, p.2 = .initialized) ∧
    ∀ now w', w.step (.start now) = some w' → w'.starts ≠ w.starts →
      (w.client.outbound = [] ↔ ¬∃ w'' p, w'.step .takeOutbound = some w'' ∧ w''.taken = [p] ∧
        p.1 < w''.starts) := by
  have hgen := inGeneration_of_runs h
  have htagged := tagged_of_runs h
  refine ⟨hgen.taken, fun p hp => ?_, fun now w' hs hne => ?_⟩
  · refine hgen.first p.2 ?_
    unfold all
    cases htaken : w.taken with
    | nil => rw [htaken] at hp; cases hp
    | cons q l => rw [htaken] at hp; cases hp; rfl
  · obtain ⟨houtbound, horigins, htaken, hstarts⟩ := started_of_step hs hne
    constructor
    · rintro hempty ⟨w'', p, htake, hp, -⟩
      rw [step_takeOutbound, Option.some.injEq] at htake
      subst htake
      simp [Delivery.done, houtbound, hempty, htaken] at hp
    · intro hnot
      by_contra hne
      obtain ⟨m, l, hq⟩ := List.exists_cons_of_ne_nil hne
      obtain ⟨g, gs, hg⟩ : ∃ g gs, w.origins = g :: gs := by
        refine List.exists_cons_of_ne_nil fun hnil => ?_
        have hlen := htagged.length
        rw [hnil, hq] at hlen
        cases hlen
      refine hnot ⟨_, (g, m), step_takeOutbound w', ?_, ?_⟩
      · simp [Delivery.done, houtbound, horigins, htaken, hq, hg]
      · have hle := htagged.le g (hg ▸ List.mem_cons_self)
        show g < w'.starts
        omega

/-- A server that is shut down and followed by another. -/
theorem delivery_law_shutdown : ∃ w : Delivery, Runs step Drained (start (.new "w" "rust")) w ∧
    w.starts = 2 ∧ w.taken = [(2, .initialized)] ∧ ∀ p ∈ w.taken, p.1 = w.starts := by
  have hruns : ([.start 0, .acceptInitialize ⟨1⟩ (.new .full [] .utf16), .didOpen "a" 1 "",
      .beginShutdown 0, .acceptShutdown ⟨2⟩, .finishShutdown, .start 0,
      .acceptInitialize ⟨3⟩ (.new .full [] .utf16), .takeOutbound].foldlM step
        (start (.new "w" "rust"))).any fun w =>
        w.starts = 2 ∧ w.taken = [(2, .initialized)] := by
    decide
  obtain ⟨w, hw, hend⟩ := (Option.any_eq_true _ _).mp hruns
  obtain ⟨hstarts, htaken⟩ := of_decide_eq_true hend
  have hto : Runs step Drained (start (.new "w" "rust")) w := Along.runs (by decide) hw
  exact ⟨w, hto, hstarts, htaken, (delivery_law hto).1⟩

/-- After the deadline of a shutdown, the next server is given a `didOpen` of the one before it, ahead
of its own `initialized`. -/
theorem delivered_late : ∃ w : Delivery,
    Runs step (fun _ _ => True) (start (.new "w" "rust")) w ∧ w.client.state = .ready ∧
      w.starts = 2 ∧ w.taken = [(1, .didOpen "a" "rust" 1 "")] := by
  have hruns : ([.start 0, .acceptInitialize ⟨1⟩ (.new .full [] .utf16), .takeOutbound,
      .didOpen "a" 1 "", .beginShutdown 0, .pollTimeouts shutdownTimeout, .start shutdownTimeout,
      .acceptInitialize ⟨3⟩ (.new .full [] .utf16), .takeOutbound].foldlM step
        (start (.new "w" "rust"))).any fun w => w.client.state = .ready ∧
        w.starts = 2 ∧ w.taken = [(1, .didOpen "a" "rust" 1 "")] := by
    decide
  obtain ⟨w, hw, hend⟩ := (Option.any_eq_true _ _).mp hruns
  exact ⟨w, (along_true _ _).runs hw, of_decide_eq_true hend⟩

end Delivery

end Strukt.Language
