import Strukt.Language.ClientSpec
import Strukt.Lib.Expiry
import Strukt.Lib.Runs

/-!
# The budget of restarts

`Crashing` is a language client with the exits of its server processes: when each one happened, the
delay that `processExited` returned for it, and the state that it left.

* **The recorded times** (`Recorded`): what the client keeps of the exits are those that were within
  ten minutes of the last one, whatever else happened in between.
* **The law** (`restart_law`): in every run whose exits are in order, a window of ten minutes has at
  most three exits with a delay; while no exit expires, the delays follow one another in the order
  of `restartDelays`; and an exit without a delay leaves the client failed.
-/

namespace Strukt.Language

open Method LanguageClient

variable {c c' : LanguageClient} {now : Duration} {op : ClientOp}

/-- An exit counts for ten minutes. -/
def restartExpiry : Expiry Duration where
  fresh now time := decide (now.saturatingSub time ≤ restartWindow)
  self t := decide_eq_true (show t.nanos - t.nanos ≤ restartWindow.nanos by
    rw [Nat.sub_self]
    exact Nat.zero_le _)
  later {now t t'} h hf := decide_eq_true (show now.nanos - t'.nanos ≤ restartWindow.nanos from
    (Nat.sub_le_sub_left h _).trans (of_decide_eq_true hf))
  earlier {now now' t} h hf := decide_eq_true (show now.nanos - t.nanos ≤ restartWindow.nanos from
    (Nat.sub_le_sub_right h _).trans (of_decide_eq_true hf))

/-- The exit of a server process, and what `process_exited` made of it. -/
structure Exit where
  time : Duration
  delay : Option Duration
  state : LanguageServerState
  deriving DecidableEq

/-- The exit still counts at `now`. -/
def Exit.counts (e : Exit) (now : Duration) : Bool := now.saturatingSub e.time ≤ restartWindow

/-- A client with the exits so far. -/
structure Crashing where
  client : LanguageClient
  exits : List Exit
  deriving DecidableEq

namespace Crashing

variable {s s' : Crashing}

def start (c : LanguageClient) : Crashing := ⟨c, []⟩

def step (s : Crashing) (op : ClientOp) : Option Crashing :=
  match op with
  | .processExited now =>
    observe (LanguageClient.processExited now) s.client
      (fun delay c => ⟨c, s.exits ++ [⟨now, delay, c.state⟩]⟩) fun _ c => { s with client := c }
  | op => observe op.run s.client (fun _ c => { s with client := c }) fun _ c =>
      { s with client := c }

/-- No exit is earlier than the ones before it. -/
def InOrder (s : Crashing) : ClientOp → Prop
  | .processExited now => ∀ e ∈ s.exits, e.time ≤ now
  | _ => True

instance InOrder.decidable (s : Crashing) : ∀ op, Decidable (s.InOrder op)
  | .processExited now => inferInstanceAs (Decidable (∀ e ∈ s.exits, e.time ≤ now))
  | .start _ | .acceptInitialize .. | .rejectInitialize _ | .failProtocol | .didOpen ..
  | .didSave _ | .didClose .. | .didChange .. | .flushChanges _ | .requestFeature ..
  | .acceptFeatureResponse _ | .restartGeneration | .beginShutdown _ | .acceptShutdown _
  | .finishShutdown | .pollTimeouts _ | .takeOutbound => isTrue trivial

/-! ## What the client records -/

/-- The crash times after an exit. -/
def crashed (times : List Duration) (now : Duration) : List Duration :=
  times.dropWhile (fun time => !restartExpiry.fresh now time) ++ [now]

theorem processExited_eq (c : LanguageClient) (now : Duration) :
    (LanguageClient.processExited now).exec c =
      some (.ok restartDelays[(crashed c.crashTimes now).length - 1]?,
        { c.ended (if restartDelays[(crashed c.crashTimes now).length - 1]?.isSome then .restarting
            else .failed) with
          crashTimes := crashed c.crashTimes now }) := by
  have hcrashed : (c.crashTimes.dropWhile fun time => restartWindow < now.saturatingSub time) ++
      [now] = crashed c.crashTimes now := by
    unfold crashed restartExpiry
    congr 2
    funext time
    rw [← decide_not, decide_eq_decide, not_le]
  rw [← wp_returns]
  simp only [LanguageClient.processExited, LanguageClient.restartGeneration, wp_bind, wp_modify,
    wp_get, wp_ite, wp_pure, hcrashed]
  refine ⟨fun hnone => ⟨trivial, ?_⟩, fun hsome => ⟨trivial, ?_⟩⟩
  · rw [Option.isNone_iff_eq_none] at hnone
    rw [hnone]
    rfl
  · rw [Option.isNone_iff_eq_none, ← Ne, Option.ne_none_iff_isSome] at hsome
    rw [hsome]
    rfl

theorem crashTimes_of_done (h : op.Done c c') (hop : ∀ now, op ≠ .processExited now) :
    c'.crashTimes = c.crashTimes := by
  cases op with
  | start now =>
    obtain ⟨-, -, deadline, rfl⟩ := h
    rfl
  | acceptInitialize id capabilities =>
    obtain ⟨-, -, -, rfl⟩ := h
    rfl
  | rejectInitialize | failProtocol | flushChanges | acceptFeatureResponse | restartGeneration
  | finishShutdown | takeOutbound =>
    obtain rfl := h
    rfl
  | didOpen document revision text =>
    obtain ⟨-, -, rfl⟩ := h
    rfl
  | didSave document =>
    obtain ⟨-, -, rfl | ⟨-, rfl⟩⟩ := h
    · rfl
    · rfl
  | didClose document now order =>
    obtain ⟨-, -, -, _, rfl⟩ := h
    rfl
  | didChange document revision text now order =>
    obtain ⟨-, -, -, _, rfl⟩ := h
    rfl
  | requestFeature kind document revision position now order =>
    obtain ⟨-, -, -, _, rfl⟩ := h
    rfl
  | processExited now => exact absurd rfl (hop now)
  | beginShutdown now =>
    obtain ⟨-, deadline, rfl⟩ := h
    rfl
  | acceptShutdown id =>
    obtain ⟨-, -, -, rfl⟩ := h
    rfl
  | pollTimeouts now =>
    obtain ⟨c₁, c₂, c₃, h₁, h₂, h₃, h₄⟩ := h
    have hfirst : c₁.crashTimes = c.crashTimes := by
      obtain rfl | ⟨-, rfl⟩ := h₁
      · rfl
      · rfl
    have hsecond : c₂.crashTimes = c₁.crashTimes := by
      obtain ⟨state, requests, cancels, rfl, -⟩ := h₂.cancelled
      rfl
    have hthird : c₃.crashTimes = c₂.crashTimes := by
      obtain rfl | ⟨-, rfl⟩ := h₃
      · rfl
      · rfl
    rw [← hfirst, ← hsecond, ← hthird]
    cases h₄ with
    | not => rfl
    | shutdown => rfl
    | full => rfl
    | exhausted => rfl

theorem crashTimes_of_failed (h : op.Failed c c') : c'.crashTimes = c.crashTimes := by
  cases op with
  | start now =>
    obtain rfl | ⟨-, -, rfl⟩ := h
    · rfl
    · rfl
  | acceptInitialize id capabilities =>
    obtain rfl | ⟨-, -, -, rfl⟩ := h
    · rfl
    · rfl
  | didOpen document revision text =>
    obtain rfl | ⟨-, -, rfl⟩ := h
    · rfl
    · rfl
  | didClose document now order =>
    obtain rfl | ⟨-, -, rfl⟩ := h
    · rfl
    · rfl
  | didChange document revision text now order =>
    obtain rfl | ⟨-, -, _, rfl⟩ := h
    · rfl
    · rfl
  | requestFeature kind document revision position now order =>
    obtain rfl | ⟨-, -, _, rfl⟩ := h
    · rfl
    · rfl
  | beginShutdown now =>
    obtain rfl | ⟨-, rfl⟩ := h
    · rfl
    · rfl
  | acceptShutdown id =>
    obtain rfl | ⟨-, rfl⟩ := h
    · rfl
    · rfl
  | rejectInitialize | failProtocol | didSave | flushChanges | acceptFeatureResponse
  | restartGeneration | processExited | finishShutdown | pollTimeouts | takeOutbound =>
    obtain rfl := h
    rfl

/-- What an operation other than an exit does to the client, it does not do to the exits. -/
theorem step_other (hop : ∀ now, op ≠ .processExited now) (hs : s.step op = some s') :
    s'.client.crashTimes = s.client.crashTimes ∧ s'.exits = s.exits := by
  have hobserve : observe op.run s.client (fun _ c => { s with client := c })
      (fun _ c => { s with client := c }) = some s' := by
    rw [← hs]
    unfold step
    split
    · next now => exact absurd rfl (hop now)
    · rfl
  refine wp.observe (P := True)
    (I := fun s' => s'.client.crashTimes = s.client.crashTimes ∧ s'.exits = s.exits) ?_ hobserve
  exact wp_mono (op.run_spec s.client) (fun _ c' hd => ⟨crashTimes_of_done hd hop, rfl⟩)
    (fun _ c' hf => ⟨crashTimes_of_failed hf, rfl⟩) fun h => h

/-! ## Every run -/

/-- The delays by the number of exits before that still count. -/
def delayFor (n : Nat) : Option Duration := restartDelays[n]?

/-- The exits as a log of delays. -/
def log (s : Crashing) : List (Duration × Option Duration) := s.exits.map fun e => (e.time, e.delay)

structure Recorded (s : Crashing) : Prop where
  sorted : (s.exits.map (·.time)).Pairwise (· ≤ ·)
  times : s.client.crashTimes = match s.exits.getLast? with
    | some e => restartExpiry.recent e.time (s.exits.map (·.time))
    | none => []
  judged : restartExpiry.Judged delayFor s.log
  states : ∀ e ∈ s.exits, e.state = if e.delay.isSome then .restarting else .failed

theorem Recorded.recent_eq (h : s.Recorded) (hle : ∀ e ∈ s.exits, e.time ≤ now) :
    crashed s.client.crashTimes now =
      restartExpiry.recent now (s.exits.map (·.time) ++ [now]) := by
  unfold crashed
  rw [h.times]
  obtain hnil | ⟨exits, e, hexits⟩ := List.eq_nil_or_concat s.exits
  · rw [hnil]
    simp [Expiry.recent, restartExpiry.self]
  · have hlast : s.exits.getLast? = some e := by simp [hexits]
    rw [hlast]
    exact restartExpiry.recent_append h.sorted (hle e (List.mem_of_getLast? hlast))

theorem Recorded.exited (h : s.Recorded) (hle : ∀ e ∈ s.exits, e.time ≤ now)
    (hs : s.step (.processExited now) = some s') : s'.Recorded := by
  have hcrashed := h.recent_eq hle
  have hlength : (crashed s.client.crashTimes now).length - 1 =
      (restartExpiry.recent now (s.exits.map (·.time))).length := by
    rw [hcrashed]
    simp [Expiry.recent, restartExpiry.self]
  rw [step, observe, processExited_eq] at hs
  obtain rfl := Option.some.inj hs
  refine ⟨?_, ?_, ?_, fun e he => ?_⟩
  · rw [List.map_append, List.pairwise_append]
    refine ⟨h.sorted, List.pairwise_singleton _ _, fun t ht t' ht' => ?_⟩
    obtain ⟨e, he, rfl⟩ := List.mem_map.mp ht
    obtain rfl := List.mem_singleton.mp ht'
    exact hle e he
  · simp only [List.getLast?_append, List.getLast?_singleton, Option.some_or, List.map_append,
      List.map_singleton]
    exact hcrashed
  · rw [log, List.map_append]
    refine h.judged.append ?_
    show restartDelays[_]? = delayFor _
    rw [hlength, delayFor, log, List.map_map]
    rfl
  · obtain he | he := List.mem_append.mp he
    · exact h.states e he
    · obtain rfl := List.mem_singleton.mp he
      rfl

theorem Recorded.step (h : s.Recorded) (hc : s.InOrder op) (hs : s.step op = some s') :
    s'.Recorded := by
  by_cases hop : ∃ now, op = .processExited now
  · obtain ⟨now, rfl⟩ := hop
    exact h.exited hc hs
  · obtain ⟨htimes, hexits⟩ := step_other (fun now he => hop ⟨now, he⟩) hs
    refine ⟨hexits ▸ h.sorted, ?_, ?_, hexits ▸ h.states⟩
    · rw [htimes, hexits]
      exact h.times
    · rw [log, hexits]
      exact h.judged

theorem recorded_new (workspaceId descriptorId : String) :
    (start (.new workspaceId descriptorId)).Recorded :=
  ⟨List.Pairwise.nil, rfl, Expiry.judged_nil, nofun⟩

/-! ## The law -/

theorem lt_of_isSome {n : Nat} (h : (delayFor n).isSome) : n < 3 := by
  by_contra hge
  rw [delayFor, List.getElem?_eq_none (Nat.le_of_not_lt hge)] at h
  cases h

theorem restart_law {workspaceId descriptorId : String}
    (h : Runs step InOrder (start (.new workspaceId descriptorId)) s) :
    (∀ a, (s.exits.filter fun e => a ≤ e.time ∧ e.time.saturatingSub a ≤ restartWindow ∧
      e.delay.isSome).length ≤ 3) ∧
    (∀ before block after first last, s.exits = before ++ block ++ after →
      (∀ e ∈ block, first ≤ e.time ∧ e.time ≤ last) → last.saturatingSub first ≤ restartWindow →
      (∀ e ∈ before, e.counts first → e.counts last) →
      block.map (·.delay) = (List.range block.length).map fun n =>
        restartDelays[(before.filter (·.counts first)).length + n]?) ∧
    ∀ e ∈ s.exits, e.state = if e.delay.isSome then .restarting else .failed := by
  have hrecorded : s.Recorded :=
    h.invariant (recorded_new workspaceId descriptorId) fun _ _ _ hr hc hs => hr.step hc hs
  refine ⟨fun a => ?_, fun before block after first last hexits hin hwindow hkept => ?_,
    hrecorded.states⟩
  · have hbudget := hrecorded.judged.budget (fun n => lt_of_isSome) a
    rw [log, Expiry.inWindow, List.filter_filter, List.filter_map, List.length_map] at hbudget
    refine le_of_eq_of_le (congrArg List.length (List.filter_congr fun e _ => ?_)) hbudget
    rw [Bool.eq_iff_iff]
    simp only [Function.comp_apply, restartExpiry, decide_eq_true_eq, Bool.and_eq_true]
    exact ⟨fun h => ⟨h.2.2, h.1, h.2.1⟩, fun h => ⟨h.2.1, h.2.2, h.1⟩⟩
  · have hjudged := hrecorded.judged
    rw [log, hexits, List.map_append, List.map_append] at hjudged
    have hblock := hjudged.block first last
      (fun e he => by
        obtain ⟨exit, hexit, rfl⟩ := List.mem_map.mp he
        exact (hin exit hexit).1)
      (fun e he => by
        obtain ⟨exit, hexit, rfl⟩ := List.mem_map.mp he
        exact (hin exit hexit).2)
      (fun e he hf => by
        obtain ⟨exit, hexit, rfl⟩ := List.mem_map.mp he
        exact hkept exit hexit hf)
      (decide_eq_true hwindow)
    rw [List.map_map, List.map_map, List.length_map, Expiry.recent, List.filter_map,
      List.length_map] at hblock
    exact hblock

/-- Four exits within ten minutes, and one when the first two do not count any more. -/
theorem restart_law_fourth : ∃ s : Crashing, Runs step InOrder (start (.new "w" "rust")) s ∧
    s.exits.map (·.delay) = restartDelays.map some ++ [none, restartDelays[2]?] ∧
    (s.exits.filter fun e => (0 : Duration) ≤ e.time ∧
      e.time.saturatingSub 0 ≤ restartWindow ∧ e.delay.isSome).length ≤ 3 := by
  have hrun : ([.processExited 0, .processExited changeDelay, .processExited requestTimeout,
      .processExited restartWindow, .processExited ⟨600300000000, by decide⟩].foldlM step
        (start (.new "w" "rust"))).any fun s =>
        s.exits.map (·.delay) = restartDelays.map some ++ [none, restartDelays[2]?] := by
    decide
  obtain ⟨s, hs, hdelays⟩ := (Option.any_eq_true _ _).mp hrun
  have hruns : Runs step InOrder (start (.new "w" "rust")) s :=
    Along.runs (by decide) hs
  exact ⟨s, hruns, of_decide_eq_true hdelays, (restart_law hruns).1 0⟩

end Crashing
end Strukt.Language
