import Strukt.Lib.Method
import Strukt.Lib.Runs
import Strukt.Lib.SortedMap
import Strukt.Prim

/-!
# Flow control of remote operations

An `OperationTracker` holds the open operations of a connection: the sequence number that the next
chunk must have, the bytes that may still come, and whether the operation was cancelled. `Account`
is what an observer of the accepted events counts for an operation; over every run of events from
the peer the tracker agrees with it (`tracker_law`).

The sequence number is a `u64` that saturates, so the numbers are consecutive up to the last one,
which then repeats (`saturated_repeats`).
-/

namespace Strukt.Remote

open Method

def hardMaxFrameBytes : Nat := 16 * 1024 * 1024
def hardMaxInFlight : Nat := 1024

/-- `usize::MAX`. -/
def usizeMax : Nat := 2 ^ 64 - 1

structure ProtocolLimits where
  maxFrameBytes : Nat
  maxInFlight : Nat
  maxStreamChunkBytes : Nat
  initialStreamCreditBytes : Nat
  deriving DecidableEq

namespace ProtocolLimits

def Valid (l : ProtocolLimits) : Prop :=
  0 < l.maxFrameBytes ∧ l.maxFrameBytes ≤ hardMaxFrameBytes ∧ 0 < l.maxInFlight ∧
    l.maxInFlight ≤ hardMaxInFlight ∧ 0 < l.maxStreamChunkBytes ∧
    l.maxStreamChunkBytes ≤ l.maxFrameBytes ∧ 0 < l.initialStreamCreditBytes ∧
    l.initialStreamCreditBytes ≤ hardMaxFrameBytes

instance (l : ProtocolLimits) : Decidable l.Valid := by unfold Valid; infer_instance

/-- `ProtocolLimits::default`. -/
def standard : ProtocolLimits := ⟨1024 * 1024, 64, 32 * 1024, 256 * 1024⟩

theorem standard_valid : standard.Valid := by decide

end ProtocolLimits

structure RequestId where
  value : UInt64
  deriving DecidableEq

instance : LinearOrder RequestId :=
  LinearOrder.lift' (fun id => id.value.toNat) fun a b h => by
    cases a; cases b; cases UInt64.toNat_inj.mp h; rfl

inductive ProtocolError where
  | incompatibleMajor
  | nonceMismatch
  | invalidLimits
  | invalidRequestId
  | duplicateRequest
  | tooManyInFlight
  | unknownRequest
  | requestCancelled
  | invalidSequence
  | chunkTooLarge
  | creditExceeded
  | invalidSessionPayload
  | sessionPayloadTooLarge
  deriving DecidableEq

structure StreamChunk where
  requestId : RequestId
  sequence : UInt64
  bytes : List UInt8
  deriving DecidableEq

structure OperationState where
  nextSequence : UInt64
  credit : Nat
  cancelled : Bool
  deriving DecidableEq

structure OperationTracker where
  limits : ProtocolLimits
  operations : SortedMap RequestId OperationState
  deriving DecidableEq

abbrev TrackerM (α : Type) := Method OperationTracker ProtocolError α

namespace OperationTracker

def new (limits : ProtocolLimits) : Except ProtocolError OperationTracker :=
  if limits.Valid then .ok ⟨limits, .empty⟩ else .error .invalidLimits

def setOperation (requestId : RequestId) (state : OperationState) : TrackerM Unit :=
  modify fun t => { t with operations := t.operations.insert requestId state }

def register (requestId : RequestId) : TrackerM Unit := do
  let t ← get
  ensure (t.operations.get? requestId = none) .duplicateRequest
  ensure (t.operations.length < t.limits.maxInFlight) .tooManyInFlight
  setOperation requestId ⟨0, t.limits.initialStreamCreditBytes, false⟩

def acceptChunk (chunk : StreamChunk) : TrackerM Unit := do
  let t ← get
  let state ← okOr .unknownRequest (t.operations.get? chunk.requestId)
  ensure (state.cancelled = false) .requestCancelled
  ensure (chunk.sequence = state.nextSequence) .invalidSequence
  ensure (chunk.bytes.length ≤ t.limits.maxStreamChunkBytes) .chunkTooLarge
  ensure (chunk.bytes.length ≤ state.credit) .creditExceeded
  setOperation chunk.requestId
    { state with
      credit := state.credit - chunk.bytes.length
      nextSequence := state.nextSequence.satSucc }

def grantCredit (requestId : RequestId) (bytes : Nat) : TrackerM Unit := do
  let state ← okOr .unknownRequest ((← get).operations.get? requestId)
  ensure (state.cancelled = false) .requestCancelled
  ensure (state.credit + bytes ≤ usizeMax) .creditExceeded
  setOperation requestId { state with credit := state.credit + bytes }

def complete (requestId : RequestId) : TrackerM Unit := do
  discard (okOr .unknownRequest ((← get).operations.get? requestId))
  modify fun t => { t with operations := t.operations.remove requestId }

def cancel (requestId : RequestId) : TrackerM Unit := do
  let state ← okOr .unknownRequest ((← get).operations.get? requestId)
  setOperation requestId { state with cancelled := true }

end OperationTracker

/-! ## Runs -/

inductive TrackerEvent where
  | register (requestId : RequestId)
  | acceptChunk (chunk : StreamChunk)
  | grantCredit (requestId : RequestId) (bytes : Nat)
  | complete (requestId : RequestId)
  | cancel (requestId : RequestId)
  deriving DecidableEq

def TrackerEvent.run : TrackerEvent → TrackerM Unit
  | .register requestId => OperationTracker.register requestId
  | .acceptChunk chunk => OperationTracker.acceptChunk chunk
  | .grantCredit requestId bytes => OperationTracker.grantCredit requestId bytes
  | .complete requestId => OperationTracker.complete requestId
  | .cancel requestId => OperationTracker.cancel requestId

/-- What was accepted for an operation since it was registered. -/
structure Account where
  sequences : List Nat
  bytes : Nat
  granted : Nat
  cancelled : Bool
  deriving DecidableEq

/-- A tracker with the accounts of the operations that were registered and not completed. -/
structure Tracked where
  tracker : OperationTracker
  accounts : SortedMap RequestId Account
  deriving DecidableEq

namespace Tracked

def start (t : OperationTracker) : Tracked := ⟨t, .empty⟩

/-- The account of an operation changes. -/
def update (w : Tracked) (requestId : RequestId) (f : Account → Account) :
    SortedMap RequestId Account :=
  match w.accounts.get? requestId with
  | some a => w.accounts.insert requestId (f a)
  | none => w.accounts

/-- The accounts after an event that was accepted. -/
def after (w : Tracked) : TrackerEvent → SortedMap RequestId Account
  | .register requestId => w.accounts.insert requestId ⟨[], 0, 0, false⟩
  | .acceptChunk chunk => w.update chunk.requestId fun a =>
    { a with
      sequences := a.sequences ++ [chunk.sequence.toNat]
      bytes := a.bytes + chunk.bytes.length }
  | .grantCredit requestId bytes => w.update requestId fun a =>
    { a with granted := a.granted + bytes }
  | .complete requestId => w.accounts.remove requestId
  | .cancel requestId => w.update requestId fun a => { a with cancelled := true }

def step (w : Tracked) (e : TrackerEvent) : Option Tracked :=
  match e.run.exec w.tracker with
  | some (.ok _, t) => some ⟨t, w.after e⟩
  | some (.error _, t) => some { w with tracker := t }
  | none => none

/-- The tracker's state of an operation agrees with its account. -/
structure Agrees (limits : ProtocolLimits) (s : OperationState) (a : Account) : Prop where
  credit : s.credit + a.bytes = limits.initialStreamCreditBytes + a.granted
  next : s.nextSequence.toNat = min a.sequences.length u64Max
  sequences : a.sequences = (List.range a.sequences.length).map (min · u64Max)
  cancelled : s.cancelled = a.cancelled

/-- The open operations are the ones with an account, and agree with it. -/
structure Accounts (limits : ProtocolLimits) (w : Tracked) : Prop where
  negotiated : w.tracker.limits = limits
  inFlight : w.tracker.operations.length ≤ limits.maxInFlight
  agrees : ∀ id, Option.Rel (Agrees limits) (w.tracker.operations.get? id) (w.accounts.get? id)

variable {limits : ProtocolLimits} {w w' : Tracked} {id : RequestId} {s s' : OperationState}
  {a : Account} {e : TrackerEvent}

theorem accounts_start {t : OperationTracker} (h : OperationTracker.new limits = .ok t) :
    (start t).Accounts limits := by
  unfold OperationTracker.new at h
  split at h
  · cases h
    exact ⟨rfl, Nat.zero_le _, fun _ => .none⟩
  · cases h

/-- An open operation has an account. -/
theorem Accounts.account (h : w.Accounts limits) (hs : w.tracker.operations.get? id = some s) :
    ∃ a, w.accounts.get? id = some a ∧ Agrees limits s a := by
  have hrel := h.agrees id
  rw [hs] at hrel
  cases ha : w.accounts.get? id with
  | none => rw [ha] at hrel; cases hrel
  | some a => rw [ha] at hrel; cases hrel; exact ⟨a, rfl, ‹_›⟩

theorem Accounts.operation (h : w.Accounts limits) (ha : w.accounts.get? id = some a) :
    ∃ s, w.tracker.operations.get? id = some s ∧ Agrees limits s a := by
  have hrel := h.agrees id
  rw [ha] at hrel
  cases hs : w.tracker.operations.get? id with
  | none => rw [hs] at hrel; cases hrel
  | some s => rw [hs] at hrel; cases hrel; exact ⟨s, rfl, ‹_›⟩

/-- One operation and its account change together. -/
theorem Accounts.insert (h : w.Accounts limits) (hs : w.tracker.operations.get? id = some s)
    (hagrees : Agrees limits s' a) :
    Accounts limits
      ⟨{ w.tracker with operations := w.tracker.operations.insert id s' },
        w.accounts.insert id a⟩ := by
  refine ⟨h.negotiated, ?_, fun i => ?_⟩
  · dsimp only
    rw [SortedMap.length_insert_of_mem hs]
    exact h.inFlight
  · dsimp only
    rw [SortedMap.get?_insert, SortedMap.get?_insert]
    split
    · exact .some hagrees
    · exact h.agrees i

theorem Accounts.updated (h : w.Accounts limits) (hs : w.tracker.operations.get? id = some s)
    (f : Account → Account) (hf : ∀ a, Agrees limits s a → Agrees limits s' (f a)) :
    Accounts limits
      ⟨{ w.tracker with operations := w.tracker.operations.insert id s' }, w.update id f⟩ := by
  obtain ⟨a, ha, hagrees⟩ := h.account hs
  rw [update, ha]
  exact h.insert hs (hf a hagrees)

theorem Agrees.chunk {n : Nat} (h : Agrees limits s a) (hn : n ≤ s.credit) :
    Agrees limits { s with credit := s.credit - n, nextSequence := s.nextSequence.satSucc }
      { a with
        sequences := a.sequences ++ [s.nextSequence.toNat]
        bytes := a.bytes + n } := by
  have hcredit := h.credit
  refine ⟨?_, ?_, ?_, h.cancelled⟩
  · dsimp only
    omega
  · dsimp only
    rw [toNat_satSucc, h.next, List.length_append, List.length_singleton]
    omega
  · dsimp only
    rw [List.length_append, List.length_singleton, List.range_succ, List.map_append,
      ← h.sequences, h.next]
    rfl

/-- What an event leaves: an accepted one keeps the accounts, a rejected one the tracker. -/
theorem Accounts.run (h : w.Accounts limits) (e : TrackerEvent) :
    wp e.run (fun _ t => Accounts limits ⟨t, w.after e⟩) (fun _ t => t = w.tracker) False
      w.tracker := by
  cases e with
  | register id =>
    simp only [TrackerEvent.run, OperationTracker.register, OperationTracker.setOperation, wp_bind,
      wp_get, wp_ensure, wp_modify]
    refine ⟨fun hnone => ⟨fun hlt => ?_, fun _ => trivial⟩, fun _ => trivial⟩
    rw [h.negotiated] at hlt
    refine ⟨h.negotiated, ?_, fun i => ?_⟩
    · dsimp only
      rw [SortedMap.length_insert_of_notMem (SortedMap.get?_eq_none.mp hnone)]
      exact hlt
    · simp only [after, SortedMap.get?_insert]
      split
      · exact .some ⟨by rw [h.negotiated], rfl, rfl, rfl⟩
      · exact h.agrees i
  | acceptChunk chunk =>
    simp only [TrackerEvent.run, OperationTracker.acceptChunk, OperationTracker.setOperation,
      wp_bind, wp_get, wp_okOr, wp_ensure, wp_modify]
    refine ⟨fun s hs => ⟨fun _ => ⟨fun hseq => ⟨fun _ => ⟨fun hcredit => ?_, fun _ => trivial⟩,
      fun _ => trivial⟩, fun _ => trivial⟩, fun _ => trivial⟩, fun _ => trivial⟩
    refine h.updated hs _ fun a ha => ?_
    rw [hseq]
    exact ha.chunk hcredit
  | grantCredit id bytes =>
    simp only [TrackerEvent.run, OperationTracker.grantCredit, OperationTracker.setOperation,
      wp_bind, wp_get, wp_okOr, wp_ensure, wp_modify]
    refine ⟨fun s hs => ⟨fun _ => ⟨fun _ => ?_, fun _ => trivial⟩, fun _ => trivial⟩,
      fun _ => trivial⟩
    refine h.updated hs _ fun a ha => ⟨?_, ha.next, ha.sequences, ha.cancelled⟩
    have hcredit := ha.credit
    dsimp only
    omega
  | complete id =>
    simp only [TrackerEvent.run, OperationTracker.complete, wp_bind, wp_get, wp_discard, wp_okOr,
      wp_modify]
    refine ⟨fun s hs => ⟨h.negotiated, ?_, fun i => ?_⟩, fun _ => trivial⟩
    · have hlen : (w.tracker.operations.remove id).length ≤ w.tracker.operations.length :=
        List.length_filter_le _ _
      exact hlen.trans h.inFlight
    · simp only [after, SortedMap.get?_remove]
      split
      · exact .none
      · exact h.agrees i
  | cancel id =>
    simp only [TrackerEvent.run, OperationTracker.cancel, OperationTracker.setOperation, wp_bind,
      wp_get, wp_okOr, wp_modify]
    refine ⟨fun s hs => h.updated hs _ fun a ha => ⟨ha.credit, ha.next, ha.sequences, rfl⟩,
      fun _ => trivial⟩

theorem Accounts.step (h : w.Accounts limits) (hs : w.step e = some w') : w'.Accounts limits := by
  have hspec := h.run e
  unfold Tracked.step at hs
  cases hx : e.run.exec w.tracker with
  | none => simp only [hx] at hs; cases hs
  | some r =>
    obtain ⟨r, t⟩ := r
    cases r with
    | ok u =>
      simp only [hx] at hs
      cases hs
      exact hspec.of_ok hx
    | error e =>
      simp only [hx] at hs
      cases hs
      rw [hspec.of_error hx]
      exact h

theorem accounts_of_runs {t : OperationTracker} (hnew : OperationTracker.new limits = .ok t)
    (h : Runs Tracked.step (fun _ _ => True) (start t) w) : w.Accounts limits :=
  h.invariant (I := Accounts limits) (accounts_start hnew) fun _ _ _ hI _ hs => hI.step hs

/-- Over every sequence of events from the peer: an operation has taken no more bytes than its
first credit and what was granted, its chunks were numbered from zero on (up to the last `u64`,
which repeats), a chunk is only accepted for an operation that is registered and neither cancelled
nor completed since, there are never more open operations than negotiated, and a rejected event
changes nothing. -/
theorem tracker_law {t₀ : OperationTracker} (hnew : OperationTracker.new limits = .ok t₀)
    (h : Runs step (fun _ _ => True) (start t₀) w) :
    (∀ id a, w.accounts.get? id = some a →
      a.bytes ≤ limits.initialStreamCreditBytes + a.granted ∧
        a.sequences = (List.range a.sequences.length).map (min · u64Max)) ∧
    (∀ chunk t, (OperationTracker.acceptChunk chunk).exec w.tracker = some (.ok (), t) →
      ∃ a, w.accounts.get? chunk.requestId = some a ∧ a.cancelled = false) ∧
    w.tracker.operations.length ≤ limits.maxInFlight ∧
    (∀ (e : TrackerEvent) err t, e.run.exec w.tracker = some (.error err, t) → t = w.tracker) ∧
    ∀ e, (TrackerEvent.run e).exec w.tracker ≠ none := by
  have hacc := accounts_of_runs hnew h
  refine ⟨fun id a ha => ?_, fun chunk t hx => ?_, hacc.inFlight,
    fun e err t hx => (hacc.run e).of_error hx, fun e hnone => ?_⟩
  · obtain ⟨s, hs, hagrees⟩ := hacc.operation ha
    have hcredit := hagrees.credit
    exact ⟨by omega, hagrees.sequences⟩
  · have hspec : wp (OperationTracker.acceptChunk chunk) (fun _ _ =>
        ∃ s, w.tracker.operations.get? chunk.requestId = some s ∧ s.cancelled = false)
        (fun _ _ => True) True w.tracker := by
      simp only [OperationTracker.acceptChunk, OperationTracker.setOperation, wp_bind, wp_get,
        wp_okOr, wp_ensure, wp_modify, implies_true, and_true]
      exact fun s hs hc _ _ _ => ⟨s, hs, hc⟩
    obtain ⟨s, hs, hc⟩ := hspec.of_ok hx
    obtain ⟨a, ha, hagrees⟩ := hacc.account hs
    exact ⟨a, ha, hagrees.cancelled ▸ hc⟩
  · obtain ⟨r, t, hx⟩ := (hacc.run e).ends
    cases hnone.symm.trans hx

/-- Two operations, a grant, a cancellation and a completion. -/
theorem tracker_law_stream : ∃ w : Tracked,
    Runs step (fun _ _ => True) (start ⟨⟨1024, 2, 8, 10⟩, .empty⟩) w ∧
      w.accounts.get? ⟨1⟩ = some ⟨[0, 1], 11, 4, false⟩ ∧ 11 ≤ 10 + 4 ∧
      w.tracker.operations.length ≤ 2 := by
  have hruns : ([.register ⟨1⟩, .register ⟨2⟩, .register ⟨3⟩, .acceptChunk ⟨⟨1⟩, 0, .replicate 8 1⟩,
      .acceptChunk ⟨⟨1⟩, 2, [1]⟩, .acceptChunk ⟨⟨1⟩, 1, [1, 1, 1]⟩, .grantCredit ⟨1⟩ 4,
      .acceptChunk ⟨⟨1⟩, 1, [1, 1, 1]⟩, .cancel ⟨2⟩, .acceptChunk ⟨⟨2⟩, 0, [1]⟩,
      .complete ⟨2⟩].foldlM step (start ⟨⟨1024, 2, 8, 10⟩, .empty⟩)).any fun w =>
        w.accounts.get? ⟨1⟩ = some ⟨[0, 1], 11, 4, false⟩ := by
    decide
  obtain ⟨w, hw, hend⟩ := (Option.any_eq_true _ _).mp hruns
  have haccount := of_decide_eq_true hend
  have hto : Runs step (fun _ _ => True) (start ⟨⟨1024, 2, 8, 10⟩, .empty⟩) w :=
    Along.runs (by decide) hw
  obtain ⟨hlaw, -, hlen, -⟩ := @tracker_law ⟨1024, 2, 8, 10⟩ _ _ rfl hto
  exact ⟨w, hto, haccount, (hlaw ⟨1⟩ _ haccount).1, hlen⟩

theorem new_standard : OperationTracker.new .standard = .ok ⟨.standard, .empty⟩ :=
  if_pos ProtocolLimits.standard_valid

/-- Empty chunks bring an operation to any number of chunks. -/
theorem reaches_chunks (n : Nat) : ∃ (es : List TrackerEvent) (w : Tracked) (a : Account),
    es.foldlM step (start ⟨.standard, .empty⟩) = some w ∧ w.accounts.get? ⟨1⟩ = some a ∧
      a.cancelled = false ∧ a.sequences.length = n := by
  induction n with
  | zero =>
    have hruns : ([.register ⟨1⟩].foldlM step (start ⟨.standard, .empty⟩)).any fun w =>
        w.accounts.get? ⟨1⟩ = some ⟨[], 0, 0, false⟩ := by
      decide
    obtain ⟨w, hw, hend⟩ := (Option.any_eq_true _ _).mp hruns
    exact ⟨_, w, _, hw, of_decide_eq_true hend, rfl, rfl⟩
  | succ n ih =>
    obtain ⟨es, w, a, hw, ha, hcancelled, hlen⟩ := ih
    have hto : Runs step (fun _ _ => True) (start ⟨.standard, .empty⟩) w :=
      Along.runs (along_true es _) hw
    obtain ⟨s, hs, hagrees⟩ := (accounts_of_runs new_standard hto).operation ha
    have hspec : wp (TrackerEvent.acceptChunk ⟨⟨1⟩, s.nextSequence, []⟩).run (fun _ _ => True)
        (fun _ _ => False) False w.tracker := by
      simp only [TrackerEvent.run, OperationTracker.acceptChunk, OperationTracker.setOperation,
        wp_bind, wp_get, wp_okOr, wp_ensure, wp_modify, hs]
      refine ⟨fun s' hs' => ?_, fun hnone => by cases hnone⟩
      cases hs'
      exact ⟨fun _ => ⟨fun _ => ⟨fun _ => ⟨fun _ => trivial, fun h => h (Nat.zero_le _)⟩,
        fun h => h (Nat.zero_le _)⟩, fun h => h rfl⟩, fun h => h (hagrees.cancelled ▸ hcancelled)⟩
    obtain ⟨r, t, hx⟩ := hspec.ends
    cases r with
    | error e => exact (hspec.of_error hx).elim
    | ok u =>
      let chunk : StreamChunk := ⟨⟨1⟩, s.nextSequence, []⟩
      let a' : Account :=
        { a with sequences := a.sequences ++ [s.nextSequence.toNat], bytes := a.bytes + 0 }
      refine ⟨es ++ [.acceptChunk chunk], ⟨t, w.after (.acceptChunk chunk)⟩, a', ?_, ?_,
        hcancelled, by simp [a', hlen]⟩
      · rw [List.foldlM_append, hw]
        simp only [List.foldlM_cons, List.foldlM_nil, Option.bind_eq_bind, Option.bind_some,
          step, chunk, hx, Option.pure_def]
      · simp only [after, update, chunk, ha, SortedMap.get?_insert, if_true]
        rfl

/-- The number of the last chunks is the last `u64`, not the number of chunks before. -/
theorem saturated_repeats : ∃ (es : List TrackerEvent) (w : Tracked) (a : Account),
    es.foldlM step (start ⟨.standard, .empty⟩) = some w ∧ w.accounts.get? ⟨1⟩ = some a ∧
      a.sequences.length = 2 ^ 64 + 1 ∧ a.sequences ≠ List.range (2 ^ 64 + 1) := by
  obtain ⟨es, w, a, hw, ha, -, hlen⟩ := reaches_chunks (2 ^ 64 + 1)
  have hto : Runs step (fun _ _ => True) (start ⟨.standard, .empty⟩) w :=
    Along.runs (along_true es _) hw
  refine ⟨es, w, a, hw, ha, hlen, fun heq => ?_⟩
  have hseq : a.sequences[2 ^ 64]? = some (min (2 ^ 64) u64Max) := by
    obtain ⟨s, -, hagrees⟩ := (accounts_of_runs new_standard hto).operation ha
    rw [hagrees.sequences, hlen, List.getElem?_map, List.getElem?_range (by decide)]
    rfl
  rw [heq, List.getElem?_range (by decide)] at hseq
  exact absurd (Option.some.inj hseq) (by decide)

end Tracked
end Strukt.Remote
