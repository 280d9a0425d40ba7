import Strukt.Lib.Runs
import Strukt.Terminal.Transport

/-!
# The output of remote processes

`drain` collects chunks of a process up to limits of their number and of their bytes. A chunk that
does not fit is cut, and what is left of it is pending.

* **The log** (`recorded`): the processes note the chunks that are taken from them. The code does
  not see it.
* **Balance** (`Lossless`): what the calls returned and what is pending is what was taken. A call
  returns no more than its limit, and one that returns less leaves nothing pending.
* **The law** (`output_law`): a read that fails after the call has collected bytes loses them
  (`LosesBytes`). In every other run, every state is balanced.
-/

namespace Strukt.Remote

structure ManagedProcess (P : Platform) where
  process : P.Process
  pending : List (List UInt8)

structure RemoteProcessOutput where
  bytes : List UInt8
  backpressured : Bool
  deriving DecidableEq

/-- The errors of `drain`. -/
inductive RemoteProcessError where
  | notFound
  | invalidLimit
  | transport (error : TransportError)
  deriving DecidableEq

structure RemoteProcessManager (P : Platform) where
  processes : Nat → Option (ManagedProcess P)

variable {P : Platform}

namespace ManagedProcess

/-- The next chunk: a pending one, or what the process has. -/
def nextChunk (m : ManagedProcess P) :
    Except TransportError (Option (List UInt8)) × ManagedProcess P :=
  match m.pending with
  | chunk :: pending => (.ok (some chunk), { m with pending := pending })
  | [] =>
    let (read, process) := P.tryRead m.process
    (read.map (·.map (·.bytes)), { m with process := process })

def pushFront (m : ManagedProcess P) (chunk : List UInt8) : ManagedProcess P :=
  { m with pending := chunk :: m.pending }

/-- The loop of `drain`: the first argument counts the rounds that are left. -/
def drainLoop (maxBytes : Nat) : Nat → List UInt8 → ManagedProcess P →
    Except TransportError (List UInt8) × ManagedProcess P
  | 0, bytes, m => (.ok bytes, m)
  | rounds + 1, bytes, m =>
    match m.nextChunk with
    | (.error error, m) => (.error error, m)
    | (.ok none, m) => (.ok bytes, m)
    | (.ok (some chunk), m) =>
      let remaining := maxBytes - bytes.length
      if remaining = 0 then (.ok bytes, m.pushFront chunk)
      else if remaining < chunk.length then
        (.ok (bytes ++ chunk.take remaining), m.pushFront (chunk.drop remaining))
      else drainLoop maxBytes rounds (bytes ++ chunk) m

end ManagedProcess

namespace RemoteProcessManager

def insert (manager : RemoteProcessManager P) (id : Nat) (m : ManagedProcess P) :
    RemoteProcessManager P :=
  ⟨fun other => if other = id then some m else manager.processes other⟩

def drain (manager : RemoteProcessManager P) (id maxChunks maxBytes : Nat) :
    Except RemoteProcessError RemoteProcessOutput × RemoteProcessManager P :=
  if maxChunks = 0 ∨ maxBytes = 0 then (.error .invalidLimit, manager)
  else
    match manager.processes id with
    | none => (.error .notFound, manager)
    | some m =>
      match m.drainLoop maxBytes maxChunks [] with
      | (.error error, m) => (.error (.transport error), manager.insert id m)
      | (.ok bytes, m) =>
        let backpressured := P.outputBackpressured m.process || !m.pending.isEmpty
        (.ok ⟨bytes, backpressured⟩, manager.insert id m)

end RemoteProcessManager

/-! ## The log of the chunks -/

/-- The chunk that a read gives. -/
def chunkOf : Except TransportError (Option OutputChunk) → List (List UInt8)
  | .ok (some chunk) => [chunk.bytes]
  | _ => []

/-- The platform whose processes note the chunks that are taken from them. -/
def recorded (P : Platform) : Platform :=
  { P with
    Process := P.Process × List (List UInt8)
    write := fun p bytes => ((P.write p.1 bytes).1, ((P.write p.1 bytes).2, p.2))
    resize := fun p size => ((P.resize p.1 size).1, ((P.resize p.1 size).2, p.2))
    tryRead := fun p =>
      ((P.tryRead p.1).1, ((P.tryRead p.1).2, p.2 ++ chunkOf (P.tryRead p.1).1))
    outputBackpressured := fun p => P.outputBackpressured p.1
    tryWait := fun p => ((P.tryWait p.1).1, ((P.tryWait p.1).2, p.2))
    terminate := fun p grace => P.terminate p.1 grace }

/-- The bytes that were taken from the process. -/
def ManagedProcess.taken (m : ManagedProcess (recorded P)) : List UInt8 := m.process.2.flatten

@[simp] theorem ManagedProcess.pushFront_taken (m : ManagedProcess (recorded P))
    (chunk : List UInt8) : (m.pushFront chunk).taken = m.taken := rfl

@[simp] theorem ManagedProcess.pushFront_pending (m : ManagedProcess P) (chunk : List UInt8) :
    (m.pushFront chunk).pending = chunk :: m.pending := rfl

/-- Processes as they are spawned. -/
def spawned (processes : Nat → Option P.Process) : RemoteProcessManager (recorded P) :=
  ⟨fun id => (processes id).map fun process => ⟨(process, []), []⟩⟩

/-! ## One call -/

/-- The process has the chunks, one after the other. -/
inductive Takes : ManagedProcess P → List (List UInt8) → ManagedProcess P → Prop
  | nil {m : ManagedProcess P} : Takes m [] m
  | cons {m m₁ m' : ManagedProcess P} {chunk : List UInt8} {chunks : List (List UInt8)}
    (next : m.nextChunk = (.ok (some chunk), m₁)) (rest : Takes m₁ chunks m') :
    Takes m (chunk :: chunks) m'

/-- Each chunk comes while there is room for more bytes, and fits. -/
def Fits (maxBytes : Nat) : Nat → List (List UInt8) → Prop
  | _, [] => True
  | collected, chunk :: chunks =>
    collected < maxBytes ∧ collected + chunk.length ≤ maxBytes ∧
      Fits maxBytes (collected + chunk.length) chunks

section Loop

variable {m m' : ManagedProcess (recorded P)} {chunk bytes before : List UInt8}
  {chunks : List (List UInt8)} {error : TransportError} {maxBytes rounds : Nat}

theorem nextChunk_some (h : m.nextChunk = (.ok (some chunk), m'))
    (hb : before ++ m.pending.flatten = m.taken) :
    before ++ chunk ++ m'.pending.flatten = m'.taken ∧ m'.pending = m.pending.tail := by
  obtain ⟨process, pending⟩ := m
  cases pending with
  | cons first pending =>
    cases h
    rw [List.flatten_cons, ← List.append_assoc] at hb
    exact ⟨hb, rfl⟩
  | nil =>
    simp only [ManagedProcess.nextChunk, recorded] at h
    rcases hread : (P.tryRead process.1).1 with error | _ | read
    · rw [hread] at h
      cases h
    · rw [hread] at h
      cases h
    · rw [hread] at h
      cases h
      refine ⟨?_, rfl⟩
      rw [List.flatten_nil, List.append_nil, ManagedProcess.taken] at hb
      simp only [List.flatten_nil, List.append_nil, ManagedProcess.taken, chunkOf,
        List.flatten_append, List.flatten_cons, hb]

theorem nextChunk_other {read : Except TransportError (Option (List UInt8))}
    (h : m.nextChunk = (read, m')) (hread : ∀ chunk, read ≠ .ok (some chunk)) :
    m.pending = [] ∧ m'.pending = [] ∧ m'.taken = m.taken := by
  obtain ⟨process, pending⟩ := m
  cases pending with
  | cons first pending =>
    cases h
    exact absurd rfl (hread first)
  | nil =>
    simp only [ManagedProcess.nextChunk, recorded] at h
    cases h
    refine ⟨rfl, rfl, ?_⟩
    rcases hp : (P.tryRead process.1).1 with error | _ | chunk
    · simp only [ManagedProcess.taken, chunkOf, List.append_nil]
    · simp only [ManagedProcess.taken, chunkOf, List.append_nil]
    · exact absurd (by rw [hp]; rfl) (hread chunk.bytes)

theorem Takes.taken (h : Takes m chunks m') (hb : before ++ m.pending.flatten = m.taken) :
    before ++ chunks.flatten ++ m'.pending.flatten = m'.taken := by
  induction h generalizing before with
  | nil => rw [List.flatten_nil, List.append_nil, hb]
  | cons next _ ih =>
    rw [List.flatten_cons, ← List.append_assoc]
    exact ih (nextChunk_some next hb).1

/-- A call fails where a read does, after chunks that all fit. -/
theorem drainLoop_error_iff :
    m.drainLoop maxBytes rounds bytes = (.error error, m') ↔
      ∃ chunks m₁, Takes m chunks m₁ ∧ m₁.nextChunk = (.error error, m') ∧
        chunks.length < rounds ∧ Fits maxBytes bytes.length chunks := by
  induction rounds generalizing bytes m with
  | zero => simp [ManagedProcess.drainLoop]
  | succ rounds ih =>
    rw [ManagedProcess.drainLoop]
    constructor
    · intro h
      split at h
      · rename_i next
        cases h
        exact ⟨[], m, .nil, next, Nat.succ_pos _, trivial⟩
      · cases h
      · rename_i next
        dsimp only at h
        split at h
        · cases h
        split at h
        · cases h
        obtain ⟨chunks, m₁, htakes, hnext, hlen, hfits⟩ := ih.mp h
        rw [List.length_append] at hfits
        refine ⟨_ :: chunks, m₁, .cons next htakes, hnext, Nat.succ_lt_succ hlen, ?_, ?_, hfits⟩
        · omega
        · omega
    · rintro ⟨chunks, m₁, htakes, hnext, hlen, hfits⟩
      cases htakes with
      | nil => rw [hnext]
      | cons next rest =>
        obtain ⟨hroom, hfit, hfits⟩ := hfits
        rw [next]
        dsimp only
        rw [if_neg (by omega), if_neg (by omega)]
        rw [← List.length_append] at hfits
        exact ih.mpr ⟨_, m₁, rest, hnext, Nat.lt_of_succ_lt_succ hlen, hfits⟩

/-- What a call that does not fail leaves. -/
structure Drained (before out : List UInt8) (maxBytes : Nat) (m : ManagedProcess (recorded P)) :
    Prop where
  balance : before ++ out ++ m.pending.flatten = m.taken
  bounded : out.length ≤ maxBytes
  single : m.pending.length ≤ 1
  emptied : out.length < maxBytes → m.pending = []

theorem drainLoop_ok {out : List UInt8} (h : m.drainLoop maxBytes rounds bytes = (.ok out, m'))
    (hb : before ++ bytes ++ m.pending.flatten = m.taken) (hlen : bytes.length ≤ maxBytes)
    (hsingle : m.pending.length ≤ 1) (hrounds : m.pending.length ≤ rounds) :
    Drained before out maxBytes m' := by
  induction rounds generalizing bytes m with
  | zero =>
    cases h
    have hnil := List.eq_nil_of_length_eq_zero (Nat.le_zero.mp hrounds)
    exact ⟨hb, hlen, hsingle, fun _ => hnil⟩
  | succ rounds ih =>
    rw [ManagedProcess.drainLoop] at h
    split at h
    · cases h
    · rename_i next
      cases h
      obtain ⟨hnil, hnil', htaken⟩ := nextChunk_other next (by simp)
      refine ⟨?_, hlen, ?_, fun _ => hnil'⟩
      · rw [hnil', htaken, ← hb, hnil]
      · rw [hnil']
        exact Nat.zero_le _
    · rename_i chunk m₁ next
      dsimp only at h
      obtain ⟨hbalance, htail⟩ := nextChunk_some next hb
      have hnil : m₁.pending = [] := by
        rw [htail]
        exact List.eq_nil_of_length_eq_zero (by rw [List.length_tail]; omega)
      rw [hnil, List.flatten_nil, List.append_nil] at hbalance
      split at h
      · cases h
        refine ⟨?_, hlen, ?_, fun hlt => by omega⟩
        · simpa [hnil] using hbalance
        · rw [ManagedProcess.pushFront_pending, hnil]
          exact Nat.le_refl 1
      split at h
      · cases h
        refine ⟨?_, ?_, ?_, fun hlt => ?_⟩
        · simpa [hnil] using hbalance
        · rw [List.length_append, List.length_take]
          omega
        · rw [ManagedProcess.pushFront_pending, hnil]
          exact Nat.le_refl 1
        · rw [List.length_append, List.length_take] at hlt
          omega
      · refine ih h ?_ ?_ ?_ ?_
        · rw [hnil, List.flatten_nil, List.append_nil, ← List.append_assoc]
          exact hbalance
        · rw [List.length_append]
          omega
        · rw [hnil]
          exact Nat.zero_le _
        · rw [hnil]
          exact Nat.zero_le _

end Loop

/-! ## Sequences of calls -/

structure DrainRequest where
  id : Nat
  maxChunks : Nat
  maxBytes : Nat

/-- A call and what it gave. -/
structure DrainCall where
  request : DrainRequest
  result : Except RemoteProcessError RemoteProcessOutput

/-- The manager, with the calls that were made. -/
structure Watched (P : Platform) where
  manager : RemoteProcessManager (recorded P)
  calls : List DrainCall

/-- The bytes that a call returned of a process. -/
def DrainCall.bytes (id : Nat) (call : DrainCall) : List UInt8 :=
  match call.result with
  | .ok out => if call.request.id = id then out.bytes else []
  | .error _ => []

def Watched.returned (w : Watched P) (id : Nat) : List UInt8 := w.calls.flatMap (·.bytes id)

def Watched.step (w : Watched P) (r : DrainRequest) : Option (Watched P) :=
  let (result, manager) := w.manager.drain r.id r.maxChunks r.maxBytes
  some ⟨manager, w.calls ++ [⟨r, result⟩]⟩

/-- Nothing is lost, no call returned more than its limit, and the last one left nothing pending
where it returned less. -/
structure Lossless (w : Watched P) : Prop where
  balance : ∀ id m, w.manager.processes id = some m →
    w.returned id ++ m.pending.flatten = m.taken
  bounded : ∀ call ∈ w.calls, ∀ out, call.result = .ok out →
    out.bytes.length ≤ call.request.maxBytes
  emptied : ∀ call ∈ w.calls.getLast?, ∀ out, call.result = .ok out →
    out.bytes.length < call.request.maxBytes →
      ∀ m, w.manager.processes call.request.id = some m → m.pending = []

/-- A read fails after the call has collected bytes. -/
def LosesBytes (m : ManagedProcess P) (maxChunks maxBytes : Nat) : Prop :=
  ∃ chunks m₁ error, Takes m chunks m₁ ∧ m₁.nextChunk.1 = .error error ∧
    chunks.length < maxChunks ∧ Fits maxBytes 0 chunks ∧ chunks.flatten ≠ []

/-- The call collects no bytes before a read that fails. -/
def Keeps (w : Watched P) (r : DrainRequest) : Prop :=
  ∀ m, w.manager.processes r.id = some m → ¬LosesBytes m r.maxChunks r.maxBytes

/-- What every call leaves: no more than one chunk is pending. -/
structure Steady (w : Watched P) : Prop extends Lossless w where
  single : ∀ id m, w.manager.processes id = some m → m.pending.length ≤ 1

section Runs

variable {w w' : Watched P} {r : DrainRequest}

theorem insert_same (manager : RemoteProcessManager P) (id : Nat) (m : ManagedProcess P) :
    (manager.insert id m).processes id = some m := if_pos rfl

theorem insert_other (manager : RemoteProcessManager P) {id other : Nat} (m : ManagedProcess P)
    (h : other ≠ id) : (manager.insert id m).processes other = manager.processes other := if_neg h

/-- What a call does: it is refused, or a read fails, or it returns bytes. -/
theorem drain_cases (manager : RemoteProcessManager P) (id maxChunks maxBytes : Nat) :
    (∃ error, manager.drain id maxChunks maxBytes = (.error error, manager)) ∨
      ∃ m, manager.processes id = some m ∧ 0 < maxChunks ∧
        ((∃ error m', m.drainLoop maxBytes maxChunks [] = (.error error, m') ∧
            manager.drain id maxChunks maxBytes =
              (.error (.transport error), manager.insert id m')) ∨
          ∃ out backpressured m', m.drainLoop maxBytes maxChunks [] = (.ok out, m') ∧
            manager.drain id maxChunks maxBytes =
              (.ok ⟨out, backpressured⟩, manager.insert id m')) := by
  rw [RemoteProcessManager.drain]
  by_cases hzero : maxChunks = 0 ∨ maxBytes = 0
  · rw [if_pos hzero]
    exact .inl ⟨_, rfl⟩
  rw [if_neg hzero]
  cases hm : manager.processes id with
  | none => exact .inl ⟨_, rfl⟩
  | some m =>
    refine .inr ⟨m, rfl, by omega, ?_⟩
    rcases hloop : m.drainLoop maxBytes maxChunks [] with ⟨error | out, m'⟩
    · exact .inl ⟨error, m', rfl, by dsimp only; rw [hloop]⟩
    · exact .inr ⟨out, _, m', rfl, by dsimp only; rw [hloop]⟩

theorem returned_step (w : Watched P) (manager : RemoteProcessManager (recorded P))
    (call : DrainCall) (id : Nat) :
    Watched.returned ⟨manager, w.calls ++ [call]⟩ id = w.returned id ++ call.bytes id := by
  rw [Watched.returned, List.flatMap_append, List.flatMap_singleton]
  rfl

/-- A call that gives an error and leaves the balance. -/
theorem Steady.failed (h : Steady w) {manager : RemoteProcessManager (recorded P)}
    {error : RemoteProcessError}
    (hbalance : ∀ id m, manager.processes id = some m →
      w.returned id ++ m.pending.flatten = m.taken)
    (hsingle : ∀ id m, manager.processes id = some m → m.pending.length ≤ 1) :
    Steady ⟨manager, w.calls ++ [⟨r, .error error⟩]⟩ := by
  refine ⟨⟨fun id m hm => ?_, fun call hcall out hout => ?_, fun call hcall out hout => ?_⟩,
    hsingle⟩
  · rw [returned_step, DrainCall.bytes, List.append_nil]
    exact hbalance id m hm
  · rcases List.mem_append.mp hcall with hcall | hcall
    · exact h.bounded call hcall out hout
    · rw [List.mem_singleton.mp hcall] at hout
      cases hout
  · rw [List.getLast?_concat] at hcall
    cases hcall
    cases hout

/-- A call that returns bytes. -/
theorem Steady.drained (h : Steady w) {m : ManagedProcess (recorded P)} {out : List UInt8}
    {backpressured : Bool} (hm : Drained (w.returned r.id) out r.maxBytes m) :
    Steady ⟨w.manager.insert r.id m, w.calls ++ [⟨r, .ok ⟨out, backpressured⟩⟩]⟩ := by
  refine ⟨⟨fun id m' hm' => ?_, fun call hcall out' hout => ?_, fun call hcall out' hout hlt => ?_⟩,
    fun id m' hm' => ?_⟩
  · rw [returned_step, DrainCall.bytes]
    dsimp only
    by_cases hid : id = r.id
    · subst hid
      rw [insert_same] at hm'
      cases hm'
      rw [if_pos rfl]
      exact hm.balance
    · rw [insert_other _ _ hid] at hm'
      rw [if_neg (Ne.symm hid), List.append_nil]
      exact h.balance id m' hm'
  · rcases List.mem_append.mp hcall with hcall | hcall
    · exact h.bounded call hcall out' hout
    · rw [List.mem_singleton.mp hcall] at hout ⊢
      cases hout
      exact hm.bounded
  · rw [List.getLast?_concat] at hcall
    cases hcall
    cases hout
    intro m' hm'
    rw [insert_same] at hm'
    cases hm'
    exact hm.emptied hlt
  · by_cases hid : id = r.id
    · subst hid
      rw [insert_same] at hm'
      cases hm'
      exact hm.single
    · rw [insert_other _ _ hid] at hm'
      exact h.single id m' hm'

/-- A read that fails after the chunks: the process is read up to there, and nothing is pending. -/
theorem failed_taken {m m₁ m' : ManagedProcess (recorded P)} {chunks : List (List UInt8)}
    {before : List UInt8} {error : TransportError} (hb : before ++ m.pending.flatten = m.taken)
    (htakes : Takes m chunks m₁) (hnext : m₁.nextChunk = (.error error, m')) :
    m'.pending = [] ∧ before ++ chunks.flatten = m'.taken := by
  obtain ⟨hnil, hnil', htaken⟩ := nextChunk_other hnext (by simp)
  have hbalance := htakes.taken hb
  rw [hnil, List.flatten_nil, List.append_nil] at hbalance
  exact ⟨hnil', hbalance.trans htaken.symm⟩

theorem Steady.step (h : Steady w) (hk : Keeps w r) :
    ∃ w', w.step r = some w' ∧ Steady w' := by
  refine ⟨⟨(w.manager.drain r.id r.maxChunks r.maxBytes).2,
    w.calls ++ [⟨r, (w.manager.drain r.id r.maxChunks r.maxBytes).1⟩]⟩, rfl, ?_⟩
  rcases drain_cases w.manager r.id r.maxChunks r.maxBytes with
    ⟨error, hdrain⟩ | ⟨m, hm, hpos, ⟨error, m', hloop, hdrain⟩ | ⟨out, b, m', hloop, hdrain⟩⟩
  · rw [hdrain]
    exact h.failed h.balance h.single
  · rw [hdrain]
    obtain ⟨chunks, m₁, htakes, hnext, hlen, hfits⟩ := drainLoop_error_iff.mp hloop
    have hempty : chunks.flatten = [] := by
      by_contra hne
      exact hk m hm ⟨chunks, m₁, error, htakes, by rw [hnext], hlen, hfits, hne⟩
    obtain ⟨hnil, htaken⟩ := failed_taken (h.balance _ m hm) htakes hnext
    refine h.failed (fun id other hother => ?_) fun id other hother => ?_
    · by_cases hid : id = r.id
      · subst hid
        rw [insert_same] at hother
        cases hother
        rw [← htaken, hnil, hempty, List.flatten_nil]
      · rw [insert_other _ _ hid] at hother
        exact h.balance id other hother
    · by_cases hid : id = r.id
      · subst hid
        rw [insert_same] at hother
        cases hother
        rw [hnil]
        exact Nat.zero_le _
      · rw [insert_other _ _ hid] at hother
        exact h.single id other hother
  · rw [hdrain]
    have hsingle := h.single _ m hm
    refine h.drained (drainLoop_ok hloop ?_ (Nat.zero_le _) hsingle (by omega))
    rw [List.append_nil]
    exact h.balance _ m hm

/-- What a call loses is missing from then on. -/
theorem keeps_of_lossless (h : Steady w) (hs : w.step r = some w') (hl : Lossless w') :
    Keeps w r := by
  rintro m hm ⟨chunks, m₁, error, htakes, herror, hlen, hfits, hne⟩
  have hnext : m₁.nextChunk = (.error error, m₁.nextChunk.2) := Prod.ext herror rfl
  have hloop : m.drainLoop r.maxBytes r.maxChunks [] = (.error error, m₁.nextChunk.2) :=
    drainLoop_error_iff.mpr ⟨chunks, m₁, htakes, hnext, hlen, hfits⟩
  obtain ⟨hnil, htaken⟩ := failed_taken (h.balance _ m hm) htakes hnext
  have hpos : ¬(r.maxChunks = 0 ∨ r.maxBytes = 0) := by
    cases chunks with
    | nil => exact absurd rfl hne
    | cons chunk chunks =>
      have := hfits.1
      omega
  have hdrain : w.manager.drain r.id r.maxChunks r.maxBytes =
      (.error (.transport error), w.manager.insert r.id m₁.nextChunk.2) := by
    rw [RemoteProcessManager.drain, if_neg hpos, hm]
    dsimp only
    rw [hloop]
  rw [Watched.step, hdrain] at hs
  cases hs
  have hbalance := hl.balance r.id _ (insert_same _ _ _)
  rw [returned_step, DrainCall.bytes, List.append_nil, hnil, ← htaken, List.flatten_nil,
    List.append_nil] at hbalance
  exact hne (List.self_eq_append_right.mp hbalance)

theorem spawned_steady (processes : Nat → Option P.Process) :
    Steady ⟨spawned processes, []⟩ := by
  refine ⟨⟨fun id m hm => ?_, List.forall_mem_nil _, fun call hcall => by cases hcall⟩,
    fun id m hm => ?_⟩
  · obtain ⟨process, -, rfl⟩ := Option.map_eq_some_iff.mp hm
    rfl
  · obtain ⟨process, -, rfl⟩ := Option.map_eq_some_iff.mp hm
    exact Nat.zero_le _

/-- The balance holds in every state of a run exactly where no call has collected bytes when a read
fails. -/
theorem output_law (processes : Nat → Option P.Process) (requests : List DrainRequest) :
    RunsIn Watched.step Lossless requests ⟨spawned processes, []⟩ ↔
      Along Watched.step Keeps requests ⟨spawned processes, []⟩ := by
  have hkeep : ∀ (w : Watched P) r, Steady w → Keeps w r → ∃ w', w.step r = some w' ∧ Steady w' :=
    fun w r h hk => h.step hk
  have hneed : ∀ (w : Watched P) r w', Steady w → w.step r = some w' → Lossless w' → Keeps w r :=
    fun w r w' h hs hl => keeps_of_lossless h hs hl
  exact runsIn_iff_of_imp (fun w (h : Steady w) => h.toLossless) hkeep hneed
    (spawned_steady processes)

/-- Playback by processes whose read fails at the end. -/
def failing : Platform :=
  { Platform.playback with
    tryRead := fun p =>
      (if p.isEmpty then .error (.io "Input/output error") else .ok p.head?, p.tail) }

/-- A process gives a byte, and the next read of the same call fails. -/
theorem drain_loses_byte :
    ¬RunsIn Watched.step Lossless [⟨0, 2, 8⟩]
      ⟨spawned (P := failing) fun _ => some [⟨0, [1]⟩], []⟩ := by
  rintro ⟨-, w', hs, hl⟩
  cases hs
  have hbalance := hl.balance 0 _ rfl
  cases hbalance

end Runs

end Strukt.Remote
