import Strukt.Lib.Framing
import Strukt.Prim

/-!
# Frames of the session protocol

A frame is a payload behind its length, in four bytes. `FrameDecoder` takes the bytes as they come
and gives the payloads that are complete.

* **The stream** (`reads`, `error_unfinished`): how much of a payload is not complete after the
  first `pos` bytes of a stream is a function of the payloads and of `pos` (`pending`).
* **The guard** (`Admitted`): a chunk is refused by its size, whatever it holds.
* **The law** (`chunks_law`): a stream is decoded, exactly if its chunks are admitted.
-/

namespace Strukt

def headerBytes : Nat := 4

inductive FrameError where
  | frameTooLarge
  | malformedPayload
  deriving DecidableEq

def FrameError.toString : FrameError → String
  | frameTooLarge => "session protocol frame exceeds its configured bound"
  | malformedPayload => "session protocol payload is malformed"

/-- `u32::to_be_bytes`. -/
def u32ToBe (n : Nat) : List UInt8 :=
  [.ofNat (n / 2 ^ 24), .ofNat (n / 2 ^ 16), .ofNat (n / 2 ^ 8), .ofNat n]

/-- `u32::from_be_bytes`. -/
def u32FromBe (bytes : List UInt8) : Nat := bytes.foldl (fun n b => n * 256 + b.toNat) 0

@[simp] theorem length_u32ToBe (n : Nat) : (u32ToBe n).length = headerBytes := rfl

theorem u32FromBe_u32ToBe {n : Nat} (h : n < 2 ^ 32) : u32FromBe (u32ToBe n) = n := by
  simp only [u32FromBe, u32ToBe, List.foldl_cons, List.foldl_nil, UInt8.toNat_ofNat']
  omega

/-- A payload behind its length. -/
def frame (payload : List UInt8) : List UInt8 := u32ToBe payload.length ++ payload

/-- `encode_cbor`, of a value that was written as `payload`. -/
def encodeCbor (payload : List UInt8) (maxPayloadBytes : Nat) : Except FrameError (List UInt8) :=
  if payload.length > maxPayloadBytes ∨ payload.length > 2 ^ 32 - 1 then .error .frameTooLarge
  else .ok (frame payload)

@[simp] theorem length_frame (payload : List UInt8) :
    (frame payload).length = headerBytes + payload.length := by
  rw [frame, List.length_append, length_u32ToBe]

/-! ## The decoder -/

structure FrameDecoder where
  retained : List UInt8
  maxPayloadBytes : Nat

namespace FrameDecoder

def new (maxPayloadBytes : Nat) : FrameDecoder := ⟨[], maxPayloadBytes⟩

/-- The body of the loop in `push`. -/
def next (maxPayloadBytes : Nat) (retained : List UInt8) : Scanned (List UInt8) FrameError :=
  if retained.length < headerBytes then .more
  else
    let length := u32FromBe (retained.take headerBytes)
    if length > maxPayloadBytes then .failed .frameTooLarge
    else
      let completeLength := headerBytes + length
      if retained.length < completeLength then .more
      else .frame ((retained.take completeLength).drop headerBytes) completeLength

theorem next_eq_frame {maxPayloadBytes n : Nat} {s b : List UInt8}
    (h : next maxPayloadBytes s = .frame b n) :
    headerBytes ≤ s.length ∧ u32FromBe (s.take headerBytes) ≤ maxPayloadBytes ∧
      n = headerBytes + u32FromBe (s.take headerBytes) ∧ n ≤ s.length ∧
      b = (s.take n).drop headerBytes := by
  simp only [next] at h
  split at h
  · cases h
  · split at h
    · cases h
    · split at h
      · cases h
      · cases h
        exact ⟨by omega, by omega, rfl, by omega, rfl⟩

def framing (maxPayloadBytes : Nat) : Framing UInt8 (List UInt8) FrameError where
  next := next maxPayloadBytes
  bounded s b n h := by
    obtain ⟨-, -, hn, hle, -⟩ := next_eq_frame h
    exact ⟨by rw [hn]; exact Nat.lt_of_lt_of_le (by decide) (Nat.le_add_right _ _), hle⟩
  stable s t b n h := by
    obtain ⟨hheader, hmax, rfl, hle, rfl⟩ := next_eq_frame h
    have htake : (s ++ t).take headerBytes = s.take headerBytes :=
      List.take_append_of_le_length hheader
    simp only [next, htake, List.length_append]
    rw [if_neg (by omega), if_neg (by omega), if_neg (by omega),
      List.take_append_of_le_length hle]

/-- The chunk is too large, by itself or with a part of a header. -/
def oversized (maxPayloadBytes retained bytes : Nat) : Bool :=
  let maximumRetained := maxPayloadBytes + headerBytes
  bytes > maximumRetained || (retained + bytes > maximumRetained && retained < headerBytes)

/-- The sum is beyond `usize` where the first test fails. The loop is that of `drain`. -/
def push (d : FrameDecoder) (bytes : List UInt8) :
    Except FrameError (List (List UInt8)) × FrameDecoder :=
  if d.maxPayloadBytes + headerBytes > u64Max then (.error .frameTooLarge, d)
  else if oversized d.maxPayloadBytes d.retained.length bytes.length then
    (.error .frameTooLarge, { d with retained := [] })
  else
    let (frames, retained) := (framing d.maxPayloadBytes).drain (d.retained ++ bytes)
    match (next d.maxPayloadBytes retained).error? with
    | some error => (.error error, { d with retained := [] })
    | none => (.ok frames, { d with retained := retained })

def retainedBytes (d : FrameDecoder) : Nat := d.retained.length

/-- What `push` refuses before it looks at the bytes. -/
def guard (maxPayloadBytes : Nat) (retained bytes : List UInt8) : Option FrameError :=
  if maxPayloadBytes + headerBytes > u64Max ∨
      oversized maxPayloadBytes retained.length bytes.length = true then some .frameTooLarge
  else none

/-- Up to the first error, pushing is the framing's. -/
theorem run_push (d : FrameDecoder) (cs : List (List UInt8)) : Framing.run push d cs =
    Framing.run ((framing d.maxPayloadBytes).push (guard d.maxPayloadBytes)) d.retained cs := by
  induction cs generalizing d with
  | nil => rfl
  | cons c cs ih =>
    simp only [Framing.run, push, Framing.push, guard]
    by_cases hsum : d.maxPayloadBytes + headerBytes > u64Max
    · rw [if_pos hsum, if_pos (.inl hsum)]
    · rw [if_neg hsum]
      by_cases hover : oversized d.maxPayloadBytes d.retained.length c.length = true
      · rw [if_pos hover, if_pos (.inr hover)]
      · rw [if_neg hover, if_neg fun h => h.elim hsum hover]
        dsimp only
        have hnext : (framing d.maxPayloadBytes).next = next d.maxPayloadBytes := rfl
        rw [hnext]
        cases (next d.maxPayloadBytes
            ((framing d.maxPayloadBytes).drain (d.retained ++ c)).2).error? with
        | some e => rfl
        | none =>
          dsimp only
          rw [ih]

/-! ## Streams -/

/-- The encoded payloads. -/
def stream (payloads : List (List UInt8)) : List UInt8 := payloads.flatMap frame

/-- The payload can be encoded within the maximum. -/
def Encodable (maxPayloadBytes : Nat) (payload : List UInt8) : Prop :=
  encodeCbor payload maxPayloadBytes = .ok (frame payload)

instance (maxPayloadBytes : Nat) (payload : List UInt8) :
    Decidable (Encodable maxPayloadBytes payload) := inferInstanceAs (Decidable (_ = _))

theorem encodable_iff {maxPayloadBytes : Nat} {payload : List UInt8} :
    Encodable maxPayloadBytes payload ↔
      payload.length ≤ maxPayloadBytes ∧ payload.length < 2 ^ 32 := by
  unfold Encodable encodeCbor
  split
  · exact iff_of_false (fun h => by cases h) (by omega)
  · exact iff_of_true rfl (by omega)

/-- How many of the first `pos` bytes of a stream are of a payload that is not complete. -/
def pending : List (List UInt8) → Nat → Nat
  | [], pos => pos
  | p :: ps, pos =>
    if pos < headerBytes + p.length then pos else pending ps (pos - (headerBytes + p.length))

section Streams

variable {maxPayloadBytes pos : Nat} {payload : List UInt8} {payloads : List (List UInt8)}

/-- Before its end a frame is one that needs more. -/
theorem next_take_frame (h : Encodable maxPayloadBytes payload)
    (hpos : pos < headerBytes + payload.length) :
    next maxPayloadBytes ((frame payload).take pos) = .more := by
  obtain ⟨hmax, hword⟩ := encodable_iff.mp h
  have hlength : ((frame payload).take pos).length = pos := by
    rw [List.length_take, length_frame]
    omega
  unfold next
  rw [hlength]
  by_cases hheader : pos < headerBytes
  · rw [if_pos hheader]
  · have htake : ((frame payload).take pos).take headerBytes = u32ToBe payload.length := by
      rw [List.take_take, Nat.min_eq_left (by omega), frame,
        List.take_append_of_le_length (by rw [length_u32ToBe]), ← length_u32ToBe payload.length,
        List.take_length]
    rw [if_neg hheader]
    simp only [htake, u32FromBe_u32ToBe hword]
    rw [if_neg (by omega), if_pos hpos]

theorem next_frame (h : Encodable maxPayloadBytes payload) (t : List UInt8) :
    next maxPayloadBytes (frame payload ++ t) = .frame payload (headerBytes + payload.length) := by
  obtain ⟨hmax, hword⟩ := encodable_iff.mp h
  have htake : (frame payload ++ t).take headerBytes = u32ToBe payload.length := by
    rw [frame, List.append_assoc, List.take_append_of_le_length (by rw [length_u32ToBe]),
      ← length_u32ToBe payload.length, List.take_length]
  have hbody : ((frame payload ++ t).take (headerBytes + payload.length)).drop headerBytes =
      payload := by
    rw [List.take_append_of_le_length (by rw [length_frame]), ← length_frame, List.take_length,
      frame, ← length_u32ToBe payload.length, List.drop_left]
  simp only [next, htake, u32FromBe_u32ToBe hword, hbody, List.length_append, length_frame]
  rw [if_neg (by omega), if_neg (by omega), if_neg (by omega)]

theorem reads (h : Encodable maxPayloadBytes payload) :
    (framing maxPayloadBytes).Reads frame payload where
  whole t := by
    rw [length_frame]
    exact next_frame h t
  short k hk := by
    rw [length_frame] at hk
    show ¬(next maxPayloadBytes ((frame payload).take k)).IsFrame
    rw [next_take_frame h hk]
    exact fun h => h

theorem length_unfinished {tail : List UInt8}
    (hpos : pos ≤ (stream payloads).length + tail.length) :
    (Framing.unfinished frame tail payloads pos).length = pending payloads pos := by
  induction payloads generalizing pos with
  | nil =>
    rw [Framing.unfinished, List.length_take, pending]
    exact Nat.min_eq_left (by simpa [stream] using hpos)
  | cons p ps ih =>
    have hlength : (stream (p :: ps)).length = headerBytes + p.length + (stream ps).length := by
      rw [stream, List.flatMap_cons, List.length_append, length_frame, stream]
    rw [Framing.unfinished, pending, length_frame]
    by_cases hshort : pos < headerBytes + p.length
    · rw [if_pos hshort, if_pos hshort, List.length_take, length_frame]
      omega
    · rw [if_neg hshort, if_neg hshort]
      exact ih (by omega)

/-- The first `n` bytes behind the payloads are not an error. -/
def Quiet (maxPayloadBytes : Nat) (tail : List UInt8) (n : Nat) : Prop :=
  (next maxPayloadBytes (tail.take n)).error? = none

/-- From position `pos` of the stream on, each chunk is small enough to be taken: with what is
retained, where that is not yet a header. -/
def Admitted (maxPayloadBytes : Nat) (payloads : List (List UInt8)) :
    Nat → List (List UInt8) → Prop
  | _, [] => True
  | pos, c :: cs =>
    maxPayloadBytes + headerBytes ≤ u64Max ∧ c.length ≤ maxPayloadBytes + headerBytes ∧
      (pending payloads pos + c.length ≤ maxPayloadBytes + headerBytes ∨
        headerBytes ≤ pending payloads pos) ∧
      Admitted maxPayloadBytes payloads (pos + c.length) cs

instance Admitted.decidable (maxPayloadBytes : Nat) (payloads : List (List UInt8)) :
    ∀ pos cs, Decidable (Admitted maxPayloadBytes payloads pos cs)
  | _, [] => isTrue trivial
  | pos, c :: cs =>
    have := Admitted.decidable maxPayloadBytes payloads (pos + c.length) cs
    inferInstanceAs (Decidable (_ ∧ _ ∧ _ ∧ Admitted maxPayloadBytes payloads (pos + c.length) cs))

theorem guard_eq_none {retained c : List UInt8} : guard maxPayloadBytes retained c = none ↔
    maxPayloadBytes + headerBytes ≤ u64Max ∧ c.length ≤ maxPayloadBytes + headerBytes ∧
      (retained.length + c.length ≤ maxPayloadBytes + headerBytes ∨
        headerBytes ≤ retained.length) := by
  simp only [guard, oversized, ite_eq_right_iff, reduceCtorEq, imp_false, not_or, Bool.or_eq_true,
    Bool.and_eq_true, decide_eq_true_eq]
  omega

/-- What is left is an error, if the payloads are complete and what is behind them is one. -/
theorem error_unfinished (h : ∀ p ∈ payloads, Encodable maxPayloadBytes p) {tail : List UInt8} :
    (next maxPayloadBytes (Framing.unfinished frame tail payloads pos)).error? = none ↔
      Quiet maxPayloadBytes tail (pos - (stream payloads).length) := by
  induction payloads generalizing pos with
  | nil => exact Iff.rfl
  | cons p ps ih =>
    have hlength : (stream (p :: ps)).length = headerBytes + p.length + (stream ps).length := by
      rw [stream, List.flatMap_cons, List.length_append, length_frame, stream]
    rw [Framing.unfinished, length_frame, hlength]
    by_cases hshort : pos < headerBytes + p.length
    · rw [if_pos hshort, next_take_frame (h p List.mem_cons_self) hshort,
        show pos - (headerBytes + p.length + (stream ps).length) = 0 by omega]
      exact iff_of_true rfl rfl
    · rw [if_neg hshort, ih fun q hq => h q (List.mem_cons_of_mem _ hq),
        Nat.sub_sub pos (headerBytes + p.length)]

/-- Pushes are clean, exactly if their chunks are admitted and they do not reach an error. -/
theorem clean_iff (h : ∀ p ∈ payloads, Encodable maxPayloadBytes p) {tail : List UInt8}
    (htail : ∀ n, ¬(next maxPayloadBytes (tail.take n)).IsFrame)
    (hmono : ∀ n m, m ≤ n → Quiet maxPayloadBytes tail n → Quiet maxPayloadBytes tail m)
    {cs : List (List UInt8)} (hpos : pos + cs.flatten.length ≤ (stream payloads ++ tail).length) :
    (framing maxPayloadBytes).CleanAt (guard maxPayloadBytes) (stream payloads ++ tail) pos cs ↔
      Admitted maxPayloadBytes payloads pos cs ∧
        (cs ≠ [] →
          Quiet maxPayloadBytes tail (pos + cs.flatten.length - (stream payloads).length)) := by
  have hdrain (n : Nat) : ((framing maxPayloadBytes).drain ((stream payloads ++ tail).take n)).2 =
      Framing.unfinished frame tail payloads n :=
    congrArg Prod.snd (Framing.drain_take (fun p hp => reads (h p hp)) htail)
  induction cs generalizing pos with
  | nil => exact iff_of_true trivial ⟨trivial, fun h => absurd rfl h⟩
  | cons c cs ih =>
    rw [List.flatten_cons, List.length_append, List.length_append] at hpos
    have hquiet : ((framing maxPayloadBytes).next
        (Framing.unfinished frame tail payloads (pos + c.length))).error? = none ↔
          Quiet maxPayloadBytes tail (pos + c.length - (stream payloads).length) :=
      error_unfinished h
    have hrest := @ih (pos + c.length) (by rw [List.length_append]; omega)
    rw [Framing.CleanAt, Admitted, hdrain, hdrain, guard_eq_none,
      length_unfinished (by omega), hquiet, propext hrest, List.flatten_cons, List.length_append]
    constructor
    · rintro ⟨⟨hmax, hsize, hroom⟩, hq, hrest, hlast⟩
      refine ⟨⟨hmax, hsize, hroom, hrest⟩, fun _ => ?_⟩
      cases cs with
      | nil => exact hq
      | cons c' cs' =>
        rw [← Nat.add_assoc]
        exact hlast (List.cons_ne_nil _ _)
    · rintro ⟨⟨hmax, hsize, hroom, hrest⟩, hlast⟩
      have hq := hlast (List.cons_ne_nil _ _)
      refine ⟨⟨hmax, hsize, hroom⟩, hmono _ _ (by omega) hq, hrest, fun _ => ?_⟩
      rw [Nat.add_assoc]
      exact hq

/-- A stream that is decoded whole. -/
theorem run_stream (h : ∀ p ∈ payloads, Encodable maxPayloadBytes p) {cs : List (List UInt8)}
    (hcs : cs.flatten = stream payloads) :
    Framing.run push (new maxPayloadBytes) cs = (payloads, none) ↔
      Admitted maxPayloadBytes payloads 0 cs := by
  have hnone (n : Nat) : next maxPayloadBytes (([] : List UInt8).take n) = .more := by
    rw [List.take_nil]
    rfl
  have htail (n : Nat) : ¬(next maxPayloadBytes (([] : List UInt8).take n)).IsFrame := by
    rw [hnone]
    exact fun h => h
  have hquiet (n : Nat) : Quiet maxPayloadBytes [] n := by
    unfold Quiet
    rw [hnone]
    rfl
  have hclean := @clean_iff maxPayloadBytes 0 payloads h [] htail (fun _ m _ _ => hquiet m) cs
    (by rw [List.append_nil, Nat.zero_add, hcs])
  rw [← Framing.clean_at (by rw [List.append_nil, List.drop_zero, hcs]), List.take_zero,
    Framing.drain_nil] at hclean
  rw [run_push, show (new maxPayloadBytes).retained = [] from rfl,
    show (new maxPayloadBytes).maxPayloadBytes = maxPayloadBytes from rfl]
  have hstop := (framing maxPayloadBytes).next_nil
  constructor
  · intro hrun
    have herror : (framing maxPayloadBytes).Clean (guard maxPayloadBytes) [] cs :=
      (Framing.run_error_none hstop).mp (by rw [hrun])
    exact (hclean.mp herror).1
  · intro hadmitted
    rw [Framing.run_clean (hclean.mpr ⟨hadmitted, fun _ => hquiet _⟩) hstop, List.nil_append, hcs]
    have hdrain := @Framing.drain_take _ _ _ (framing maxPayloadBytes) frame payloads []
      (stream payloads).length (fun p hp => reads (h p hp)) htail
    rw [List.append_nil, ← stream, List.take_length] at hdrain
    have hall : Framing.completed frame payloads (stream payloads).length = payloads :=
      Framing.completed_eq.mpr le_rfl
    rw [hdrain, hall]

/-- A declared length beyond the maximum is an error as soon as the header is there. -/
theorem next_oversized {n : Nat} (hmax : maxPayloadBytes < n) (hword : n < 2 ^ 32)
    (body : List UInt8) (k : Nat) :
    next maxPayloadBytes ((u32ToBe n ++ body).take k) =
      if k < headerBytes then .more else .failed .frameTooLarge := by
  unfold next
  rw [List.length_take, List.length_append, length_u32ToBe]
  by_cases hk : k < headerBytes
  · rw [if_pos hk, if_pos (by omega)]
  · have htake : ((u32ToBe n ++ body).take k).take headerBytes = u32ToBe n := by
      rw [List.take_take, Nat.min_eq_left (by omega),
        List.take_append_of_le_length (by rw [length_u32ToBe]), ← length_u32ToBe n,
        List.take_length]
    rw [if_neg hk, if_neg (by omega)]
    simp only [htake, u32FromBe_u32ToBe hword]
    rw [if_pos hmax]

/-- The payloads before a frame that is too large: they are delivered, exactly if they come in
pushes of their own. -/
theorem run_oversized (h : ∀ p ∈ payloads, Encodable maxPayloadBytes p) {n : Nat}
    (hmax : maxPayloadBytes < n) (hword : n < 2 ^ 32) {body : List UInt8} {cs : List (List UInt8)}
    (hcs : cs.flatten = stream payloads ++ (u32ToBe n ++ body)) :
    (Framing.run push (new maxPayloadBytes) cs).1 = payloads ↔ payloads = [] ∨
      ∃ before after, cs = before ++ after ∧
        (stream payloads).length ≤ before.flatten.length ∧
        before.flatten.length < (stream payloads).length + headerBytes ∧
        Admitted maxPayloadBytes payloads 0 before := by
  have htail (k : Nat) : ¬(next maxPayloadBytes ((u32ToBe n ++ body).take k)).IsFrame := by
    rw [next_oversized hmax hword]
    split
    · exact fun h => h
    · exact fun h => h
  have hquiet (k : Nat) : Quiet maxPayloadBytes (u32ToBe n ++ body) k ↔ k < headerBytes := by
    unfold Quiet
    rw [next_oversized hmax hword]
    split
    · next hk => exact iff_of_true rfl hk
    · next hk => exact iff_of_false (fun h => by cases h) hk
  have hstop := (framing maxPayloadBytes).next_nil
  have hdrain (k : Nat) : ((framing maxPayloadBytes).drain (cs.flatten.take k)).1 =
      Framing.completed frame payloads k := by
    rw [hcs, stream, Framing.drain_take (fun p hp => reads (h p hp)) htail]
  have hbefore (before after : List (List UInt8)) (he : cs = before ++ after) :
      before.flatten = cs.flatten.take before.flatten.length ∧
        before.flatten.length ≤ cs.flatten.length := by
    rw [he, List.flatten_append, List.take_left, List.length_append]
    exact ⟨rfl, Nat.le_add_right _ _⟩
  have hclean (before after : List (List UInt8)) (he : cs = before ++ after) :
      (framing maxPayloadBytes).Clean (guard maxPayloadBytes) [] before ↔
        Admitted maxPayloadBytes payloads 0 before ∧ (before ≠ [] →
          before.flatten.length < (stream payloads).length + headerBytes) := by
    have hiff := @clean_iff maxPayloadBytes 0 payloads h (u32ToBe n ++ body) htail
      (fun k m hm hk => (hquiet m).mpr (lt_of_le_of_lt hm ((hquiet k).mp hk))) before
      (by rw [Nat.zero_add, ← hcs]; exact (hbefore before after he).2)
    rw [← Framing.clean_at (by
        rw [List.drop_zero, ← hcs, (hbefore before after he).1]
        exact List.take_prefix _ _), List.take_zero, Framing.drain_nil, Nat.zero_add] at hiff
    rw [hiff, hquiet, show (before.flatten.length - (stream payloads).length < headerBytes) =
      (before.flatten.length < (stream payloads).length + headerBytes) by
        simp only [headerBytes]; exact propext (by omega)]
  rw [run_push, show (new maxPayloadBytes).retained = [] from rfl,
    show (new maxPayloadBytes).maxPayloadBytes = maxPayloadBytes from rfl]
  constructor
  · intro hrun
    obtain ⟨before, after, he, hb, hdelivered⟩ :=
      @Framing.run_split _ _ _ (framing maxPayloadBytes) (guard maxPayloadBytes) [] cs hstop
    obtain ⟨htake, hle⟩ := hbefore before after he
    rw [hrun, List.nil_append, htake, hdrain] at hdelivered
    have hreached := Framing.completed_eq.mp hdelivered.symm
    obtain ⟨hadmitted, hlast⟩ := (hclean before after he).mp hb
    by_cases hempty : before = []
    · refine .inl ?_
      rw [hdelivered, hempty]
      cases payloads with
      | nil => rfl
      | cons p ps =>
        rw [Framing.completed, if_pos (by simp [headerBytes])]
    · exact .inr ⟨before, after, he, hreached, hlast hempty, hadmitted⟩
  · have hstart :=
      @Framing.run_prefix _ _ _ (framing maxPayloadBytes) (guard maxPayloadBytes) [] cs hstop
    rw [List.nil_append, ← List.take_length (l := cs.flatten), hdrain] at hstart
    rintro (rfl | ⟨before, after, he, hreached, hlast, hadmitted⟩)
    · exact List.prefix_nil.mp hstart
    · have hfront := @Framing.run_append_prefix _ _ _ (framing maxPayloadBytes)
        (guard maxPayloadBytes) [] before after
        ((hclean before after he).mpr ⟨hadmitted, fun _ => hlast⟩) hstop
      obtain ⟨htake, hle⟩ := hbefore before after he
      rw [← he, List.nil_append, htake, hdrain, Framing.completed_eq.mpr hreached] at hfront
      have hall : (stream payloads).length ≤ cs.flatten.length := hreached.trans hle
      rw [Framing.completed_eq.mpr hall] at hstart
      exact hstart.eq_of_length_le hfront.length_le

/-- A stream of encoded payloads is decoded as it was encoded, and the payloads before a frame that
is too large are delivered, exactly under the stated conditions on the chunks. -/
theorem chunks_law (maxPayloadBytes : Nat) (payloads cs : List (List UInt8))
    (h : ∀ p ∈ payloads, Encodable maxPayloadBytes p) :
    (cs.flatten = stream payloads →
      (Framing.run push (new maxPayloadBytes) cs = (payloads, none) ↔
        Admitted maxPayloadBytes payloads 0 cs)) ∧
    ∀ n body, maxPayloadBytes < n → n < 2 ^ 32 →
      cs.flatten = stream payloads ++ (u32ToBe n ++ body) →
        ((Framing.run push (new maxPayloadBytes) cs).1 = payloads ↔ payloads = [] ∨
          ∃ before after, cs = before ++ after ∧
            (stream payloads).length ≤ before.flatten.length ∧
            before.flatten.length < (stream payloads).length + headerBytes ∧
            Admitted maxPayloadBytes payloads 0 before) :=
  ⟨run_stream h, fun _ _ hmax hword hcs => run_oversized h hmax hword hcs⟩

end Streams

/-- Two frames of five bytes that come in two chunks, the first cut in its header. -/
theorem chunks_law_cut :
    Framing.run push (new 8) [[0, 0, 0], [5, 1, 2, 3, 4, 5], [0, 0, 0, 5, 6, 7, 8, 9, 10]] =
      ([[1, 2, 3, 4, 5], [6, 7, 8, 9, 10]], none) := by
  refine ((chunks_law 8 [[1, 2, 3, 4, 5], [6, 7, 8, 9, 10]]
    [[0, 0, 0], [5, 1, 2, 3, 4, 5], [0, 0, 0, 5, 6, 7, 8, 9, 10]] ?_).1 rfl).mpr ?_
  · intro p hp
    refine encodable_iff.mpr ?_
    obtain rfl | hp := List.mem_cons.mp hp
    · decide
    · rw [List.mem_singleton.mp hp]
      decide
  · decide

/-- The same frames in one chunk are refused. -/
theorem combined_frames_refused :
    ¬ ∀ (maxPayloadBytes : Nat) (payloads cs : List (List UInt8)),
      (∀ p ∈ payloads, Encodable maxPayloadBytes p) → cs.flatten = stream payloads →
        Framing.run push (new maxPayloadBytes) cs = (payloads, none) := by
  intro h
  have hrun := h 8 [[1, 2, 3, 4, 5], [6, 7, 8, 9, 10]]
    [stream [[1, 2, 3, 4, 5], [6, 7, 8, 9, 10]]] (by decide) rfl
  exact absurd (congrArg Prod.snd hrun) (by decide)

end FrameDecoder
end Strukt
