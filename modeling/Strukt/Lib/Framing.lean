import Mathlib.Data.List.Basic
import Mathlib.Order.Basic

/-!
# Incremental decoding of frames

A `Framing` reads what the front of the bytes at hand is: a frame, too little, or an error. A frame
stays one when more bytes arrive.

* **Draining** (`drain`): the frames at the front, and the bytes that are left. Draining what is left
  with more bytes is draining all of them (`drain_append`).
* **Pushing** (`push`): a decoder that keeps what is left, may refuse a chunk, and drops everything
  when it fails.
* **Chunks** (`run_clean`, `run_prefix`): pushed chunk by chunk, a stream gives its frames, exactly
  as long as no push refuses or ends in an error.
* **Streams** (`drain_take`, `clean_at`): where the frames of a stream are known, so is what is left
  after any number of its bytes.
* **Independence** (`independent_iff`): what comes of a stream depends on how it is cut, where frames
  come before an error or a part of the stream is an error that the whole is not.
-/

namespace Strukt

/-- What the front of some bytes is. -/
inductive Scanned (β ε : Type) where
  | more
  | frame (body : β) (size : Nat)
  | failed (error : ε)

namespace Scanned

variable {β ε : Type}

def error? : Scanned β ε → Option ε
  | .failed e => some e
  | _ => none

def IsFrame : Scanned β ε → Prop
  | .frame _ _ => True
  | _ => False

theorem error?_eq_some {s : Scanned β ε} {e : ε} : s.error? = some e ↔ s = failed e := by
  cases s with
  | more | frame _ _ => exact iff_of_false (fun h => by cases h) (fun h => by cases h)
  | failed e' =>
    constructor
    · intro h
      cases h
      rfl
    · intro h
      cases h
      rfl

end Scanned

/-- How frames are read from the front of bytes. -/
structure Framing (α β ε : Type) where
  next : List α → Scanned β ε
  bounded : ∀ s b n, next s = .frame b n → 0 < n ∧ n ≤ s.length
  stable : ∀ s t b n, next s = .frame b n → next (s ++ t) = .frame b n

namespace Framing

variable {α β ε : Type} (f : Framing α β ε)

/-- The frames at the front, at most as many as there is fuel, and what is left. -/
def drainWith : Nat → List α → List β × List α
  | 0, s => ([], s)
  | fuel + 1, s =>
    match f.next s with
    | .frame b n =>
      let (bs, rest) := drainWith fuel (s.drop n)
      (b :: bs, rest)
    | _ => ([], s)

def drain (s : List α) : List β × List α := f.drainWith s.length s

theorem next_nil : ¬(f.next []).IsFrame := by
  intro h
  cases hn : f.next [] with
  | frame b n =>
    have hb := f.bounded [] b n hn
    exact absurd hb.1 (by simpa using hb.2)
  | more | failed _ =>
    rw [hn] at h
    exact h

theorem drainWith_stop {s : List α} (h : ¬(f.next s).IsFrame) (fuel : Nat) :
    f.drainWith fuel s = ([], s) := by
  cases fuel with
  | zero => rfl
  | succ fuel =>
    rw [drainWith]
    cases hn : f.next s with
    | frame b n =>
      rw [hn] at h
      exact absurd trivial h
    | more | failed _ => rfl

/-- Fuel beyond the number of bytes changes nothing. -/
theorem drainWith_of_le {fuel : Nat} {s : List α} (h : s.length ≤ fuel) :
    f.drainWith fuel s = f.drain s := by
  unfold drain
  suffices hall : ∀ n m : Nat, ∀ s : List α, s.length ≤ n → s.length ≤ m →
      f.drainWith n s = f.drainWith m s from hall _ _ s h (Nat.le_refl _)
  intro n
  induction n with
  | zero =>
    intro m s hn _
    rw [List.eq_nil_of_length_eq_zero (Nat.le_zero.mp hn)]
    exact (f.drainWith_stop f.next_nil 0).trans (f.drainWith_stop f.next_nil m).symm
  | succ n ih =>
    intro m s hn hm
    cases hs : f.next s with
    | frame b k =>
      obtain ⟨hpos, hle⟩ := f.bounded s b k hs
      obtain ⟨m, rfl⟩ : ∃ m', m = m' + 1 := ⟨m - 1, by omega⟩
      have hdrop : (s.drop k).length = s.length - k := List.length_drop
      simp only [drainWith, hs]
      rw [ih m (s.drop k) (by omega) (by omega)]
    | more | failed _ =>
      have hstop : ¬(f.next s).IsFrame := by
        rw [hs]
        exact fun h => h
      rw [f.drainWith_stop hstop, f.drainWith_stop hstop]

theorem drain_stop {s : List α} (h : ¬(f.next s).IsFrame) : f.drain s = ([], s) :=
  f.drainWith_stop h _

@[simp] theorem drain_nil : f.drain [] = ([], []) := f.drain_stop f.next_nil

theorem drain_frame {s : List α} {b : β} {n : Nat} (h : f.next s = .frame b n) :
    f.drain s = (b :: (f.drain (s.drop n)).1, (f.drain (s.drop n)).2) := by
  obtain ⟨hpos, hle⟩ := f.bounded s b n h
  have hdrop : (s.drop n).length = s.length - n := List.length_drop
  rw [← f.drainWith_of_le (show s.length ≤ (s.length - 1) + 1 by omega), drainWith]
  simp only [h]
  rw [f.drainWith_of_le (by omega)]

/-- Induction along the frames at the front. -/
theorem drain_induction {I : List α → Prop} (stop : ∀ s, ¬(f.next s).IsFrame → I s)
    (frame : ∀ s b n, f.next s = .frame b n → I (s.drop n) → I s) (s : List α) : I s := by
  induction hk : s.length using Nat.strongRecOn generalizing s with
  | _ k ih =>
    cases hs : f.next s with
    | frame b n =>
      obtain ⟨hpos, hle⟩ := f.bounded s b n hs
      exact frame s b n hs (ih (s.drop n).length (by rw [List.length_drop]; omega) _ rfl)
    | more | failed _ =>
      refine stop s ?_
      rw [hs]
      exact fun h => h

/-- What is left does not begin with a frame. -/
theorem drain_rest (s : List α) : ¬(f.next (f.drain s).2).IsFrame := by
  induction s using f.drain_induction with
  | stop s h =>
    rw [f.drain_stop h]
    exact h
  | frame s b n h ih =>
    rw [f.drain_frame h]
    exact ih

/-- Once what is left is drained with more bytes, all of them are. -/
theorem drain_append (s t : List α) : f.drain (s ++ t) =
    ((f.drain s).1 ++ (f.drain ((f.drain s).2 ++ t)).1, (f.drain ((f.drain s).2 ++ t)).2) := by
  induction s using f.drain_induction with
  | stop s h =>
    rw [f.drain_stop h]
    rfl
  | frame s b n h ih =>
    obtain ⟨-, hle⟩ := f.bounded s b n h
    rw [f.drain_frame h, f.drain_frame (f.stable s t b n h), List.drop_append_of_le_length hle, ih]
    rfl

/-- What is left is where the frames end. -/
theorem drain_suffix (s : List α) : (f.drain s).2 <:+ s := by
  induction s using f.drain_induction with
  | stop s h =>
    exact ⟨[], by simp only [f.drain_stop h, List.nil_append]⟩
  | frame s b n h ih =>
    rw [f.drain_frame h]
    exact ih.trans (List.drop_suffix n s)

/-! ## Pushing -/

variable (guard : List α → List α → Option ε)

/-- The frames that a chunk completes, and what is left; nothing is left after an error. -/
def push (retained bytes : List α) : Except ε (List β) × List α :=
  match guard retained bytes with
  | some e => (.error e, [])
  | none =>
    match (f.next (f.drain (retained ++ bytes)).2).error? with
    | some e => (.error e, [])
    | none => (.ok (f.drain (retained ++ bytes)).1, (f.drain (retained ++ bytes)).2)

/-- The frames of the chunks up to the first error, and the error. -/
def run {δ : Type} (push : δ → List α → Except ε (List β) × δ) :
    δ → List (List α) → List β × Option ε
  | _, [] => ([], none)
  | d, c :: cs =>
    match push d c with
    | (.error e, _) => ([], some e)
    | (.ok bs, d') => (bs ++ (run push d' cs).1, (run push d' cs).2)

/-- No push refuses a chunk or ends in an error. -/
def Clean : List α → List (List α) → Prop
  | _, [] => True
  | retained, c :: cs =>
    guard retained c = none ∧ (f.next (f.drain (retained ++ c)).2).error? = none ∧
      Clean (f.drain (retained ++ c)).2 cs

variable {f guard} {retained : List α} {cs : List (List α)}

/-- Without errors, the frames are those of the whole stream. -/
theorem run_clean (h : f.Clean guard retained cs) (hr : ¬(f.next retained).IsFrame) :
    run (f.push guard) retained cs = ((f.drain (retained ++ cs.flatten)).1, none) := by
  induction cs generalizing retained with
  | nil =>
    rw [List.flatten_nil, List.append_nil, f.drain_stop hr]
    rfl
  | cons c cs ih =>
    obtain ⟨hguard, herror, hrest⟩ := h
    have hpush : f.push guard retained c =
        (.ok (f.drain (retained ++ c)).1, (f.drain (retained ++ c)).2) := by
      simp only [push, hguard, herror]
    simp only [run, hpush, ih hrest (f.drain_rest _)]
    rw [List.flatten_cons, ← List.append_assoc, f.drain_append (retained ++ c)]

/-- A run without an error is one of clean pushes. -/
theorem run_error_none (hr : ¬(f.next retained).IsFrame) :
    (run (f.push guard) retained cs).2 = none ↔ f.Clean guard retained cs := by
  refine ⟨fun h => ?_, fun h => by rw [run_clean h hr]⟩
  induction cs generalizing retained with
  | nil => trivial
  | cons c cs ih =>
    simp only [run, push] at h
    cases hguard : guard retained c with
    | some e =>
      simp only [hguard] at h
      cases h
    | none =>
      cases herror : (f.next (f.drain (retained ++ c)).2).error? with
      | some e =>
        simp only [hguard, herror] at h
        cases h
      | none =>
        simp only [hguard, herror] at h
        exact ⟨hguard, herror, ih (f.drain_rest _) h⟩

/-- What a run gives is what its pushes before the first error give. -/
theorem run_split (hr : ¬(f.next retained).IsFrame) : ∃ before after, cs = before ++ after ∧
    f.Clean guard retained before ∧
      (run (f.push guard) retained cs).1 = (f.drain (retained ++ before.flatten)).1 := by
  induction cs generalizing retained with
  | nil =>
    refine ⟨[], [], rfl, trivial, ?_⟩
    rw [List.flatten_nil, List.append_nil, f.drain_stop hr]
    rfl
  | cons c cs ih =>
    by_cases hclean : guard retained c = none ∧
        (f.next (f.drain (retained ++ c)).2).error? = none
    · obtain ⟨before, after, rfl, hbefore, hrun⟩ := ih (f.drain_rest (retained ++ c))
      refine ⟨c :: before, after, rfl, ⟨hclean.1, hclean.2, hbefore⟩, ?_⟩
      have hpush : f.push guard retained c =
          (.ok (f.drain (retained ++ c)).1, (f.drain (retained ++ c)).2) := by
        simp only [push, hclean.1, hclean.2]
      simp only [run, hpush, hrun]
      rw [List.flatten_cons, ← List.append_assoc, f.drain_append (retained ++ c)]
    · refine ⟨[], c :: cs, rfl, trivial, ?_⟩
      rw [List.flatten_nil, List.append_nil, f.drain_stop hr]
      simp only [run, push]
      cases hguard : guard retained c with
      | some e => rfl
      | none =>
        cases herror : (f.next (f.drain (retained ++ c)).2).error? with
        | some e => rfl
        | none => exact absurd ⟨hguard, herror⟩ hclean

/-- A run gives frames of the stream, from its front. -/
theorem run_prefix (hr : ¬(f.next retained).IsFrame) :
    (run (f.push guard) retained cs).1 <+: (f.drain (retained ++ cs.flatten)).1 := by
  obtain ⟨before, after, rfl, -, hrun⟩ := @run_split _ _ _ f guard retained cs hr
  rw [hrun, List.flatten_append, ← List.append_assoc, f.drain_append (retained ++ before.flatten)]
  exact List.prefix_append _ _

/-- The frames of a run that begins with clean pushes begin with theirs. -/
theorem run_append_prefix {before after : List (List α)} (h : f.Clean guard retained before)
    (hr : ¬(f.next retained).IsFrame) : (f.drain (retained ++ before.flatten)).1 <+:
      (run (f.push guard) retained (before ++ after)).1 := by
  induction before generalizing retained with
  | nil =>
    rw [List.flatten_nil, List.append_nil, f.drain_stop hr]
    exact List.nil_prefix
  | cons c cs ih =>
    obtain ⟨hguard, herror, hrest⟩ := h
    have hpush : f.push guard retained c =
        (.ok (f.drain (retained ++ c)).1, (f.drain (retained ++ c)).2) := by
      simp only [push, hguard, herror]
    simp only [List.cons_append, run, hpush]
    rw [List.flatten_cons, ← List.append_assoc, f.drain_append (retained ++ c)]
    exact (List.prefix_append_right_inj _).mpr (ih hrest (f.drain_rest _))

/-! ## Streams of known frames -/

section Streams

variable (enc : β → List α)

/-- The bodies whose frames end within the first `pos` elements. -/
def completed : List β → Nat → List β
  | [], _ => []
  | b :: bs, pos =>
    if pos < (enc b).length then [] else b :: completed bs (pos - (enc b).length)

/-- The part of the first `pos` elements of the frames and a tail that is behind the last frame
that ends there. -/
def unfinished (tail : List α) : List β → Nat → List α
  | [], pos => tail.take pos
  | b :: bs, pos =>
    if pos < (enc b).length then (enc b).take pos else unfinished tail bs (pos - (enc b).length)

/-- `f` reads the frame of the body where it is complete, and only there. -/
structure Reads (f : Framing α β ε) (b : β) : Prop where
  whole : ∀ t, f.next (enc b ++ t) = .frame b (enc b).length
  short : ∀ k < (enc b).length, ¬(f.next ((enc b).take k)).IsFrame

variable {enc} {bs : List β} {tail : List α} {pos : Nat}

theorem completed_eq : completed enc bs pos = bs ↔ (bs.flatMap enc).length ≤ pos := by
  induction bs generalizing pos with
  | nil => exact iff_of_true rfl (Nat.zero_le _)
  | cons b bs ih =>
    rw [completed, List.flatMap_cons, List.length_append]
    split
    · exact iff_of_false (fun h => by cases h) (by omega)
    · rw [List.cons.injEq, ih]
      constructor
      · rintro ⟨-, h⟩
        omega
      · intro h
        exact ⟨rfl, by omega⟩

/-- What the first `pos` elements of a stream come to, where no frame follows the bodies. -/
theorem drain_take (h : ∀ b ∈ bs, f.Reads enc b)
    (htail : ∀ n, ¬(f.next (tail.take n)).IsFrame) :
    f.drain ((bs.flatMap enc ++ tail).take pos) =
      (completed enc bs pos, unfinished enc tail bs pos) := by
  induction bs generalizing pos with
  | nil => exact f.drain_stop (htail pos)
  | cons b bs ih =>
    have hb := h b List.mem_cons_self
    rw [List.flatMap_cons, List.append_assoc, completed, unfinished]
    by_cases hshort : pos < (enc b).length
    · rw [if_pos hshort, if_pos hshort, List.take_append_of_le_length (Nat.le_of_lt hshort)]
      exact f.drain_stop (hb.short pos hshort)
    · rw [if_neg hshort, if_neg hshort, List.take_append, List.take_of_length_le (by omega),
        f.drain_frame (hb.whole _), List.drop_left,
        ih fun c hc => h c (List.mem_cons_of_mem _ hc)]

/-- From `pos` on, no chunk is refused where it comes, and none ends in an error. -/
def CleanAt (f : Framing α β ε) (guard : List α → List α → Option ε) (s : List α) :
    Nat → List (List α) → Prop
  | _, [] => True
  | pos, c :: cs =>
    guard (f.drain (s.take pos)).2 c = none ∧
      (f.next (f.drain (s.take (pos + c.length))).2).error? = none ∧
      CleanAt f guard s (pos + c.length) cs

theorem clean_at {s : List α} (hcs : cs.flatten <+: s.drop pos) :
    f.Clean guard (f.drain (s.take pos)).2 cs ↔ f.CleanAt guard s pos cs := by
  induction cs generalizing pos with
  | nil => exact Iff.rfl
  | cons c cs ih =>
    obtain ⟨post, hpost⟩ := hcs
    rw [List.flatten_cons, List.append_assoc] at hpost
    have hstep : s.take pos ++ c = s.take (pos + c.length) := by
      rw [List.take_add, ← hpost, List.take_left]
    have hnext : cs.flatten <+: s.drop (pos + c.length) := by
      rw [← List.drop_drop, ← hpost, List.drop_left]
      exact List.prefix_append _ _
    have hmore : (f.drain ((f.drain (s.take pos)).2 ++ c)).2 =
        (f.drain (s.take (pos + c.length))).2 := by
      rw [← hstep, f.drain_append (s.take pos)]
    rw [Clean, CleanAt, hmore, ih hnext]

end Streams

/-! ## Independence of the chunks -/

section Independence

variable (f) {s b : List α}

/-- What is left of `s` behind some of its frames. -/
inductive Behind (s : List α) : List α → Prop
  | start : Behind s s
  | frame {b x n} : Behind s b → f.next b = .frame x n → Behind s (b.drop n)

/-- A frame depends on its own elements only. -/
def Local : Prop := ∀ s b n, f.next s = .frame b n → f.next (s.take n) = .frame b n

/-- An error comes before any frame, and a part of what is there is an error only where all of it
is the same one. -/
structure Steady (s : List α) : Prop where
  alone : ∀ b, f.Behind s b → b ≠ s → (f.next b).error? = none
  stays : ∀ b k e, f.Behind s b → (f.next (b.take k)).error? = some e →
    (f.next b).error? = some e

variable {f}

theorem Behind.of_drop {x : β} {n : Nat} (h : f.next s = .frame x n)
    (hb : f.Behind (s.drop n) b) : f.Behind s b := by
  induction hb with
  | start => exact .frame .start h
  | frame _ hx ih => exact .frame ih hx

/-- What is left of the first elements is, with the others, behind frames of all of them. -/
theorem drain_behind (s t : List α) : f.Behind (s ++ t) ((f.drain s).2 ++ t) := by
  induction s using f.drain_induction with
  | stop s h =>
    rw [f.drain_stop h]
    exact .start
  | frame s x n h ih =>
    obtain ⟨-, hle⟩ := f.bounded s x n h
    rw [f.drain_frame h]
    refine .of_drop (f.stable s t x n h) ?_
    rw [List.drop_append_of_le_length hle]
    exact ih

theorem drain_none (h : (f.drain s).2 = s) : (f.drain s).1 = [] := by
  by_cases hs : (f.next s).IsFrame
  · cases hn : f.next s with
    | frame x n =>
      obtain ⟨hpos, hle⟩ := f.bounded s x n hn
      have hlength := (f.drain_suffix (s.drop n)).length_le
      rw [f.drain_frame hn] at h
      rw [show (f.drain (s.drop n)).2 = s from h, List.length_drop] at hlength
      omega
    | more | failed _ =>
      rw [hn] at hs
      exact hs.elim
  · rw [f.drain_stop hs]

/-- The frames before `b`, drained by themselves, leave nothing. -/
theorem Behind.split (hlocal : f.Local) (h : f.Behind s b) :
    ∃ a, s = a ++ b ∧ (f.drain a).2 = [] ∧ (b ≠ s → (f.drain a).1 ≠ []) := by
  induction h with
  | start =>
    refine ⟨[], rfl, ?_, fun h => absurd rfl h⟩
    rw [f.drain_nil]
  | @frame b x n _ hx ih =>
    obtain ⟨a, rfl, hrest, -⟩ := ih
    obtain ⟨-, hle⟩ := f.bounded b x n hx
    have hdrop : (b.take n).drop n = [] :=
      List.drop_eq_nil_of_le (List.length_take_le n b)
    have hframe := f.drain_frame (hlocal b x n hx)
    rw [hdrop, f.drain_nil] at hframe
    refine ⟨a ++ b.take n, ?_, ?_, fun _ => ?_⟩
    · rw [List.append_assoc, List.take_append_drop]
    · rw [f.drain_append a, hrest, List.nil_append, hframe]
    · rw [f.drain_append a, hrest, List.nil_append, hframe]
      exact List.append_ne_nil_of_right_ne_nil _ (List.cons_ne_nil _ _)

/-- The decoder that refuses no chunk. -/
def decode (f : Framing α β ε) (cs : List (List α)) : List β × Option ε :=
  run (f.push fun _ _ => none) [] cs

theorem Clean.rest (h : f.Clean guard retained cs) (hr : ¬(f.next retained).IsFrame)
    (hnone : (f.next retained).error? = none) :
    (f.next (f.drain (retained ++ cs.flatten)).2).error? = none := by
  induction cs generalizing retained with
  | nil =>
    rw [List.flatten_nil, List.append_nil, f.drain_stop hr]
    exact hnone
  | cons c cs ih =>
    have hrest := ih h.2.2 (f.drain_rest _) h.2.1
    rw [List.flatten_cons, ← List.append_assoc, f.drain_append (retained ++ c)]
    exact hrest

/-- Where a run ends in an error. -/
theorem run_failed {e : ε} (hr : ¬(f.next retained).IsFrame)
    (h : (run (f.push fun _ _ => none) retained cs).2 = some e) :
    ∃ before c after, cs = before ++ c :: after ∧
      (f.next (f.drain (retained ++ (before.flatten ++ c))).2).error? = some e ∧
      run (f.push fun _ _ => none) retained cs =
        ((f.drain (retained ++ before.flatten)).1, some e) := by
  induction cs generalizing retained with
  | nil => cases h
  | cons c cs ih =>
    cases hc : (f.next (f.drain (retained ++ c)).2).error? with
    | some e' =>
      have hrun : run (f.push fun _ _ => none) retained (c :: cs) = ([], some e') := by
        simp only [run, push, hc]
      rw [hrun] at h
      cases h
      refine ⟨[], c, cs, rfl, hc, ?_⟩
      rw [hrun, List.flatten_nil, List.append_nil, f.drain_stop hr]
    | none =>
      have hrun : run (f.push fun _ _ => none) retained (c :: cs) =
          ((f.drain (retained ++ c)).1 ++
            (run (f.push fun _ _ => none) (f.drain (retained ++ c)).2 cs).1,
            (run (f.push fun _ _ => none) (f.drain (retained ++ c)).2 cs).2) := by
        simp only [run, push, hc]
      rw [hrun] at h
      obtain ⟨before, c', after, rfl, herror, hrest⟩ := ih (f.drain_rest _) h
      refine ⟨c :: before, c', after, rfl, ?_, ?_⟩
      · rw [List.flatten_cons, List.append_assoc, ← List.append_assoc retained,
          f.drain_append (retained ++ c)]
        exact herror
      · rw [hrun, hrest, List.flatten_cons, ← List.append_assoc, f.drain_append (retained ++ c)]

/-- The run of one chunk. -/
theorem decode_singleton (s : List α) : f.decode [s] =
    match (f.next (f.drain s).2).error? with
    | some e => ([], some e)
    | none => ((f.drain s).1, none) := by
  simp only [decode, run, push, List.nil_append]
  cases (f.next (f.drain s).2).error? with
  | some e => rfl
  | none => simp only [List.append_nil]

/-- The run of a first chunk that leaves nothing. -/
theorem decode_cons {a : List α} {cs : List (List α)} (ha : (f.drain a).2 = [])
    (hnil : (f.next []).error? = none) :
    f.decode (a :: cs) = ((f.drain a).1 ++ (f.decode cs).1, (f.decode cs).2) := by
  simp only [decode, run, push, List.nil_append, ha, hnil]

/-- A steady stream comes to the same however it is cut. -/
theorem Steady.decode (h : f.Steady s) (hnil : (f.next []).error? = none) (hcs : cs.flatten = s) :
    f.decode cs = f.decode [s] := by
  rw [decode_singleton]
  cases hrun : (f.decode cs).2 with
  | none =>
    have hclean := (Framing.run_error_none f.next_nil).mp hrun
    have hrest := hclean.rest f.next_nil hnil
    rw [List.nil_append, hcs] at hrest
    simp only [hrest]
    rw [Framing.decode, run_clean hclean f.next_nil, List.nil_append, hcs]
  | some e =>
    obtain ⟨before, c, after, rfl, herror, hframes⟩ := run_failed f.next_nil hrun
    rw [List.nil_append] at herror hframes
    have hsplit : (before.flatten ++ c) ++ after.flatten = s := by
      rw [← hcs, List.flatten_append, List.flatten_cons, List.append_assoc]
    have hbehind := f.drain_behind (before.flatten ++ c) after.flatten
    rw [hsplit] at hbehind
    -- the error that ends the run is one of all that is left, so no frame came before
    have hstays := h.stays _ (f.drain (before.flatten ++ c)).2.length e hbehind
      (by rw [List.take_left]; exact herror)
    have hstart : (f.drain (before.flatten ++ c)).2 ++ after.flatten = s := by
      by_contra hne
      rw [h.alone _ hbehind hne] at hstays
      cases hstays
    have hempty := f.drain_none (List.append_cancel_right (hstart.trans hsplit.symm))
    rw [f.drain_append before.flatten] at hempty
    rw [Framing.decode, hframes, (List.append_eq_nil_iff.mp hempty).1]
    rw [hstart] at hstays
    have hstop : ¬(f.next s).IsFrame := by
      rw [Scanned.error?_eq_some.mp hstays]
      exact fun h => h
    rw [f.drain_stop hstop, hstays]

/-- What comes of a stream does not depend on how it is cut, exactly if the stream is steady. -/
theorem independent_iff (hlocal : f.Local) (hnil : (f.next []).error? = none) :
    (∀ cs cs' : List (List α), cs.flatten = s → cs'.flatten = s → f.decode cs = f.decode cs') ↔
      f.Steady s := by
  refine ⟨fun h => ?_, fun h cs cs' hcs hcs' =>
    (h.decode hnil hcs).trans (h.decode hnil hcs').symm⟩
  have hone (cs : List (List α)) (hcs : cs.flatten = s) : f.decode cs = f.decode [s] :=
    h cs [s] hcs List.flatten_singleton
  have halone (b : List α) (hb : f.Behind s b) (hne : b ≠ s) : (f.next b).error? = none := by
    cases hn : (f.next b).error? with
    | none => rfl
    | some e =>
      obtain ⟨a, rfl, hrest, hframes⟩ := hb.split hlocal
      have hstop : ¬(f.next b).IsFrame := by
        rw [Scanned.error?_eq_some.mp hn]
        exact fun h => h
      have hdrain : (f.drain (a ++ b)).2 = b := by
        rw [f.drain_append a, hrest, List.nil_append, f.drain_stop hstop]
      have hcut := hone [a, b] (by rw [List.flatten_cons, List.flatten_singleton])
      rw [decode_cons hrest hnil, decode_singleton (a ++ b), hdrain, hn] at hcut
      exact absurd (List.append_eq_nil_iff.mp (congrArg Prod.fst hcut)).1 (hframes hne)
  refine ⟨halone, fun b k e hb hk => ?_⟩
  obtain ⟨a, hs, hrest, -⟩ := hb.split hlocal
  have hcut := (hone [a, b.take k, b.drop k] (by simp [hs])).trans
    (hone [a, b] (by simp [hs])).symm
  have hstop : ¬(f.next (b.take k)).IsFrame := by
    rw [Scanned.error?_eq_some.mp hk]
    exact fun h => h
  have hfirst : f.decode [b.take k, b.drop k] = ([], some e) := by
    simp only [decode, run, push, List.nil_append, f.drain_stop hstop, hk]
  rw [decode_cons hrest hnil, decode_cons hrest hnil, hfirst, decode_singleton] at hcut
  have hsecond := congrArg Prod.snd hcut
  cases hr : (f.next (f.drain b).2).error? with
  | none =>
    rw [hr] at hsecond
    cases hsecond
  | some e' =>
    rw [hr] at hsecond
    cases hsecond
    -- an error behind a frame would not stand alone
    by_cases hframe : (f.drain b).2 = b
    · rw [hframe] at hr
      exact hr
    · have hbehind := f.drain_behind (a ++ b) []
      rw [List.append_nil, List.append_nil, f.drain_append a, hrest, List.nil_append, ← hs]
        at hbehind
      have hlength := (f.drain_suffix b).length_le
      have hne : (f.drain b).2 ≠ s := by
        intro heq
        rw [heq, hs, List.length_append] at hlength
        have hnil : a = [] := List.eq_nil_of_length_eq_zero (by omega)
        rw [hnil, List.nil_append] at hs
        exact hframe (heq.trans hs)
      rw [halone _ hbehind hne] at hr
      cases hr

end Independence

end Framing
end Strukt
