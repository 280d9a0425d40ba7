import Strukt.Editor.Buffer
import Strukt.Lib.Splice

/-!
# What an edit does to a text

`TextBuffer.apply` makes the replacements of a transaction one by one; `apply_spec` says that they
are the simultaneous edit of the text that they describe, and that the transaction which it returns
is the inverse edit. The ranges count characters, so a replacement is a `Splice` of characters.

* **Admitted** (`Admits`): what a buffer checks, and the ranges that it would panic on.
* **Errors** leave the buffer as it was: the one check behind the writes, that the inverse
  replacements do not overlap, never fails.
-/

namespace Strukt

open Method

def Replacement.toSplice (r : Replacement) : Splice Char :=
  ⟨r.range.start, r.range.stop, r.text.toList⟩

/-- The range has its ends in order, within a text of `n` characters. -/
def Replacement.Within (n : Nat) (r : Replacement) : Prop :=
  r.range.start ≤ r.range.stop ∧ r.range.stop ≤ n

/-- One range ends before the other starts. -/
def Replacement.Apart (a b : Replacement) : Prop :=
  a.range.stop ≤ b.range.start ∨ b.range.stop ≤ a.range.start

namespace EditTransaction

def splices (t : EditTransaction) : List (Splice Char) := t.replacements.map (·.toSplice)

variable {n : Nat} {revision : Revision} {rs : List Replacement}

theorem ordered_iff {pos : Nat} : Splice.Ordered n pos (rs.map (·.toSplice)) ↔
    pos ≤ n ∧ (∀ r ∈ rs.head?, pos ≤ r.range.start) ∧ overlaps rs = false ∧
      ∀ r ∈ rs, r.Within n := by
  induction rs generalizing pos with
  | nil => simp [Splice.Ordered, overlaps]
  | cons r rest ih =>
    rw [List.map_cons, Splice.Ordered, ih, List.forall_mem_cons]
    have hover : overlaps (r :: rest) = false ↔
        (∀ q ∈ rest.head?, r.range.stop ≤ q.range.start) ∧ overlaps rest = false := by
      cases rest with
      | nil => simp [overlaps]
      | cons q rest => simp [overlaps]
    rw [hover]
    simp only [Replacement.toSplice, Replacement.Within, List.head?_cons, Option.mem_def,
      Option.some.injEq, forall_eq']
    constructor
    · rintro ⟨hpos, hle, hn, hnext, hrest, hin⟩
      exact ⟨by omega, hpos, ⟨hnext, hrest⟩, ⟨hle, hn⟩, hin⟩
    · rintro ⟨-, hpos, ⟨hnext, hrest⟩, ⟨hle, hn⟩, hin⟩
      exact ⟨hpos, hle, hn, hnext, hrest, hin⟩

theorem ordered_zero_iff : Splice.Ordered n 0 (rs.map (·.toSplice)) ↔
    overlaps rs = false ∧ ∀ r ∈ rs, r.Within n := by
  rw [ordered_iff]
  simp

/-- In a list without overlaps, each range ends before every later one starts. -/
theorem pairwise_of_ordered {pos : Nat} (h : Splice.Ordered n pos (rs.map (·.toSplice))) :
    rs.Pairwise fun a b => a.range.stop ≤ b.range.start := by
  induction rs generalizing pos with
  | nil => exact .nil
  | cons r rest ih =>
    refine List.pairwise_cons.mpr ⟨fun q hq => ?_, ih h.2.2⟩
    exact h.2.2.start_le q.toSplice (List.mem_map_of_mem hq)

instance : Std.Total Replacement.Le := ⟨fun a b => by unfold Replacement.Le; omega⟩

instance : IsTrans Replacement Replacement.Le :=
  ⟨fun a b c hab hbc => by unfold Replacement.Le at *; omega⟩

/-- Replacements in order stay in their order. -/
theorem new_of_ordered (h : Splice.Ordered n 0 (rs.map (·.toSplice))) :
    new revision rs = .ok ⟨revision, rs⟩ := by
  obtain ⟨hover, hin⟩ := ordered_zero_iff.mp h
  have hsorted : rs.insertionSort Replacement.Le = rs := by
    refine ((pairwise_of_ordered h).imp_of_mem fun ha hb hab => ?_).insertionSort_eq
    have := hin _ ha
    have := hin _ hb
    unfold Replacement.Within at *
    unfold Replacement.Le
    omega
  rw [new, hsorted, if_neg (by simp [hover])]

/-- `new` sorts, and accepts what does not overlap then. -/
theorem new_eq_ok {t : EditTransaction} (h : new revision rs = .ok t) :
    t.expectedRevision = revision ∧ t.replacements.Perm rs ∧ overlaps t.replacements = false := by
  unfold new at h
  dsimp only at h
  split at h
  · cases h
  · rename_i hover
    cases h
    exact ⟨rfl, List.perm_insertionSort _ _, Bool.not_eq_true _ ▸ hover⟩

theorem overlaps_of_pairwise (h : rs.Pairwise fun a b => a.range.stop ≤ b.range.start) :
    overlaps rs = false := by
  induction rs with
  | nil => rfl
  | cons a rest ih =>
    obtain ⟨ha, hrest⟩ := List.pairwise_cons.mp h
    cases rest with
    | nil => rfl
    | cons b rest =>
      rw [overlaps, ih hrest, Bool.or_false]
      exact decide_eq_false (not_lt.mpr (ha b List.mem_cons_self))

/-- For ranges with their ends in order: it accepts those of which each two are apart. -/
theorem overlaps_iff (hin : ∀ r ∈ rs, r.range.start ≤ r.range.stop) :
    overlaps (rs.insertionSort Replacement.Le) = false ↔ rs.Pairwise Replacement.Apart := by
  have hperm : (rs.insertionSort Replacement.Le).Perm rs := List.perm_insertionSort _ _
  have hin' : ∀ r ∈ rs.insertionSort Replacement.Le, r.range.start ≤ r.range.stop :=
    fun r hr => hin r (hperm.mem_iff.mp hr)
  have hsymm : ∀ {a b : Replacement}, a.Apart b → b.Apart a := Or.symm
  rw [← hperm.pairwise_iff hsymm]
  constructor
  · intro hover
    have hwithin : ∀ r ∈ rs.insertionSort Replacement.Le,
        r.Within ((rs.insertionSort Replacement.Le).map (·.range.stop)).sum :=
      fun r hr => ⟨hin' r hr, List.single_le_sum (by simp) _ (List.mem_map_of_mem hr)⟩
    exact (pairwise_of_ordered (ordered_zero_iff.mpr ⟨hover, hwithin⟩)).imp .inl
  · intro hapart
    have hsorted : (rs.insertionSort Replacement.Le).Pairwise Replacement.Le :=
      List.pairwise_insertionSort Replacement.Le rs
    refine overlaps_of_pairwise ((hapart.and hsorted).imp_of_mem fun {a b} ha hb h => ?_)
    obtain ⟨hab, hle⟩ := h
    -- The later of two ranges ends before the earlier one starts only where all four ends meet.
    have := hin' a ha
    have := hin' b hb
    unfold Replacement.Apart at hab
    unfold Replacement.Le at hle
    omega

end EditTransaction

namespace TextBuffer

open EditTransaction

variable {b b' : TextBuffer} {t : EditTransaction} {rs : List Replacement}

/-- What `apply` makes sure of, or panics without. -/
def Admits (b : TextBuffer) (t : EditTransaction) : Prop :=
  t.expectedRevision = b.revision ∧ b.revision.value ≠ -1 ∧
    ∀ r ∈ t.replacements, r.Within b.text.length

/-! ## The two loops -/

theorem slice_eq_some {text removed : Rope} {r : CharRange} : text.slice r = some removed ↔
    (r.start ≤ r.stop ∧ r.stop ≤ text.length) ∧
      removed = (text.drop r.start).take (r.stop - r.start) := by
  unfold Rope.slice
  split
  · rename_i h
    simp only [Option.some.injEq, h, and_self, true_and]
    exact eq_comm
  · rename_i h
    simp [h]

/-- The first loop reads the inverse splices, where the ranges are within the text. -/
theorem invert_some {text : Rope} {charDelta : Int} {inverse : List Replacement} {m n : Nat}
    (h : invert text charDelta rs = some (inverse, m, n)) :
    (∀ r ∈ rs, r.Within text.length) ∧ inverse.map (·.toSplice) =
      Splice.inverseFrom text charDelta (rs.map (·.toSplice)) := by
  induction rs generalizing charDelta inverse m n with
  | nil =>
    cases h
    exact ⟨fun _ h => absurd h List.not_mem_nil, rfl⟩
  | cons r rest ih =>
    obtain ⟨removed, hslice, h⟩ := Option.bind_eq_some_iff.mp h
    obtain ⟨⟨inverse', m', n'⟩, hrest, h⟩ := Option.bind_eq_some_iff.mp h
    cases h
    obtain ⟨hwithin, rfl⟩ := slice_eq_some.mp hslice
    obtain ⟨hin, hinv⟩ := ih hrest
    refine ⟨List.forall_mem_cons.mpr ⟨hwithin, hin⟩, ?_⟩
    rw [List.map_cons, hinv, List.map_cons, Splice.inverseFrom]
    simp only [Replacement.toSplice, String.toList_ofList]

theorem invert_total {text : Rope} {charDelta : Int} (h : ∀ r ∈ rs, r.Within text.length) :
    ∃ out, invert text charDelta rs = some out := by
  induction rs generalizing charDelta with
  | nil => exact ⟨_, rfl⟩
  | cons r rest ih =>
    obtain ⟨hwithin, hin⟩ := List.forall_mem_cons.mp h
    have hslice := slice_eq_some.mpr ⟨hwithin, rfl⟩
    obtain ⟨out, hrest⟩ := @ih (charDelta + r.text.toList.length -
      (r.range.stop - r.range.start : Nat)) hin
    exact ⟨_, by simp only [invert, hslice, hrest, Option.bind_eq_bind, Option.bind_some]; rfl⟩

theorem wp_replace {r : Replacement} (h : r.Within b.text.length) :
    wp (replace r) (fun _ b' => b' = { b with text := r.toSplice.splice b.text })
      (fun _ _ => False) False b := by
  have hle : (b.text.take r.range.start).length = r.range.start :=
    List.length_take_of_le (h.1.trans h.2)
  have hremove : b.text.remove r.range =
      some (b.text.take r.range.start ++ b.text.drop r.range.stop) := if_pos h
  have hinsert : Rope.insert (b.text.take r.range.start ++ b.text.drop r.range.stop) r.range.start
      r.text = some (r.toSplice.splice b.text) := by
    rw [Rope.insert, if_pos (by rw [List.length_append, hle]; omega), List.take_left' hle,
      List.drop_left' hle]
    rfl
  simp only [replace, wp_bind, wp_get, wp_orPanic, wp_modify]
  refine ⟨fun text ht => ?_, fun hnone => by cases hremove.symm.trans hnone⟩
  cases hremove.symm.trans ht
  refine ⟨fun text ht => ?_, fun hnone => by cases hinsert.symm.trans hnone⟩
  cases hinsert.symm.trans ht
  rfl

/-- The second loop makes the splices. -/
theorem wp_replaceAll {pos : Nat} (h : Splice.Ordered b.text.length pos (rs.map (·.toSplice))) :
    wp (forM rs.reverse replace)
      (fun _ b' => b' = { b with text := Splice.spliceAll (rs.map (·.toSplice)) b.text })
      (fun _ _ => False) False b := by
  induction rs generalizing pos with
  | nil => exact rfl
  | cons r rest ih =>
    obtain ⟨-, hle, hrest⟩ := h
    rw [List.reverse_cons, List.forM_append, wp_bind]
    refine wp_mono (ih hrest) (fun _ b' hb' => ?_) (fun _ _ => id) id
    subst hb'
    have hlen : r.range.stop ≤ (Splice.spliceAll (rest.map (·.toSplice)) b.text).length := by
      rw [Splice.spliceAll_eq_spliceFrom hrest, List.length_append, List.length_take_of_le hrest.le]
      exact Nat.le_add_right _ _
    have hwithin : r.Within (Splice.spliceAll (rest.map (·.toSplice)) b.text).length := ⟨hle, hlen⟩
    rw [List.forM_cons, wp_bind]
    exact wp_mono (wp_replace hwithin) (fun _ _ => id) (fun _ _ => id) id

/-! ## The edit -/

/-- The buffer after the edit, and what `apply` returns. -/
structure Edited (b : TextBuffer) (t : EditTransaction) (a : AppliedTransaction) (b' : TextBuffer) :
    Prop where
  ordered : Splice.Ordered b.text.length 0 t.splices
  text : b'.text = Splice.spliceAll t.splices b.text
  next : b.revision.next = .ok b'.revision
  revision : a.revision = b'.revision
  expected : a.inverse.expectedRevision = b'.revision
  inverse : a.inverse.splices = Splice.inverseFrom b.text 0 t.splices

theorem Revision.next_eq_ok {r r' : Revision} (h : r.next = .ok r') : r.value ≠ -1 := by
  unfold Revision.next at h
  split at h
  · cases h
  · assumption

theorem Revision.next_toNat {r r' : Revision} (h : r.next = .ok r') :
    r'.value.toNat = r.value.toNat + 1 := by
  have hmax := Revision.next_eq_ok h
  rw [Revision.next, if_neg hmax, Except.ok.injEq] at h
  have hlt : r.value.toNat + 1 < 2 ^ 64 := by
    have hne : r.value.toNat ≠ 2 ^ 64 - 1 := fun he => hmax (UInt64.toNat_inj.mp he)
    have := r.value.toNat_lt
    omega
  rw [← h, UInt64.toNat_add]
  exact Nat.mod_eq_of_lt hlt

theorem apply_spec (hover : overlaps t.replacements = false) :
    wp (apply t) (fun a b' => b.Admits t ∧ Edited b t a b') (fun _ b' => b' = b ∧ ¬b.Admits t)
      (¬b.Admits t ∧ ∃ r ∈ t.replacements, r.range.stop < r.range.start) b := by
  simp only [apply, wp_bind, wp_get, wp_ensure]
  refine ⟨fun hrev => ?_, fun hstale => ⟨trivial, fun h => hstale h.1⟩⟩
  cases hfind : (t.replacements.map (·.range.stop)).find? (· > b.text.length) with
  | some stop =>
    obtain ⟨r, hr, rfl⟩ := List.mem_map.mp (List.mem_of_find?_eq_some hfind)
    have hout : b.text.length < r.range.stop := by simpa using List.find?_some hfind
    exact ⟨rfl, fun h => absurd (h.2.2 r hr).2 (not_le.mpr hout)⟩
  | none =>
    have hbound : ∀ r ∈ t.replacements, r.range.stop ≤ b.text.length := fun r hr =>
      not_lt.mp fun hlt => List.find?_eq_none.mp hfind _ (List.mem_map_of_mem hr)
        (decide_eq_true hlt)
    simp only [wp_pure, wp_bind, wp_ofExcept, wp_orPanic, wp_modify]
    refine ⟨fun next hnext => ⟨fun out hinvert => ?_, fun hnone => ?_⟩, fun e he => ?_⟩
    · obtain ⟨inverse, insertedBytes, removedBytes⟩ := out
      obtain ⟨hin, hinv⟩ := invert_some hinvert
      have hord : Splice.Ordered b.text.length 0 t.splices := ordered_zero_iff.mpr ⟨hover, hin⟩
      have hadmits : b.Admits t := ⟨hrev, Revision.next_eq_ok hnext, hin⟩
      obtain ⟨hback, -⟩ := Splice.spliceAll_inverse hord
      rw [splices, ← hinv] at hback
      dsimp only
      refine wp_mono (wp_replaceAll hord) (fun _ b' hb' => ?_) (fun _ _ => False.elim) False.elim
      subst hb'
      rw [new_of_ordered hback]
      exact ⟨fun _ h => by cases h; exact ⟨hadmits, hord, rfl, hnext, rfl, rfl, hinv⟩,
        fun _ h => by cases h⟩
    · -- A range that cannot be read has its ends the wrong way round.
      have hbad : ¬∀ r ∈ t.replacements, r.Within b.text.length := fun h => by
        obtain ⟨out, hout⟩ := invert_total h
        cases hnone.symm.trans hout
      refine ⟨fun h => hbad h.2.2, ?_⟩
      by_contra hall
      simp only [not_exists, not_and, not_lt] at hall
      exact hbad fun r hr => ⟨hall r hr, hbound r hr⟩
    · refine ⟨trivial, fun h => h.2.1 ?_⟩
      unfold Revision.next at he
      split at he
      · assumption
      · cases he

theorem apply_ok (hover : overlaps t.replacements = false) (h : b.Admits t) :
    ∃ a b', (apply t).exec b = some (.ok a, b') ∧ Edited b t a b' := by
  have hspec := apply_spec hover (b := b)
  obtain ⟨r, b', hx⟩ := (wp_mono hspec (fun _ _ => id) (fun _ _ => id) fun hp => hp.1 h).ends
  cases r with
  | error e => exact absurd h (hspec.of_error hx).2
  | ok a => exact ⟨a, b', hx, (hspec.of_ok hx).2⟩

/-- The inverse gives the old text, while there is a revision left. -/
theorem Edited.restores {a : AppliedTransaction} (h : Edited b t a b') (hr : b'.revision.value ≠ -1) :
    ∃ a₂ b₂, (apply a.inverse).exec b' = some (.ok a₂, b₂) ∧ b₂.text = b.text := by
  obtain ⟨hord, hback⟩ := Splice.spliceAll_inverse h.ordered
  rw [← h.inverse, ← h.text] at hord hback
  obtain ⟨hover, hin⟩ := ordered_zero_iff.mp hord
  obtain ⟨a₂, b₂, hx, he⟩ := apply_ok hover ⟨h.expected, hr, hin⟩
  exact ⟨a₂, b₂, hx, he.text.trans hback⟩

/-- A transaction built from any replacements is applied exactly where it expects the buffer's
revision, which is not the last one, and its ranges are within the text and apart. It is the
simultaneous edit, the inverse takes it back, an error changes nothing, and ranges with their ends
in order never panic. -/
theorem edit_law (b : TextBuffer) (revision : Revision) (replacements : List Replacement) :
    ((∃ t a b', EditTransaction.new revision replacements = .ok t ∧
        (apply t).exec b = some (.ok a, b')) ↔
      revision = b.revision ∧ b.revision.value ≠ -1 ∧
        (∀ r ∈ replacements, r.Within b.text.length) ∧ replacements.Pairwise Replacement.Apart) ∧
    ∀ t, EditTransaction.new revision replacements = .ok t →
      (∀ a b', (apply t).exec b = some (.ok a, b') →
        b'.text = Splice.simultaneous t.splices b.text ∧ a.revision = b'.revision ∧
          (b'.revision.value ≠ -1 → ∃ a₂ b₂,
            (apply a.inverse).exec b' = some (.ok a₂, b₂) ∧ b₂.text = b.text)) ∧
      (∀ e b', (apply t).exec b = some (.error e, b') → b' = b) ∧
      ((∀ r ∈ replacements, r.range.start ≤ r.range.stop) → (apply t).exec b ≠ none) := by
  have hadmits : ∀ t, EditTransaction.new revision replacements = .ok t → (b.Admits t ↔
      revision = b.revision ∧ b.revision.value ≠ -1 ∧ ∀ r ∈ replacements, r.Within b.text.length) := by
    intro t ht
    obtain ⟨hrev, hperm, -⟩ := new_eq_ok ht
    unfold Admits
    rw [hrev]
    exact and_congr_right fun _ => and_congr_right fun _ =>
      forall_congr' fun r => by rw [hperm.mem_iff]
  refine ⟨⟨?_, ?_⟩, fun t ht => ?_⟩
  · rintro ⟨t, a, b', ht, hx⟩
    obtain ⟨-, -, hover⟩ := new_eq_ok ht
    obtain ⟨hrev, hmax, hin⟩ := (hadmits t ht).mp ((apply_spec hover).of_ok hx).1
    refine ⟨hrev, hmax, hin, (overlaps_iff fun r hr => (hin r hr).1).mp ?_⟩
    unfold EditTransaction.new at ht
    dsimp only at ht
    split at ht
    · cases ht
    · exact Bool.eq_false_iff.mpr ‹_›
  · rintro ⟨hrev, hmax, hin, hapart⟩
    have hover := (overlaps_iff fun r hr => (hin r hr).1).mpr hapart
    have ht : EditTransaction.new revision replacements =
        .ok ⟨revision, replacements.insertionSort Replacement.Le⟩ := by
      rw [EditTransaction.new, if_neg (by simp [hover])]
    obtain ⟨a, b', hx, -⟩ := apply_ok hover ((hadmits _ ht).mpr ⟨hrev, hmax, hin⟩)
    exact ⟨_, a, b', ht, hx⟩
  · obtain ⟨-, hperm, hover⟩ := new_eq_ok ht
    have hspec := apply_spec hover (b := b)
    refine ⟨fun a b' hx => ?_, fun e b' hx => (hspec.of_error hx).1, fun hle hnone => ?_⟩
    · have he := (hspec.of_ok hx).2
      exact ⟨he.text.trans (Splice.spliceAll_eq_simultaneous he.ordered), he.revision,
        he.restores⟩
    · obtain ⟨-, r, hr, hlt⟩ : _ ∧ ∃ r ∈ t.replacements, r.range.stop < r.range.start := by
        simpa only [wp, hnone] using hspec
      exact absurd (hle r (hperm.mem_iff.mp hr)) (not_le.mpr hlt)

/-- A wide character replaced, and an insertion behind the last one. -/
theorem edit_law_unicode :
    ∃ t a b', EditTransaction.new .initial [⟨⟨3, 3⟩, "!"⟩, ⟨⟨1, 2⟩, "界"⟩] = .ok t ∧
      (apply t).exec (TextBuffer.new "a😀c") = some (.ok a, b') ∧ b'.text = "a界c!".toList ∧
      ∃ a₂ b₂, (apply a.inverse).exec b' = some (.ok a₂, b₂) ∧ b₂.text = "a😀c".toList := by
  have ht : EditTransaction.new .initial [⟨⟨3, 3⟩, "!"⟩, ⟨⟨1, 2⟩, "界"⟩] =
      .ok ⟨.initial, [⟨⟨1, 2⟩, "界"⟩, ⟨⟨3, 3⟩, "!"⟩]⟩ := rfl
  have hruns : ((apply ⟨.initial, [⟨⟨1, 2⟩, "界"⟩, ⟨⟨3, 3⟩, "!"⟩]⟩).exec
      (TextBuffer.new "a😀c")).any fun r =>
        r.1.toBool ∧ r.2.text = "a界c!".toList ∧ r.2.revision.value ≠ -1 := by
    decide
  obtain ⟨⟨r, b'⟩, hx, hend⟩ := (Option.any_eq_true _ _).mp hruns
  obtain ⟨hok, htext, hmax⟩ := of_decide_eq_true hend
  cases r with
  | error e => cases hok
  | ok a =>
    obtain ⟨-, hlaw⟩ := edit_law (TextBuffer.new "a😀c") .initial [⟨⟨3, 3⟩, "!"⟩, ⟨⟨1, 2⟩, "界"⟩]
    obtain ⟨-, -, hback⟩ := (hlaw _ ht).1 a b' hx
    exact ⟨_, a, b', ht, hx, htext, hback hmax⟩

/-- A buffer after an edit. -/
def step (b : TextBuffer) (t : EditTransaction) : Option TextBuffer :=
  match (apply t).exec b with
  | some (.ok _, b') => some b'
  | _ => none

/-- Edits that replace nothing lead to every revision. -/
theorem reaches (n : Nat) (hn : n < 2 ^ 64) :
    ∃ (ts : List EditTransaction) (b : TextBuffer),
      ts.foldlM step (TextBuffer.new "") = some b ∧ b.revision.value.toNat = n := by
  induction n with
  | zero => exact ⟨[], _, rfl, rfl⟩
  | succ n ih =>
    obtain ⟨ts, b, hts, hb⟩ := ih (by omega)
    have hmax : b.revision.value ≠ -1 := by
      rintro heq
      rw [heq] at hb
      have : (-1 : UInt64).toNat = 2 ^ 64 - 1 := rfl
      omega
    obtain ⟨a, b', hx, he⟩ := apply_ok (t := ⟨b.revision, []⟩) rfl
      ⟨rfl, hmax, fun _ h => absurd h List.not_mem_nil⟩
    refine ⟨ts ++ [⟨b.revision, []⟩], b', ?_, ?_⟩
    · rw [List.foldlM_append, hts]
      simp [step, hx]
    · have hnext := he.next
      rw [Revision.next, if_neg hmax, Except.ok.injEq] at hnext
      rw [← hnext, UInt64.toNat_add, hb]
      exact Nat.mod_eq_of_lt hn

/-- At the last revision the current one is refused. And a transaction that was not built by `new`
may overlap, which makes the writes panic. -/
theorem exhausted_refuses :
    (∃ (ts : List EditTransaction) (b : TextBuffer), ts.foldlM step (TextBuffer.new "") = some b ∧
      (apply ⟨b.revision, []⟩).exec b = some (.error .revisionExhausted, b)) ∧
    (apply ⟨.initial, [⟨⟨0, 2⟩, ""⟩, ⟨⟨1, 3⟩, ""⟩]⟩).exec (TextBuffer.new "abc") = none := by
  refine ⟨?_, by decide⟩
  obtain ⟨ts, b, hts, hb⟩ := reaches (2 ^ 64 - 1) (by decide)
  have hlast : b.revision.value = -1 := UInt64.toNat_inj.mp hb
  refine ⟨ts, b, hts, ?_⟩
  obtain ⟨text, ⟨value⟩, lineEnding⟩ := b
  cases hlast
  rfl

end TextBuffer
end Strukt
