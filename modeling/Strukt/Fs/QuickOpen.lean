import Strukt.Bytes
import Strukt.Fs.Discovery
import Strukt.Lib.Subsequence

/-!
# Quick open

`quickOpenCandidates` ranks the discovered files whose path has the characters of the query in their
order.

* **Score** (`subsequenceScore_isScore`): the scan for the next character of the query finds an
  embedding where there is one, and none has fewer bytes before and between its characters.
* **Ranking** (`quick_open_law`): the candidates are the first of the matching files by score and
  path.
-/

namespace Strukt.Fs

structure QuickOpenCandidate where
  relativePath : PathBuf
  score : Nat
  deriving DecidableEq

/-- The texts of paths. -/
structure PathText where
  toStringLossy : PathBuf → List Char
  toLowercase : List Char → List Char

/-- The loop of `subsequence_score`, with what is left of the candidate from `next_index` on. -/
def scoreLoop (candidate : List Char) (score : Nat) : List Char → Option Nat
  | [] => some score
  | queryChar :: query =>
    if queryChar ∈ candidate then
      let offset := byteLen (candidate.takeWhile (· ≠ queryChar))
      scoreLoop (candidate.dropWhile (· ≠ queryChar)).tail (score + offset) query
    else none

def subsequenceScore (candidate query : List Char) : Option Nat :=
  if query.isEmpty then some (byteLen candidate) else scoreLoop candidate 0 query

/-- The order of candidates: by score, then by path. -/
def QuickOpenCandidate.key (c : QuickOpenCandidate) : Nat ×ₗ List (Nat ×ₗ List Nat) :=
  toLex (c.score, c.relativePath.key)

section

variable (text : PathText) (entries : List FileEntry) (query : List Char) (maxResults : Nat)
  (includeIgnored : Bool)

/-- The candidate of an entry, if it is a file that may be offered and matches. -/
def candidateOf (query : List Char) (entry : FileEntry) : Option QuickOpenCandidate :=
  if entry.kind = .file ∧ (includeIgnored || !entry.ignored) = true then
    let path := text.toLowercase (text.toStringLossy entry.relativePath)
    (subsequenceScore path query).map fun score => ⟨entry.relativePath, score⟩
  else none

def quickOpenCandidatesWithIgnored : List QuickOpenCandidate :=
  let query := text.toLowercase query
  let candidates := entries.filterMap (candidateOf text includeIgnored query)
  (candidates.insertionSort fun left right => left.key ≤ right.key).take maxResults

def quickOpenCandidates : List QuickOpenCandidate :=
  quickOpenCandidatesWithIgnored text entries query maxResults true

end

/-! ## The score -/

/-- The bytes of the gaps of an embedding. -/
def gapBytes (gaps : List (List Char)) : Nat := gapWeight Char.utf8Size gaps

variable {candidate query : List Char} {score : Nat}

theorem scoreLoop_eq :
    scoreLoop candidate score query = (greedy query candidate).map (score + gapBytes ·) := by
  induction query generalizing candidate score with
  | nil => rfl
  | cons queryChar query ih =>
    rw [scoreLoop, greedy]
    split
    · rw [ih, Option.map_map]
      refine Option.map_congr fun gaps _ => ?_
      rw [Function.comp_apply, gapBytes, gapBytes, gapWeight_cons, ← Nat.add_assoc]
      rfl
    · rfl

theorem subsequenceScore_of_ne_nil (h : query ≠ []) :
    subsequenceScore candidate query = (greedy query candidate).map gapBytes := by
  rw [subsequenceScore, if_neg (by simpa using h), scoreLoop_eq]
  simp only [Nat.zero_add]

theorem subsequenceScore_isSome_iff :
    (subsequenceScore candidate query).isSome ↔ query.Sublist candidate := by
  by_cases h : query = []
  · subst h
    exact iff_of_true rfl (List.nil_sublist _)
  · rw [subsequenceScore_of_ne_nil h, Option.isSome_map, greedy_isSome_iff]

/-- What the score is to be: the least number of bytes that an embedding skips, and for an empty
query the length of the path. -/
def IsScore (candidate query : List Char) (score : Nat) : Prop :=
  if query = [] then score = byteLen candidate
  else IsLeast {n | ∃ gaps, Embeds gaps query candidate ∧ n = gapBytes gaps} score

theorem subsequenceScore_isScore (hs : subsequenceScore candidate query = some score) :
    IsScore candidate query score := by
  rw [IsScore]
  split
  · rename_i h
    subst h
    exact (Option.some.inj hs).symm
  rename_i h
  rw [subsequenceScore_of_ne_nil h] at hs
  obtain ⟨gaps, hgaps, rfl⟩ := Option.map_eq_some_iff.mp hs
  refine ⟨⟨gaps, greedy_embeds hgaps, rfl⟩, ?_⟩
  rintro _ ⟨other, hother, rfl⟩
  obtain ⟨first, hfirst, hle⟩ := greedy_weight_le Char.utf8Size hother
  rw [hgaps] at hfirst
  cases hfirst
  exact hle

/-! ## The ranking -/

/-- The first elements of a sorted list: the rest is not before them. -/
theorem take_insertionSort {α κ : Type} [LinearOrder κ] (key : α → κ) (l : List α) (n : Nat) :
    let sorted := l.insertionSort fun a b => key a ≤ key b
    ∃ omitted, (sorted.take n ++ omitted).Perm l ∧
      (sorted.take n).Pairwise (fun a b => key a ≤ key b) ∧
      (∀ a ∈ sorted.take n, ∀ b ∈ omitted, key a ≤ key b) ∧
      (sorted.take n).length = min n l.length := by
  intro sorted
  have hperm : sorted.Perm l := List.perm_insertionSort _ l
  have hsorted : sorted.Pairwise fun a b => key a ≤ key b := List.pairwise_insertionSort _ l
  have hcut := List.take_append_drop n sorted
  rw [← hcut, List.pairwise_append] at hsorted
  refine ⟨sorted.drop n, ?_, hsorted.1, hsorted.2.2, ?_⟩
  · rw [hcut]
    exact hperm
  · rw [List.length_take, hperm.length_eq]

/-- The files that a query finds. -/
def matchingFiles (text : PathText) (includeIgnored : Bool) (query : List Char)
    (entries : List FileEntry) : List FileEntry :=
  entries.filter fun entry => entry.kind = .file ∧ (includeIgnored = true ∨ entry.ignored = false) ∧
    (text.toLowercase query).Sublist (text.toLowercase (text.toStringLossy entry.relativePath))

/-- A candidate for a file. -/
structure Ranked (text : PathText) (query : List Char) (entry : FileEntry)
    (c : QuickOpenCandidate) : Prop where
  relativePath : c.relativePath = entry.relativePath
  score : IsScore (text.toLowercase (text.toStringLossy entry.relativePath))
    (text.toLowercase query) c.score

section Law

variable {text : PathText} {includeIgnored : Bool}

theorem candidateOf_none {entry : FileEntry}
    (h : ¬(entry.kind = .file ∧ (includeIgnored = true ∨ entry.ignored = false) ∧
      query.Sublist (text.toLowercase (text.toStringLossy entry.relativePath)))) :
    candidateOf text includeIgnored query entry = none := by
  rw [candidateOf]
  split
  · rename_i hoffered
    rw [Option.map_eq_none_iff, ← Option.not_isSome_iff_eq_none, subsequenceScore_isSome_iff]
    exact fun hsub => h ⟨hoffered.1, by simpa using hoffered.2, hsub⟩
  · rfl

theorem candidateOf_some {entry : FileEntry}
    (h : entry.kind = .file ∧ (includeIgnored = true ∨ entry.ignored = false) ∧
      (text.toLowercase query).Sublist
        (text.toLowercase (text.toStringLossy entry.relativePath))) :
    ∃ c, candidateOf text includeIgnored (text.toLowercase query) entry = some c ∧
      Ranked text query entry c := by
  obtain ⟨hkind, hoffered, hsub⟩ := h
  obtain ⟨score, hscore⟩ :=
    Option.isSome_iff_exists.mp (subsequenceScore_isSome_iff.mpr hsub)
  refine ⟨⟨entry.relativePath, score⟩, ?_, rfl, subsequenceScore_isScore hscore⟩
  rw [candidateOf, if_pos ⟨hkind, by simpa using hoffered⟩]
  exact congrArg (Option.map _) hscore

/-- The candidates are those of the matching files. -/
theorem candidates_ranked (entries : List FileEntry) :
    List.Forall₂ (Ranked text query) (matchingFiles text includeIgnored query entries)
      (entries.filterMap (candidateOf text includeIgnored (text.toLowercase query))) := by
  induction entries with
  | nil => exact .nil
  | cons entry entries ih =>
    rw [matchingFiles, List.filter_cons]
    split
    · rename_i h
      obtain ⟨c, hc, hranked⟩ := candidateOf_some (of_decide_eq_true h)
      rw [List.filterMap_cons_some hc]
      exact .cons hranked ih
    · rename_i h
      rw [List.filterMap_cons_none (candidateOf_none fun hm => h (decide_eq_true hm))]
      exact ih

/-- The score is that of the best embedding, and the candidates are the first of the matching files
by score and path. -/
theorem quick_open_law (text : PathText) (entries : List FileEntry) (query : List Char)
    (maxResults : Nat) (includeIgnored : Bool) :
    let result := quickOpenCandidatesWithIgnored text entries query maxResults includeIgnored
    (∀ candidate query, (subsequenceScore candidate query).isSome ↔ query.Sublist candidate) ∧
      (∀ candidate query score, subsequenceScore candidate query = some score →
        IsScore candidate query score) ∧
      ∃ matching omitted,
        List.Forall₂ (Ranked text query) (matchingFiles text includeIgnored query entries)
            matching ∧
          (result ++ omitted).Perm matching ∧
          result.Pairwise (fun a b => a.key ≤ b.key) ∧
          (∀ a ∈ result, ∀ b ∈ omitted, a.key ≤ b.key) ∧
          result.length = min maxResults matching.length := by
  obtain ⟨omitted, h⟩ := take_insertionSort QuickOpenCandidate.key
    (entries.filterMap (candidateOf text includeIgnored (text.toLowercase query))) maxResults
  exact ⟨fun _ _ => subsequenceScore_isSome_iff, fun _ _ _ => subsequenceScore_isScore,
    _, omitted, candidates_ranked entries, h⟩

end Law

end Strukt.Fs
