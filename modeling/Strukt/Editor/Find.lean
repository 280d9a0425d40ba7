import Strukt.Bytes
import Strukt.Editor.BufferSpec
import Strukt.Lib.Leftmost

/-!
# Find and replace

* **The regex crate** is a parameter (`RegexCrate`). It is documented to find the leftmost matches,
  each behind the one before it (`RegexCrate.Documented`); an escaped text matches itself, up to the
  case of its letters. So is `isAlphanumeric`, the standard library's table of characters.
* **Whole words**: `findAll` asks for the boundaries of a word after the matches were found, so that
  a match which is no word may hide one that begins inside of it (`Hidden`).
* **The law** (`find_law`): the matches of a literal are in order, apart, and occurrences; nothing
  is missed but what is hidden; and `replaceAll` replaces these matches.
-/

namespace Strukt

structure FindOptions where
  caseSensitive : Bool
  wholeWord : Bool
  regex : Bool
  deriving DecidableEq

inductive FindError where
  | invalidRegex (error : String)
  | noMatches
  | transaction (e : TransactionError)
  deriving DecidableEq

/-! ## The regex crate -/

/-- `regex::Match`: the bytes of a match. -/
structure RegexMatch where
  start : Nat
  stop : Nat
  deriving DecidableEq

/-- `regex::Captures`: the whole match, and a replacement text with what was captured put in. -/
structure Captures where
  whole : Option RegexMatch
  expand : String → String

structure Regex where
  findIter : String → List RegexMatch
  capturesIter : String → List Captures

/-- `regex::escape`, and a regex built from its source, with or without regard to case. -/
structure RegexCrate where
  escape : String → String
  build : String → Bool → Except String Regex

/-- Two characters match: they are one, or one up to case. -/
def sameChar (folds : Char → Char → Bool) (caseInsensitive : Bool) (a b : Char) : Bool :=
  if caseInsensitive then folds a b else a = b

/-- The pattern is in the text at a character. -/
def occursAt (same : Char → Char → Bool) (pattern text : List Char) (s : Nat) : Bool :=
  s + pattern.length ≤ text.length && (pattern.zip (text.drop s)).all fun (a, b) => same a b

/-- The match of `length` characters. -/
def RegexMatch.of (text : List Char) (length s : Nat) : RegexMatch :=
  ⟨column Char.utf8Size text s, column Char.utf8Size text (s + length)⟩

/-- The documented behaviour of the crate. -/
structure RegexCrate.Documented (crate : RegexCrate) (folds : Char → Char → Bool) : Prop where
  literal : ∀ pattern caseInsensitive regex,
    crate.build (crate.escape pattern) caseInsensitive = .ok regex → ∀ text : String,
      ∃ picks, Leftmost
          (occursAt (sameChar folds caseInsensitive) pattern.toList text.toList · = true)
          pattern.toList.length 0 picks ∧
        regex.findIter text = picks.map (.of text.toList pattern.toList.length)
  captures : ∀ source caseInsensitive regex, crate.build source caseInsensitive = .ok regex →
    ∀ text, (regex.capturesIter text).map (·.whole) = (regex.findIter text).map some

/-! ## The queries -/

structure FindQuery where
  regex : Regex
  wholeWord : Bool

structure FindMatch where
  range : CharRange
  deriving DecidableEq

/-- The `matches`. -/
structure FindResult where
  found : List FindMatch
  deriving DecidableEq

def byteToChar (text : List Char) (byte : Nat) : Nat := (takeBytes byte text).length

def isWord (isAlphanumeric : Char → Bool) (character : Char) : Bool :=
  isAlphanumeric character || character = '_'

def hasWordBoundaries (isAlphanumeric : Char → Bool) (text : List Char) (start stop : Nat) : Bool :=
  let before := (takeBytes start text).getLast?
  let after := (text.drop (takeBytes stop text).length).head?
  !before.any (isWord isAlphanumeric) && !after.any (isWord isAlphanumeric)

namespace FindQuery

def new (crate : RegexCrate) (pattern : String) (options : FindOptions) :
    Except FindError FindQuery := do
  let source := if options.regex then pattern else crate.escape pattern
  let regex ← (crate.build source (!options.caseSensitive)).mapError .invalidRegex
  return ⟨regex, options.wholeWord⟩

/-- The characters of a match. -/
def charRange (text : List Char) (found : RegexMatch) : CharRange :=
  ⟨byteToChar text found.start, byteToChar text found.stop⟩

def findAll (query : FindQuery) (isAlphanumeric : Char → Bool) (text : String) : FindResult :=
  let found := (query.regex.findIter text).filter fun found =>
    !query.wholeWord || hasWordBoundaries isAlphanumeric text.toList found.start found.stop
  ⟨found.map fun found => ⟨charRange text.toList found⟩⟩

/-- The body of the loop of `replace_all`. -/
def replacementOf (query : FindQuery) (isAlphanumeric : Char → Bool) (text replacement : String)
    (captures : Captures) : Option Replacement :=
  match captures.whole with
  | none => none
  | some found =>
    if query.wholeWord &&
        !hasWordBoundaries isAlphanumeric text.toList found.start found.stop then none
    else some ⟨charRange text.toList found, captures.expand replacement⟩

def replaceAll (query : FindQuery) (isAlphanumeric : Char → Bool) (revision : Revision)
    (text replacement : String) : Except FindError EditTransaction :=
  let replacements := (query.regex.capturesIter text).filterMap
    (query.replacementOf isAlphanumeric text replacement)
  if replacements.isEmpty then .error .noMatches
  else (EditTransaction.new revision replacements).mapError .transaction

end FindQuery

/-! ## Occurrences -/

/-- No letter stands before the characters from `s` to `stop`, and none behind them. -/
def WordBounded (isAlphanumeric : Char → Bool) (text : List Char) (s stop : Nat) : Bool :=
  !(text.take s).getLast?.any (isWord isAlphanumeric) &&
    !(text.drop stop).head?.any (isWord isAlphanumeric)

/-- The occurrences of the pattern. -/
def Occurs (folds : Char → Char → Bool) (pattern : String) (options : FindOptions) (text : String)
    (s : Nat) : Prop :=
  occursAt (sameChar folds (!options.caseSensitive)) pattern.toList text.toList s = true

/-- The occurrences that satisfy the options. -/
def Admitted (isAlphanumeric : Char → Bool) (folds : Char → Char → Bool) (pattern : String)
    (options : FindOptions) (text : String) (s : Nat) : Prop :=
  Occurs folds pattern options text s ∧ (options.wholeWord = true →
    WordBounded isAlphanumeric text.toList s (s + pattern.toList.length) = true)

/-- One of them begins inside of a leftmost occurrence that does not satisfy the options, and is
apart from each that does. -/
def Hidden (isAlphanumeric : Char → Bool) (folds : Char → Char → Bool) (pattern : String)
    (options : FindOptions) (text : String) : Prop :=
  ∃ picks s, Leftmost (Occurs folds pattern options text) pattern.toList.length 0 picks ∧
    Admitted isAlphanumeric folds pattern options text s ∧
    (∃ r ∈ picks, ¬Admitted isAlphanumeric folds pattern options text r ∧ r < s ∧
      s < r + pattern.toList.length) ∧
    ∀ t ∈ picks, Admitted isAlphanumeric folds pattern options text t →
      t + pattern.toList.length ≤ s ∨ s + pattern.toList.length ≤ t

theorem le_length_of_occursAt {same : Char → Char → Bool} {pattern text : List Char} {s : Nat}
    (h : occursAt same pattern text s = true) : s + pattern.length ≤ text.length := by
  unfold occursAt at h
  exact of_decide_eq_true (Bool.and_eq_true_iff.mp h).1

theorem byteToChar_column {text : List Char} {n : Nat} (hn : n ≤ text.length) :
    byteToChar text (column Char.utf8Size text n) = n := by
  rw [byteToChar, takeBytes_column, List.length_take_of_le hn]

theorem hasWordBoundaries_column (isAlphanumeric : Char → Bool) {text : List Char} {s stop : Nat}
    (hstop : stop ≤ text.length) :
    hasWordBoundaries isAlphanumeric text (column Char.utf8Size text s)
      (column Char.utf8Size text stop) = WordBounded isAlphanumeric text s stop := by
  unfold hasWordBoundaries WordBounded
  rw [takeBytes_column, takeBytes_column, List.length_take_of_le hstop]

/-! ## The law -/

namespace FindQuery

variable {crate : RegexCrate} {folds : Char → Char → Bool} {isAlphanumeric : Char → Bool}
  {pattern text : String} {options : FindOptions} {query : FindQuery}

theorem built_of_new (h : new crate pattern options = .ok query)
    (hliteral : options.regex = false) :
    crate.build (crate.escape pattern) (!options.caseSensitive) = .ok query.regex ∧
      query.wholeWord = options.wholeWord := by
  unfold new at h
  rw [hliteral] at h
  dsimp only at h
  cases hbuild : crate.build (crate.escape pattern) (!options.caseSensitive) with
  | error e =>
    rw [if_neg Bool.false_ne_true, hbuild] at h
    cases h
  | ok regex =>
    rw [if_neg Bool.false_ne_true, hbuild] at h
    cases h
    exact ⟨rfl, rfl⟩

/-- What is found is what was picked and satisfies the options. -/
theorem findAll_spec (hcrate : crate.Documented folds) (hliteral : options.regex = false)
    (hnew : new crate pattern options = .ok query) (isAlphanumeric : Char → Bool) (text : String) :
    ∃ (picks accepted : List Nat),
      Leftmost (Occurs folds pattern options text) pattern.toList.length 0 picks ∧
      (query.findAll isAlphanumeric text).found =
        accepted.map (fun s => ⟨⟨s, s + pattern.toList.length⟩⟩) ∧
      accepted.Sublist picks ∧
      ∀ s, s ∈ accepted ↔ s ∈ picks ∧ Admitted isAlphanumeric folds pattern options text s := by
  obtain ⟨hbuild, hword⟩ := built_of_new hnew hliteral
  obtain ⟨picks, hpicks, hfind⟩ := hcrate.literal _ _ _ hbuild text
  have hle : ∀ s ∈ picks, s + pattern.toList.length ≤ text.toList.length := fun s hs =>
    le_length_of_occursAt (hpicks.occurs_of_mem s hs)
  have hbounds : ∀ s ∈ picks, hasWordBoundaries isAlphanumeric text.toList
      (RegexMatch.of text.toList pattern.toList.length s).start
      (RegexMatch.of text.toList pattern.toList.length s).stop =
      WordBounded isAlphanumeric text.toList s (s + pattern.toList.length) := fun s hs =>
    hasWordBoundaries_column isAlphanumeric (hle s hs)
  refine ⟨picks, picks.filter fun s => !options.wholeWord ||
    WordBounded isAlphanumeric text.toList s (s + pattern.toList.length), hpicks, ?_,
    List.filter_sublist, fun s => ?_⟩
  · unfold findAll
    dsimp only
    rw [hfind, hword, List.filter_map, List.map_map, List.filter_congr fun s hs => by
      rw [Function.comp_apply, hbounds s hs]]
    refine List.map_congr_left fun s hs => ?_
    have hs := hle s (List.mem_of_mem_filter hs)
    rw [Function.comp_apply, charRange, RegexMatch.of, byteToChar_column (by omega),
      byteToChar_column hs]
  · rw [List.mem_filter]
    refine and_congr_right fun hs => ?_
    rw [Admitted, and_iff_right (show Occurs folds pattern options text s from
      hpicks.occurs_of_mem s hs)]
    cases options.wholeWord <;> simp

/-- Both loops go over the same matches. -/
theorem ranges_of_captures (captures : List Captures) (found : List RegexMatch)
    (h : captures.map (·.whole) = found.map some) (replacement : String) :
    (captures.filterMap (query.replacementOf isAlphanumeric text replacement)).map (·.range) =
      (found.filter fun found => !query.wholeWord ||
        hasWordBoundaries isAlphanumeric text.toList found.start found.stop).map
          (charRange text.toList) := by
  induction captures generalizing found with
  | nil =>
    rw [List.map_nil, eq_comm, List.map_eq_nil_iff] at h
    rw [h]
    rfl
  | cons capture captures ih =>
    cases found with
    | nil => cases h
    | cons first found =>
      rw [List.map_cons, List.map_cons, List.cons_eq_cons] at h
      rw [List.filterMap_cons, List.filter_cons, replacementOf, h.1]
      dsimp only
      cases hbad : query.wholeWord &&
          !hasWordBoundaries isAlphanumeric text.toList first.start first.stop with
      | true =>
        rw [if_pos rfl, if_neg]
        · exact ih found h.2
        · revert hbad
          cases query.wholeWord <;> simp
      | false =>
        rw [if_neg Bool.false_ne_true, if_pos]
        · rw [List.map_cons, List.map_cons, ih found h.2]
        · revert hbad
          cases query.wholeWord <;> simp

/-- The replacements of matches that are apart make a transaction. -/
theorem replaceAll_spec {found : List RegexMatch} (hfound : query.regex.findIter text = found)
    (hcaptures : (query.regex.capturesIter text).map (·.whole) = found.map some)
    (hapart : ((query.findAll isAlphanumeric text).found).Pairwise
      fun a b => a.range.stop ≤ b.range.start)
    (hin : ∀ m ∈ (query.findAll isAlphanumeric text).found,
      m.range.start ≤ m.range.stop ∧ m.range.stop ≤ text.toList.length)
    (hsome : (query.findAll isAlphanumeric text).found ≠ []) (revision : Revision)
    (replacement : String) :
    ∃ t, query.replaceAll isAlphanumeric revision text replacement = .ok t ∧
      t.expectedRevision = revision ∧
      t.replacements.map (·.range) = (query.findAll isAlphanumeric text).found.map (·.range) ∧
      Splice.Ordered text.toList.length 0 t.splices := by
  have hranges : ((query.regex.capturesIter text).filterMap
      (query.replacementOf isAlphanumeric text replacement)).map (·.range) =
      (query.findAll isAlphanumeric text).found.map (·.range) := by
    rw [ranges_of_captures _ found hcaptures, findAll, hfound, List.map_map]
    rfl
  have hordered : Splice.Ordered text.toList.length 0 (((query.regex.capturesIter text).filterMap
      (query.replacementOf isAlphanumeric text replacement)).map (·.toSplice)) := by
    rw [EditTransaction.ordered_zero_iff]
    constructor
    · have hpairwise : ((query.findAll isAlphanumeric text).found.map (·.range)).Pairwise
          fun a b => a.stop ≤ b.start := List.pairwise_map.mpr hapart
      rw [← hranges] at hpairwise
      exact EditTransaction.overlaps_of_pairwise (List.pairwise_map.mp hpairwise)
    · intro r hr
      have hmem : r.range ∈ _ := List.mem_map_of_mem hr
      rw [hranges] at hmem
      obtain ⟨m, hm, heq⟩ := List.mem_map.mp hmem
      unfold Replacement.Within
      rw [← heq]
      exact hin m hm
  refine ⟨⟨revision, _⟩, ?_, rfl, hranges, hordered⟩
  unfold replaceAll
  dsimp only
  rw [if_neg, EditTransaction.new_of_ordered hordered]
  · rfl
  · rw [List.isEmpty_iff]
    intro hnil
    rw [hnil, List.map_nil, eq_comm, List.map_eq_nil_iff] at hranges
    exact hsome hranges

theorem replaceAll_none (hcaptures : (query.regex.capturesIter text).map (·.whole) =
    (query.regex.findIter text).map some) (hnone : (query.findAll isAlphanumeric text).found = [])
    (revision : Revision) (replacement : String) :
    query.replaceAll isAlphanumeric revision text replacement = .error .noMatches := by
  have hranges := @ranges_of_captures isAlphanumeric text query _ _ hcaptures replacement
  rw [findAll, List.map_eq_nil_iff] at hnone
  rw [hnone, List.map_nil, List.map_eq_nil_iff] at hranges
  unfold replaceAll
  dsimp only
  rw [hranges]
  rfl

/-- What a query for a literal finds and replaces. Nothing is missed but what is hidden. -/
theorem find_law (hcrate : crate.Documented folds) (hliteral : options.regex = false)
    (hnew : new crate pattern options = .ok query) (isAlphanumeric : Char → Bool) (text : String) :
    ((query.findAll isAlphanumeric text).found.Pairwise fun a b =>
      a.range.start < b.range.start ∧ a.range.stop ≤ b.range.start) ∧
    (∀ m ∈ (query.findAll isAlphanumeric text).found, ∃ s,
      Admitted isAlphanumeric folds pattern options text s ∧
        m.range = ⟨s, s + pattern.toList.length⟩) ∧
    ((∀ s, Admitted isAlphanumeric folds pattern options text s →
      ⟨⟨s, s + pattern.toList.length⟩⟩ ∈ (query.findAll isAlphanumeric text).found ∨
        ∃ m ∈ (query.findAll isAlphanumeric text).found,
          m.range.start < s + pattern.toList.length ∧ s < m.range.stop) ↔
      ¬Hidden isAlphanumeric folds pattern options text) ∧
    ∀ revision replacement,
      ((query.findAll isAlphanumeric text).found = [] →
        query.replaceAll isAlphanumeric revision text replacement = .error .noMatches) ∧
      ((query.findAll isAlphanumeric text).found ≠ [] →
        ∃ t, query.replaceAll isAlphanumeric revision text replacement = .ok t ∧
          t.replacements.map (·.range) =
            (query.findAll isAlphanumeric text).found.map (·.range) ∧
          ∀ b : TextBuffer, b.text = text.toList → b.revision = revision → revision.value ≠ -1 →
            ∃ a b', (TextBuffer.apply t).exec b = some (.ok a, b') ∧
              b'.text = Splice.simultaneous t.splices b.text) := by
  obtain ⟨picks, accepted, hpicks, hmatches, hsub, hmem⟩ :=
    findAll_spec hcrate hliteral hnew isAlphanumeric text
  have hpairwise : (query.findAll isAlphanumeric text).found.Pairwise fun a b =>
      a.range.start < b.range.start ∧ a.range.stop ≤ b.range.start := by
    rw [hmatches, List.pairwise_map]
    exact (hpicks.apart.sublist hsub).imp fun hst => by dsimp only; omega
  refine ⟨hpairwise, fun m hm => ?_, ⟨?_, ?_⟩, fun revision replacement => ⟨fun hnone => ?_,
    fun hsome => ?_⟩⟩
  · rw [hmatches] at hm
    obtain ⟨s, hs, rfl⟩ := List.mem_map.mp hm
    exact ⟨s, ((hmem s).mp hs).2, rfl⟩
  · rintro hshown ⟨picks', s, hpicks', hs, ⟨r, hr, hrejected, hrs, hsr⟩, hapart⟩
    obtain rfl := hpicks.unique hpicks'
    obtain hin | ⟨m, hm, hover⟩ := hshown s hs
    · rw [hmatches] at hin
      obtain ⟨t, ht, heq⟩ := List.mem_map.mp hin
      obtain rfl : t = s := congrArg (·.range.start) heq
      have := hapart t ((hmem t).mp ht).1 hs
      omega
    · rw [hmatches] at hm
      obtain ⟨t, ht, rfl⟩ := List.mem_map.mp hm
      have := hapart t ((hmem t).mp ht).1 ((hmem t).mp ht).2
      dsimp only at hover
      omega
  · intro hnot s hs
    rw [hmatches]
    obtain hin | ⟨r, hr, hrs, hsr⟩ := hpicks.complete hs.1 (Nat.zero_le s)
    · exact .inl (List.mem_map.mpr ⟨s, (hmem s).mpr ⟨hin, hs⟩, rfl⟩)
    · refine .inr (by_contra fun hno => hnot ⟨picks, s, hpicks, hs, ⟨r, hr, fun hadmitted => ?_,
        hrs, hsr⟩, fun t ht hadmitted => ?_⟩)
      · exact hno ⟨_, List.mem_map_of_mem ((hmem r).mpr ⟨hr, hadmitted⟩), by dsimp only; omega, hsr⟩
      · by_contra hover
        exact hno ⟨_, List.mem_map_of_mem ((hmem t).mpr ⟨ht, hadmitted⟩), by dsimp only; omega,
          by dsimp only; omega⟩
  · exact replaceAll_none (hcrate.captures _ _ _ (built_of_new hnew hliteral).1 text) hnone ..
  · have hin : ∀ m ∈ (query.findAll isAlphanumeric text).found,
        m.range.start ≤ m.range.stop ∧ m.range.stop ≤ text.toList.length := by
      intro m hm
      rw [hmatches] at hm
      obtain ⟨s, hs, rfl⟩ := List.mem_map.mp hm
      exact ⟨Nat.le_add_right .., le_length_of_occursAt ((hmem s).mp hs).2.1⟩
    obtain ⟨t, ht, hrevision, hranges, hordered⟩ := replaceAll_spec rfl
      (hcrate.captures _ _ _ (built_of_new hnew hliteral).1 text)
      (hpairwise.imp fun h => h.2) hin hsome revision replacement
    refine ⟨t, ht, hranges, fun b hb hrev hmax => ?_⟩
    obtain ⟨hover, hwithin⟩ := EditTransaction.ordered_zero_iff.mp hordered
    obtain ⟨a, b', hx, he⟩ := TextBuffer.apply_ok (b := b) hover
      ⟨hrevision.trans hrev.symm, hrev ▸ hmax, hb ▸ hwithin⟩
    exact ⟨a, b', hx, he.text.trans (Splice.spliceAll_eq_simultaneous he.ordered)⟩

end FindQuery

/-! ## Texts to find -/

/-- A crate that takes each source for the text that it is. -/
def RegexCrate.literals (folds : Char → Char → Bool) : RegexCrate where
  escape pattern := pattern
  build source caseInsensitive :=
    let findIter (text : String) : List RegexMatch :=
      (leftmost (occursAt (sameChar folds caseInsensitive) source.toList text.toList)
        source.toList.length 0 0 (text.toList.length + 1)).map
          (.of text.toList source.toList.length)
    .ok ⟨findIter, fun text => (findIter text).map fun found => ⟨some found, id⟩⟩

theorem RegexCrate.literals_documented (folds : Char → Char → Bool) :
    (RegexCrate.literals folds).Documented folds where
  literal := by
    rintro pattern caseInsensitive regex ⟨⟩ text
    refine ⟨_, leftmost_spec _ _ 0 0 fun t ht hocc => ?_, rfl⟩
    have := le_length_of_occursAt hocc
    omega
  captures := by
    rintro source caseInsensitive regex ⟨⟩ text
    rw [List.map_map]
    rfl

namespace FindQuery

/-- What letters are without their case, and a whole word. -/
theorem find_law_words :
    ∃ query, new (.literals fun a b => a.toLower = b.toLower) "cat" ⟨false, true, false⟩ =
        .ok query ∧
      (query.findAll Char.isAlphanum "Cat scatter cat").found = [⟨⟨0, 3⟩⟩, ⟨⟨12, 15⟩⟩] ∧
      ∃ t, query.replaceAll Char.isAlphanum .initial "Cat scatter cat" "dog" = .ok t ∧
        t.replacements.map (·.range) = [⟨0, 3⟩, ⟨12, 15⟩] := by
  refine ⟨_, rfl, by decide, ?_⟩
  have hnew : new (.literals fun a b => a.toLower = b.toLower) "cat" ⟨false, true, false⟩ =
      .ok _ := rfl
  obtain ⟨-, -, -, hreplace⟩ := find_law (RegexCrate.literals_documented _) rfl hnew
    Char.isAlphanum "Cat scatter cat"
  obtain ⟨t, ht, hranges, -⟩ := (hreplace .initial "dog").2 (by decide)
  refine ⟨t, ht, hranges.trans ?_⟩
  decide

/-- The word behind the first three letters is missed: the match at the second one is no word, and
takes up the character at which the word begins. -/
theorem word_behind_match : ¬ ∀ (crate : RegexCrate) (folds : Char → Char → Bool),
    crate.Documented folds → ∀ pattern options query, options.regex = false →
      new crate pattern options = .ok query → ∀ (isAlphanumeric : Char → Bool) text s,
      Admitted isAlphanumeric folds pattern options text s →
        ⟨⟨s, s + pattern.toList.length⟩⟩ ∈ (query.findAll isAlphanumeric text).found ∨
          ∃ m ∈ (query.findAll isAlphanumeric text).found,
            m.range.start < s + pattern.toList.length ∧ s < m.range.stop := by
  intro h
  have hfound := h (.literals fun a b => a = b) (fun a b => a = b)
    (RegexCrate.literals_documented _) "a-a" ⟨true, true, false⟩ _ rfl rfl Char.isAlphanum
    "xa-a-a" 3
    ⟨show occursAt _ _ _ _ = true by decide, fun _ => by decide⟩
  revert hfound
  decide

end FindQuery
end Strukt
