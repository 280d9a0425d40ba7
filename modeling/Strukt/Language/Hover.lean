import Strukt.Bytes
import Strukt.Lib.Split

/-!
# Hover texts

* **Passes**: what is between angle brackets goes, then links leave their labels and images
  nothing (`segments`, piece by piece), then the text is cut to a limit.
* **Links** (`HasLink`): a bracket, and behind it the end of a label and a destination.
* **The law** (`hover_law`): there is never an angle bracket left. A link is left, and taken out by
  the next pass, exactly if a label has a bracket which what remains behind it makes a link
  (`Assembled`).
-/

namespace Strukt.Language

/-- In bytes. -/
def hoverContentLimit : Nat := 256 * 1024

structure MarkupContent where
  kind : String
  value : String
  deriving DecidableEq

/-! ## The passes -/

def stripAngleBlocks : Bool → List Char → List Char
  | _, [] => []
  | inside, character :: rest =>
    if character = '<' then stripAngleBlocks true rest
    else if character = '>' ∧ inside then stripAngleBlocks false rest
    else if ¬inside then character :: stripAngleBlocks inside rest
    else stripAngleBlocks inside rest

/-- What is behind a bracket as a label, and what is behind the destination. -/
def findMarkdownDestination (remainder : List Char) : Option (List Char × List Char) := do
  let (label, destination) ← breakOn [']', '('] remainder
  let (_, rest) ← breakOn [')'] destination
  return (label, rest)

/-- What one round of the loop takes. -/
inductive Segment where
  | text (c : Char)
  | link (label : List Char)
  | image

/-- What the round leaves. -/
def Segment.kept : Segment → List Char
  | text c => [c]
  | link label => label
  | image => []

/-- The body of the loop of `strip_markdown_destinations`, with the input that it leaves. -/
def takeSegment (c : Char) (rest : List Char) : Segment × List Char :=
  if c = '!' ∧ rest.head? = some '[' then
    match findMarkdownDestination rest.tail with
    | some (_, after) => (.image, after)
    | none => (.text c, rest)
  else if c = '[' then
    match findMarkdownDestination rest with
    | some (label, after) => (.link label, after)
    | none => (.text c, rest)
  else (.text c, rest)

theorem suffix_of_findMarkdownDestination {remainder label rest : List Char}
    (h : findMarkdownDestination remainder = some (label, rest)) : rest <:+ remainder := by
  unfold findMarkdownDestination at h
  obtain ⟨⟨label', destination⟩, hlabel, h⟩ := Option.bind_eq_some_iff.mp h
  obtain ⟨⟨inner, rest'⟩, hdestination, h⟩ := Option.bind_eq_some_iff.mp h
  cases h
  rw [append_of_breakOn hlabel, append_of_breakOn hdestination]
  refine List.IsSuffix.trans ?_ (List.suffix_append _ _)
  refine List.IsSuffix.trans ?_ (List.suffix_append _ _)
  exact (List.suffix_append _ _).trans (List.suffix_append _ _)

theorem takeSegment_suffix (c : Char) (rest : List Char) : (takeSegment c rest).2 <:+ rest := by
  unfold takeSegment
  split
  · split
    · next h => exact (suffix_of_findMarkdownDestination h).trans (List.tail_suffix rest)
    · exact List.suffix_rfl
  · split
    · split
      · next h => exact suffix_of_findMarkdownDestination h
      · exact List.suffix_rfl
    · exact List.suffix_rfl

def segments : List Char → List Segment
  | [] => []
  | c :: rest => (takeSegment c rest).1 :: segments (takeSegment c rest).2
termination_by text => text.length
decreasing_by exact Nat.lt_succ_of_le (takeSegment_suffix c rest).length_le

def stripMarkdownDestinations (input : List Char) : List Char :=
  (segments input).flatMap Segment.kept

def truncateUtf8 (value : List Char) (maxBytes : Nat) : List Char :=
  if byteLen value ≤ maxBytes then value else takeBytes maxBytes value

def sanitizeHoverMarkdown (markdown : String) : MarkupContent :=
  let withoutHtml := stripAngleBlocks false markdown.toList
  let sanitized := stripMarkdownDestinations withoutHtml
  ⟨"markdown", String.ofList (truncateUtf8 sanitized hoverContentLimit)⟩

/-! ## Links -/

/-- The end of a label, and behind it the end of a destination. -/
def EndsLink (text : List Char) : Prop :=
  ∃ before destination rest, text = before ++ ([']', '('] ++ (destination ++ ([')'] ++ rest)))

/-- An inline link with a destination, or an image. -/
def HasLink (text : List Char) : Prop := ∃ before rest, text = before ++ '[' :: rest ∧ EndsLink rest

theorem EndsLink.append {text : List Char} (h : EndsLink text) (before rest : List Char) :
    EndsLink (before ++ (text ++ rest)) := by
  obtain ⟨b, d, r, rfl⟩ := h
  exact ⟨before ++ b, d, r ++ rest, by simp only [List.append_assoc]⟩

theorem HasLink.endsLink {text : List Char} (h : HasLink text) : EndsLink text := by
  obtain ⟨before, rest, rfl, hends⟩ := h
  have := hends.append (before ++ ['[']) []
  rwa [List.append_nil, List.append_assoc] at this

/-- The scanner finds a destination wherever there is one. -/
theorem findMarkdownDestination_isSome {remainder : List Char} :
    (∃ label rest, findMarkdownDestination remainder = some (label, rest)) ↔
      EndsLink remainder := by
  unfold findMarkdownDestination
  constructor
  · rintro ⟨label, rest, h⟩
    obtain ⟨⟨label', destination⟩, hlabel, h⟩ := Option.bind_eq_some_iff.mp h
    obtain ⟨⟨inner, rest'⟩, hdestination, -⟩ := Option.bind_eq_some_iff.mp h
    exact ⟨label', inner, rest', by
      rw [append_of_breakOn hlabel, append_of_breakOn hdestination]⟩
  · rintro ⟨before, destination, rest, rfl⟩
    obtain ⟨label, behind, hlabel⟩ := breakOn_isSome
      ((List.prefix_append [']', '('] (destination ++ ([')'] ++ rest))).isInfix.trans
        (List.suffix_append before _).isInfix)
    -- The first label ends no later.
    have hclose : [')'] <:+: destination ++ ([')'] ++ rest) :=
      (List.prefix_append [')'] rest).isInfix.trans (List.suffix_append destination _).isInfix
    replace hclose : [')'] <:+: behind := hclose.trans (breakOn_first hlabel rfl).isInfix
    obtain ⟨inner, after, hafter⟩ := breakOn_isSome hclose
    refine ⟨label, after, ?_⟩
    rw [hlabel, Option.bind_eq_bind, Option.bind_some]
    dsimp only
    rw [hafter]
    rfl

theorem findMarkdownDestination_eq_none {remainder : List Char} (h : ¬EndsLink remainder) :
    findMarkdownDestination remainder = none := by
  cases hfind : findMarkdownDestination remainder with
  | none => rfl
  | some found => exact absurd (findMarkdownDestination_isSome.mp ⟨found.1, found.2, hfind⟩) h

/-! ## The pieces -/

theorem takeSegment_of_not_hasLink {c : Char} {rest : List Char} (h : ¬HasLink (c :: rest)) :
    takeSegment c rest = (.text c, rest) := by
  unfold takeSegment
  split
  · next himage =>
    obtain ⟨d, rest, rfl⟩ : ∃ d l, rest = d :: l := by
      cases rest with
      | nil => cases himage.2
      | cons d l => exact ⟨d, l, rfl⟩
    obtain rfl := Option.some.inj himage.2
    rw [List.tail_cons, findMarkdownDestination_eq_none fun hends => h ⟨[c], rest, rfl, hends⟩]
  · split
    · next hc =>
      subst hc
      rw [findMarkdownDestination_eq_none fun hends => h ⟨[], rest, rfl, hends⟩]
    · rfl

/-- Without links, the pass leaves the text as it is. -/
theorem strip_of_not_hasLink {text : List Char} (h : ¬HasLink text) :
    stripMarkdownDestinations text = text := by
  unfold stripMarkdownDestinations
  induction text with
  | nil => rw [segments]; rfl
  | cons c rest ih =>
    rw [segments, takeSegment_of_not_hasLink h, List.flatMap_cons, ih]
    · rfl
    · rintro ⟨before, rest', rfl, hends⟩
      exact h ⟨c :: before, rest', rfl, hends⟩

/-- A bracket that is left as text is none of a link. -/
theorem segments_bracket {text : List Char} {before after : List Segment}
    (h : segments text = before ++ .text '[' :: after) :
    ∃ rest, after = segments rest ∧ ¬EndsLink rest := by
  induction before generalizing text with
  | nil =>
    cases text with
    | nil =>
      rw [segments] at h
      cases h
    | cons c rest =>
      rw [segments, List.nil_append, List.cons_eq_cons] at h
      obtain ⟨hseg, rfl⟩ := h
      refine ⟨_, rfl, ?_⟩
      unfold takeSegment at hseg ⊢
      split at hseg
      · next himage =>
        split at hseg
        · cases hseg
        · cases hseg
          cases himage.1
      · split at hseg
        · next himage hc =>
          split at hseg
          · cases hseg
          · next hnone =>
            rw [if_neg himage, if_pos hc]
            intro hends
            obtain ⟨label, after, hsome⟩ := findMarkdownDestination_isSome.mpr hends
            cases hnone.symm.trans hsome
        · next hc =>
          cases hseg
          exact absurd rfl hc
  | cons s before ih =>
    cases text with
    | nil =>
      rw [segments] at h
      cases h
    | cons c rest =>
      rw [segments, List.cons_append, List.cons_eq_cons] at h
      exact ih h.2

theorem exists_of_flatMap_eq {α β : Type} {f : α → List β} {l : List α} {x y : List β} {c : β}
    (h : l.flatMap f = x ++ c :: y) :
    ∃ before s after a b, l = before ++ s :: after ∧ f s = a ++ c :: b ∧
      x = before.flatMap f ++ a ∧ y = b ++ after.flatMap f := by
  induction l generalizing x with
  | nil => cases x <;> cases h
  | cons s l ih =>
    rw [List.flatMap_cons] at h
    have further {a : List β} (ha : x = f s ++ a) (hrest : l.flatMap f = a ++ c :: y) :
        ∃ before t after a b, s :: l = before ++ t :: after ∧ f t = a ++ c :: b ∧
          x = before.flatMap f ++ a ∧ y = b ++ after.flatMap f := by
      obtain ⟨before, t, after, a', b, rfl, ht, rfl, hy⟩ := ih hrest
      refine ⟨s :: before, t, after, a', b, rfl, ht, ?_, hy⟩
      rw [ha, List.flatMap_cons, List.append_assoc]
    obtain ⟨a, hx, hrest⟩ | ⟨b, hs, hrest⟩ := List.append_eq_append_iff.mp h
    · exact further hx hrest
    · cases b with
      | nil =>
        rw [List.append_nil] at hs
        exact further (by rw [hs, List.append_nil]) (List.nil_append _ ▸ hrest.symm)
      | cons d b =>
        obtain ⟨rfl, rfl⟩ := List.cons_eq_cons.mp hrest
        exact ⟨[], s, l, x, b, rfl, hs, rfl, rfl⟩

/-! ## The law -/

/-- A label has a bracket, and what the pieces leave behind it, up to the limit, makes a link of
it. -/
def Assembled (text : List Char) : Prop :=
  ∃ before after label₁ label₂,
    segments text = before ++ .link (label₁ ++ '[' :: label₂) :: after ∧
    EndsLink (takeBytes
      (hoverContentLimit - byteLen (before.flatMap Segment.kept ++ label₁ ++ ['[']))
      (label₂ ++ after.flatMap Segment.kept))

theorem hasLink_iff (text : List Char) :
    HasLink (takeBytes hoverContentLimit (stripMarkdownDestinations text)) ↔ Assembled text := by
  constructor
  · rintro ⟨x, v, hx, hends⟩
    obtain ⟨tail, htail⟩ := takeBytes_isPrefix hoverContentLimit (stripMarkdownDestinations text)
    rw [hx, List.append_assoc, List.cons_append] at htail
    obtain ⟨before, s, after, a, b, hsegments, hkept, rfl, hrest⟩ := exists_of_flatMap_eq htail.symm
    cases s with
    | image => cases a <;> cases hkept
    | text c =>
      obtain ⟨rfl, rfl, rfl⟩ : a = [] ∧ c = '[' ∧ b = [] := by
        cases a with
        | nil => exact ⟨rfl, (List.cons_eq_cons.mp hkept).1, (List.cons_eq_cons.mp hkept).2.symm⟩
        | cons d a => cases a <;> cases hkept
      obtain ⟨rest, rfl, hnot⟩ := segments_bracket hsegments
      refine absurd ?_ hnot
      have hstrip := strip_of_not_hasLink fun h => hnot h.endsLink
      rw [List.nil_append] at hrest
      have := hends.append [] tail
      rwa [List.nil_append, hrest, ← stripMarkdownDestinations, hstrip] at this
    | link label =>
      refine ⟨before, after, a, b, by rw [hsegments, ← hkept]; rfl, ?_⟩
      have hfits := byteLen_takeBytes_le hoverContentLimit (stripMarkdownDestinations text)
      rw [hx, ← List.singleton_append, ← List.append_assoc, byteLen_append] at hfits
      rw [← htail, hrest, ← List.singleton_append, ← List.append_assoc,
        takeBytes_append (by omega)] at hx
      rw [List.append_cancel_left (hx.trans (List.append_assoc _ ['['] v).symm)]
      exact hends
  · rintro ⟨before, after, a, b, hsegments, hends⟩
    have htext : stripMarkdownDestinations text =
        before.flatMap Segment.kept ++ a ++ ['['] ++ (b ++ after.flatMap Segment.kept) := by
      rw [stripMarkdownDestinations, hsegments, List.flatMap_append, List.flatMap_cons]
      simp only [Segment.kept, List.append_assoc, List.cons_append, List.nil_append]
    by_cases hfits : byteLen (before.flatMap Segment.kept ++ a ++ ['[']) ≤ hoverContentLimit
    · rw [htext, takeBytes_append hfits]
      exact ⟨_, _, List.append_assoc _ ['['] _, hends⟩
    · rw [Nat.sub_eq_zero_of_le (Nat.le_of_not_le hfits), takeBytes_zero] at hends
      obtain ⟨x, destination, rest, hnil⟩ := hends
      cases x <;> cases hnil

theorem stripAngleBlocks_not_mem (inside : Bool) (input : List Char) :
    '<' ∉ stripAngleBlocks inside input := by
  induction input generalizing inside with
  | nil => exact List.not_mem_nil
  | cons character rest ih =>
    unfold stripAngleBlocks
    split
    · exact ih true
    · next hne =>
      split
      · exact ih false
      · split
        · exact List.not_mem_cons_of_ne_of_not_mem (Ne.symm hne) (ih inside)
        · exact ih inside

theorem stripAngleBlocks_of_not_mem {input : List Char} (h : '<' ∉ input) :
    stripAngleBlocks false input = input := by
  induction input with
  | nil => rfl
  | cons character rest ih =>
    obtain ⟨hne, hrest⟩ := not_or.mp (List.mem_cons.not.mp h)
    rw [stripAngleBlocks, if_neg (Ne.symm hne), if_neg (by simp), if_pos (by simp), ih hrest]

theorem label_initial {remainder label rest : List Char}
    (h : findMarkdownDestination remainder = some (label, rest)) : label <+: remainder := by
  unfold findMarkdownDestination at h
  obtain ⟨⟨label', destination⟩, hlabel, h⟩ := Option.bind_eq_some_iff.mp h
  obtain ⟨⟨inner, rest'⟩, -, h⟩ := Option.bind_eq_some_iff.mp h
  cases h
  rw [append_of_breakOn hlabel]
  exact List.prefix_append _ _

theorem kept_subset (c : Char) (rest : List Char) : (takeSegment c rest).1.kept ⊆ c :: rest := by
  have htext : Segment.kept (.text c) ⊆ c :: rest := by
    intro d hd
    rw [List.mem_singleton.mp hd]
    exact List.mem_cons_self
  unfold takeSegment
  split
  · split
    · exact List.nil_subset _
    · exact htext
  · split
    · split
      · next h => exact List.Subset.trans (label_initial h).subset (List.subset_cons_self c rest)
      · exact htext
    · exact htext

/-- What is left is of the input. -/
theorem strip_subset (input : List Char) : stripMarkdownDestinations input ⊆ input := by
  unfold stripMarkdownDestinations
  induction input using segments.induct with
  | case1 =>
    rw [segments]
    exact List.nil_subset _
  | case2 c rest ih =>
    rw [segments, List.flatMap_cons]
    refine List.append_subset.mpr ⟨kept_subset c rest, ?_⟩
    exact List.Subset.trans ih
      (List.Subset.trans (takeSegment_suffix c rest).subset (List.subset_cons_self c rest))

theorem truncateUtf8_eq (value : List Char) (maxBytes : Nat) :
    truncateUtf8 value maxBytes = takeBytes maxBytes value := by
  unfold truncateUtf8
  split
  · next h =>
    have := takeBytes_append h []
    rw [List.append_nil] at this
    rw [this]
    cases maxBytes - byteLen value <;> exact (List.append_nil value).symm
  · rfl

/-- No angle bracket is left. What is left has no link, and is left as it is by the next pass,
unless a link was made. -/
theorem hover_law (markdown : String) :
    '<' ∉ (sanitizeHoverMarkdown markdown).value.toList ∧
    ((¬HasLink (sanitizeHoverMarkdown markdown).value.toList ∧
      sanitizeHoverMarkdown (sanitizeHoverMarkdown markdown).value =
        sanitizeHoverMarkdown markdown) ↔
      ¬Assembled (stripAngleBlocks false markdown.toList)) := by
  have hvalue : (sanitizeHoverMarkdown markdown).value.toList = takeBytes hoverContentLimit
      (stripMarkdownDestinations (stripAngleBlocks false markdown.toList)) := by
    rw [← truncateUtf8_eq]
    exact String.toList_ofList
  have hangle : '<' ∉ (sanitizeHoverMarkdown markdown).value.toList := by
    rw [hvalue]
    exact fun hmem => stripAngleBlocks_not_mem false markdown.toList
      (strip_subset _ ((takeBytes_isPrefix _ _).subset hmem))
  rw [← hasLink_iff, ← hvalue]
  refine ⟨hangle, fun h => h.1, fun hno => ⟨hno, ?_⟩⟩
  have hfits : byteLen (sanitizeHoverMarkdown markdown).value.toList ≤ hoverContentLimit := by
    rw [hvalue]
    exact byteLen_takeBytes_le ..
  unfold sanitizeHoverMarkdown at hangle hno hfits ⊢
  dsimp only at hangle hno hfits ⊢
  rw [stripAngleBlocks_of_not_mem hangle, strip_of_not_hasLink hno, truncateUtf8, if_pos hfits,
    String.ofList_toList]

/-- A label that ends like a link with the text behind it. -/
theorem nested_brackets : ¬ ∀ markdown : String,
    ¬HasLink (sanitizeHoverMarkdown markdown).value.toList := by
  intro h
  have hvalue : (sanitizeHoverMarkdown "[[a](b)](c)").value = "[a](c)" := by
    decide +kernel
  refine h "[[a](b)](c)" ?_
  rw [hvalue]
  exact ⟨[], "a](c)".toList, rfl, ['a'], ['c'], [], rfl⟩

end Strukt.Language
