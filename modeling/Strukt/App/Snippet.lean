import Mathlib

/-!
# Snippets

* **Snippets** (`Snippet`): texts, escapes, tabstops and placeholders whose defaults are snippets.
  `text` is what a server sends, `value` what the snippet stands for.
* **Flattening** (`flatten`): the scanner copies a placeholder's default as it is, up to the first
  closing brace, and does not know escapes. `scan` is the scanner at the top or in a default.
* **The law** (`flatten_law`): its output is the value, with no markup left, exactly for the
  snippets without escapes whose defaults are plain. A backslash that is left of an escape never
  gets paid back (`scan_ahead`).
-/

namespace Strukt

/-! ## The scanner -/

/-- What follows the first colon. -/
def defaultOf (inner : List Char) : List Char := (inner.dropWhile (· ≠ ':')).tail

/-- The loop of `flatten_snippet`. -/
def flatten : List Char → List Char
  | [] => []
  | c :: rest =>
    if c ≠ '$' then c :: flatten rest
    else if rest.head? = some '{' then
      if '}' ∈ rest.tail then
        let inner := rest.tail.takeWhile (· ≠ '}')
        defaultOf inner ++ flatten (rest.tail.drop (inner.length + 1))
      else flatten rest
    else flatten (rest.dropWhile Char.isDigit)
termination_by text => text.length
decreasing_by
  · exact Nat.lt_succ_self _
  · rw [List.length_drop, List.length_tail, List.length_cons]
    omega
  · exact Nat.lt_succ_self _
  · exact Nat.lt_succ_of_le (List.dropWhile_suffix _).length_le

def flattenSnippet (snippet : String) : String := String.ofList (flatten snippet.toList)

/-! ## Snippets -/

inductive Snippet where
  | nil
  | char (c : Char) (rest : Snippet)
  | escaped (c : Char) (rest : Snippet)
  | tabstop (number : List Char) (braced : Bool) (rest : Snippet)
  | placeholder (number : List Char) (default rest : Snippet)

namespace Snippet

def text : Snippet → List Char
  | nil => []
  | char c rest => c :: rest.text
  | escaped c rest => '\\' :: c :: rest.text
  | tabstop number true rest => '$' :: '{' :: (number ++ '}' :: rest.text)
  | tabstop number false rest => '$' :: (number ++ rest.text)
  | placeholder number default rest =>
    '$' :: '{' :: (number ++ ':' :: (default.text ++ '}' :: rest.text))

def value : Snippet → List Char
  | nil => []
  | char c rest => c :: rest.value
  | escaped c rest => c :: rest.value
  | tabstop _ _ rest => rest.value
  | placeholder _ default rest => default.value ++ rest.value

theorem text_char (c : Char) (s : Snippet) : (char c s).text = c :: s.text := rfl

theorem text_escaped (c : Char) (s : Snippet) : (escaped c s).text = '\\' :: c :: s.text := rfl

theorem text_tabstop_braced (number : List Char) (s : Snippet) :
    (tabstop number true s).text = '$' :: '{' :: (number ++ '}' :: s.text) := rfl

theorem text_tabstop (number : List Char) (s : Snippet) :
    (tabstop number false s).text = '$' :: (number ++ s.text) := rfl

theorem text_placeholder (number : List Char) (default s : Snippet) :
    (placeholder number default s).text =
      '$' :: '{' :: (number ++ ':' :: (default.text ++ '}' :: s.text)) := rfl

theorem value_placeholder (number : List Char) (default s : Snippet) :
    (placeholder number default s).value = default.value ++ s.value := rfl

def IsNumber (number : List Char) : Prop := number ≠ [] ∧ ∀ d ∈ number, d.isDigit = true

/-- The text reads as the snippet: what is special is escaped, and a number ends where it ends. -/
def WellFormed (inside : Bool) : Snippet → Prop
  | nil => True
  | char c rest => c ≠ '$' ∧ c ≠ '\\' ∧ (inside = true → c ≠ '}') ∧ rest.WellFormed inside
  | escaped c rest => (c = '$' ∨ c = '}' ∨ c = '\\') ∧ rest.WellFormed inside
  | tabstop number braced rest =>
    IsNumber number ∧ (braced = false → ∀ c ∈ rest.text.head?, c.isDigit = false) ∧
      rest.WellFormed inside
  | placeholder number default rest =>
    IsNumber number ∧ default.WellFormed true ∧ rest.WellFormed inside

def chars (text : List Char) (rest : Snippet) : Snippet := text.foldr char rest

/-- Characters only. -/
def Plain : Snippet → Prop
  | nil => True
  | char _ rest => rest.Plain
  | _ => False

/-- No escapes, and plain defaults. -/
def Flat : Snippet → Prop
  | nil => True
  | char _ rest => rest.Flat
  | escaped _ _ => False
  | tabstop _ _ rest => rest.Flat
  | placeholder _ default rest => default.Plain ∧ rest.Flat

/-- What the scanner leaves as it is where it is in a default, and at the top. -/
def Copied (inside : Bool) (s : Snippet) : Prop := if inside then s.Plain else s.Flat

end Snippet

/-- A dollar before a digit or a brace. -/
def HasMarkup (text : List Char) : Prop := ∃ c, (c = '{' ∨ c.isDigit = true) ∧ ['$', c] <:+: text

theorem HasMarkup.append {rest : List Char} (h : HasMarkup rest) (text : List Char) :
    HasMarkup (text ++ rest) := by
  obtain ⟨c, hc, hin⟩ := h
  exact ⟨c, hc, hin.trans (List.suffix_append text rest).isInfix⟩

theorem HasMarkup.head {c : Char} (hc : c = '{' ∨ c.isDigit = true) (rest : List Char) :
    HasMarkup ('$' :: c :: rest) :=
  ⟨c, hc, (List.prefix_append ['$', c] rest).isInfix⟩

/-! ## What the scanner does with each part -/

theorem flatten_cons (c : Char) (rest : List Char) :
    flatten (c :: rest) =
      if c ≠ '$' then c :: flatten rest
      else if rest.head? = some '{' then
        if '}' ∈ rest.tail then
          let inner := rest.tail.takeWhile (· ≠ '}')
          defaultOf inner ++ flatten (rest.tail.drop (inner.length + 1))
        else flatten rest
      else flatten (rest.dropWhile Char.isDigit) := by
  rw [flatten]

/-- The scanner at the top, or in a default. -/
def scan : Bool → List Char → List Char
  | false, text => flatten text
  | true, text =>
    let inner := text.takeWhile (· ≠ '}')
    inner ++ flatten (text.drop (inner.length + 1))

variable {inside : Bool} {c : Char} {rest number : List Char}

theorem scan_char (htop : inside = false → c ≠ '$') (hinside : inside = true → c ≠ '}') :
    scan inside (c :: rest) = c :: scan inside rest := by
  cases inside with
  | false => exact (flatten_cons c rest).trans (if_pos (htop rfl))
  | true =>
    dsimp only [scan]
    rw [List.takeWhile_cons_of_pos (by rw [decide_eq_true_iff]; exact hinside rfl)]
    rfl

theorem scan_inside (hc : c ≠ '}') : scan true (c :: rest) = c :: scan true rest :=
  scan_char (fun h => nomatch h) fun _ => hc

theorem scan_close : scan true ('}' :: rest) = scan false rest := by
  dsimp only [scan]
  rw [List.takeWhile_cons_of_neg (by decide)]
  rfl

theorem flatten_number (h : Snippet.IsNumber number) (hrest : ∀ c ∈ rest.head?, c.isDigit = false) :
    flatten ('$' :: (number ++ rest)) = flatten rest := by
  obtain ⟨d, number, rfl⟩ := List.exists_cons_of_ne_nil h.1
  have hd : (d :: number ++ rest).head? ≠ some '{' := by
    rintro ⟨⟩
    exact absurd (h.2 '{' List.mem_cons_self) (by decide)
  rw [flatten_cons, if_neg (not_not.mpr rfl), if_neg hd, List.dropWhile_append_of_pos h.2]
  congr 1
  cases rest with
  | nil => rfl
  | cons c rest => exact List.dropWhile_cons_of_neg (by rw [hrest c rfl]; exact Bool.false_ne_true)

theorem not_mem_number (h : Snippet.IsNumber number) (hc : c.isDigit = false) : c ∉ number := by
  intro hmem
  rw [h.2 c hmem] at hc
  cases hc

theorem takeWhile_number (h : Snippet.IsNumber number) (hc : c.isDigit = false)
    (text : List Char) : (number ++ text).takeWhile (· ≠ c) = number ++ text.takeWhile (· ≠ c) :=
  List.takeWhile_append_of_pos fun _ hd => decide_eq_true fun heq =>
    not_mem_number h hc (heq ▸ hd)

theorem flatten_braced (h : Snippet.IsNumber number) :
    flatten ('$' :: '{' :: (number ++ '}' :: rest)) = flatten rest := by
  have hinner : (number ++ '}' :: rest).takeWhile (· ≠ '}') = number := by
    rw [takeWhile_number h (by decide), List.takeWhile_cons_of_neg (by decide), List.append_nil]
  have hdefault : defaultOf number = [] := by
    rw [defaultOf, List.dropWhile_eq_nil_iff.mpr, List.tail_nil]
    exact fun d hd => decide_eq_true fun heq => not_mem_number h (by decide) (heq ▸ hd)
  rw [flatten_cons, if_neg (not_not.mpr rfl), List.head?_cons, if_pos rfl, List.tail_cons, if_pos,
    hinner]
  · dsimp only
    rw [hdefault, List.nil_append, List.drop_append, List.drop_of_length_le (by omega),
      Nat.add_sub_cancel_left]
    rfl
  · exact List.mem_append_right _ List.mem_cons_self

theorem flatten_placeholder (h : Snippet.IsNumber number) (hrest : '}' ∈ rest) :
    flatten ('$' :: '{' :: (number ++ ':' :: rest)) = scan true rest := by
  have hinner : (number ++ ':' :: rest).takeWhile (· ≠ '}') =
      number ++ ':' :: rest.takeWhile (· ≠ '}') := by
    rw [takeWhile_number h (by decide), List.takeWhile_cons_of_pos (by decide)]
  have hdefault : defaultOf (number ++ ':' :: rest.takeWhile (· ≠ '}')) =
      rest.takeWhile (· ≠ '}') := by
    rw [defaultOf, List.dropWhile_append_of_pos, List.dropWhile_cons_of_neg (by decide),
      List.tail_cons]
    exact fun d hd => decide_eq_true fun heq => not_mem_number h (by decide) (heq ▸ hd)
  have hlength : (number ++ ':' :: rest.takeWhile (· ≠ '}')).length + 1 =
      number.length + ((rest.takeWhile (· ≠ '}')).length + 1 + 1) := by
    rw [List.length_append, List.length_cons]
    omega
  rw [flatten_cons, if_neg (not_not.mpr rfl), List.head?_cons, if_pos rfl, List.tail_cons, if_pos,
    hinner]
  · dsimp only
    rw [hdefault, hlength, List.drop_append, List.drop_of_length_le (by omega), List.nil_append,
      Nat.add_sub_cancel_left, List.drop_succ_cons]
    rfl
  exact List.mem_append_right _ (List.mem_cons_of_mem _ hrest)

/-- A tabstop or placeholder in a default is left as it is. -/
theorem hasMarkup_scan (hc : c = '{' ∨ c.isDigit = true) :
    HasMarkup (scan true ('$' :: c :: rest)) := by
  have hne : c ≠ '}' := by
    rintro rfl
    revert hc
    decide
  rw [scan_inside (by decide), scan_inside hne]
  exact .head hc _

/-! ## The law -/

namespace Snippet

theorem head?_append_of {l K : List Char} {p : Char → Prop} (h : ∀ c ∈ l.head?, p c)
    (hK : ∀ c ∈ K.head?, p c) : ∀ c ∈ (l ++ K).head?, p c := by
  cases l with
  | nil => exact hK
  | cons c l => exact h

theorem brace_mem (default : Snippet) (rest : List Char) : '}' ∈ default.text ++ '}' :: rest :=
  List.mem_append_right _ List.mem_cons_self

variable {s : Snippet} {K : List Char}

theorem scan_tabstop {braced : Bool}
    (h : (tabstop number braced s).WellFormed false) (hK : ∀ c ∈ K.head?, c.isDigit = false) :
    scan false ((tabstop number braced s).text ++ K) = scan false (s.text ++ K) := by
  obtain ⟨hnumber, hdigit, -⟩ := h
  cases braced with
  | true =>
    rw [text_tabstop_braced, List.cons_append, List.cons_append, List.append_assoc,
      List.cons_append]
    exact flatten_braced hnumber
  | false =>
    rw [text_tabstop, List.cons_append, List.append_assoc]
    exact flatten_number hnumber (head?_append_of (hdigit rfl) hK)

theorem scan_placeholder {default s : Snippet}
    (h : (placeholder number default s).WellFormed false) :
    scan false ((placeholder number default s).text ++ K) =
      scan true (default.text ++ '}' :: (s.text ++ K)) := by
  simp only [text_placeholder, List.cons_append, List.append_assoc]
  exact flatten_placeholder h.1 (brace_mem ..)

/-- In a default, a tabstop leaves markup. -/
theorem top_of_tabstop {braced : Bool}
    (h : (tabstop number braced s).WellFormed inside)
    (hno : ¬HasMarkup (scan inside ((tabstop number braced s).text ++ K))) : inside = false := by
  cases inside with
  | false => rfl
  | true =>
    obtain ⟨d, number, rfl⟩ := List.exists_cons_of_ne_nil h.1.1
    cases braced with
    | true => exact absurd (hasMarkup_scan (.inl rfl)) hno
    | false => exact absurd (hasMarkup_scan (.inr (h.1.2 d List.mem_cons_self))) hno

/-- In a default, a placeholder leaves markup. -/
theorem top_of_placeholder {default s : Snippet}
    (hno : ¬HasMarkup (scan inside ((placeholder number default s).text ++ K))) :
    inside = false := by
  cases inside with
  | false => rfl
  | true => exact absurd (hasMarkup_scan (.inl rfl)) hno

theorem scan_escaped :
    scan inside ((escaped '\\' s).text ++ K) = '\\' :: '\\' :: scan inside (s.text ++ K) := by
  rw [text_escaped, List.cons_append, List.cons_append,
    scan_char (fun _ => by decide) fun _ => by decide,
    scan_char (fun _ => by decide) fun _ => by decide]

theorem scan_plain (h : (char c s).WellFormed inside) :
    scan inside ((char c s).text ++ K) = c :: scan inside (s.text ++ K) := by
  rw [text_char, List.cons_append, scan_char (fun _ => h.1) h.2.2.1]

theorem not_hasMarkup_of_append {l rest : List Char} (h : ¬HasMarkup (l ++ rest)) :
    ¬HasMarkup rest := fun hrest => h (hrest.append l)

/-- Output that is some backslashes ahead of the value stays ahead of it. -/
theorem scan_ahead (h : s.WellFormed inside) {k : Nat} (hk : 0 < k)
    {K U : List Char} (hK : inside = false → ∀ c ∈ K.head?, c.isDigit = false)
    (heq : List.replicate k '\\' ++ scan inside (s.text ++ K) = s.value ++ U)
    (hno : ¬HasMarkup (scan inside (s.text ++ K))) :
    ∃ k', 0 < k' ∧ List.replicate k' '\\' ++ scan inside K = U ∧ ¬HasMarkup (scan inside K) := by
  induction s generalizing inside k K U with
  | nil => exact ⟨k, hk, heq, hno⟩
  | char c s ih =>
    obtain ⟨n, rfl⟩ := Nat.exists_eq_succ_of_ne_zero (Nat.ne_of_gt hk)
    exact absurd (List.cons_eq_cons.mp heq).1.symm h.2.1
  | escaped c s ih =>
    obtain ⟨n, rfl⟩ := Nat.exists_eq_succ_of_ne_zero (Nat.ne_of_gt hk)
    obtain ⟨rfl, htail⟩ := List.cons_eq_cons.mp heq
    rw [scan_escaped] at htail hno
    have hahead : List.replicate (n + 2) '\\' ++ scan inside (s.text ++ K) = s.value ++ U := by
      rw [List.replicate_add, List.append_assoc]
      exact htail
    have hclean : ¬HasMarkup (['\\', '\\'] ++ scan inside (s.text ++ K)) := hno
    exact ih h.2 (Nat.succ_pos _) hK hahead (not_hasMarkup_of_append hclean)
  | tabstop number braced s ih =>
    obtain rfl := top_of_tabstop h hno
    rw [scan_tabstop h (hK rfl)] at heq hno
    exact ih h.2.2 hk hK heq hno
  | placeholder number default s ihDefault ih =>
    obtain rfl := top_of_placeholder hno
    rw [scan_placeholder h] at heq hno
    rw [value_placeholder, List.append_assoc] at heq
    obtain ⟨k', hk', heq', hno'⟩ := ihDefault h.2.1 hk nofun heq hno
    rw [scan_close] at heq' hno'
    exact ih h.2.2 hk' hK heq' hno'

/-- Output that is the value keeps being it, or gets ahead of it, at an escape. -/
theorem scan_value (h : s.WellFormed inside) {K U : List Char}
    (hK : inside = false → ∀ c ∈ K.head?, c.isDigit = false)
    (heq : scan inside (s.text ++ K) = s.value ++ U)
    (hno : ¬HasMarkup (scan inside (s.text ++ K))) :
    (s.Copied inside ∧ scan inside K = U ∧ ¬HasMarkup (scan inside K)) ∨
    ∃ k, 0 < k ∧ List.replicate k '\\' ++ scan inside K = U ∧ ¬HasMarkup (scan inside K) := by
  induction s generalizing inside K U with
  | nil =>
    refine .inl ⟨?_, heq, hno⟩
    cases inside <;> trivial
  | char c s ih =>
    rw [scan_plain h] at heq hno
    have hclean : ¬HasMarkup ([c] ++ scan inside (s.text ++ K)) := hno
    refine (ih h.2.2.2 hK (List.cons_eq_cons.mp heq).2 (not_hasMarkup_of_append hclean)).imp_left ?_
    rintro ⟨hcopied, hrest⟩
    refine ⟨?_, hrest⟩
    cases inside <;> exact hcopied
  | escaped c s ih =>
    have hc : '\\' = c := by
      rw [text_escaped, List.cons_append, scan_char (fun _ => by decide) fun _ => by decide] at heq
      exact (List.cons_eq_cons.mp heq).1
    subst hc
    rw [scan_escaped] at heq hno
    have hclean : ¬HasMarkup (['\\', '\\'] ++ scan inside (s.text ++ K)) := hno
    exact .inr (scan_ahead h.2 Nat.one_pos hK (List.cons_eq_cons.mp heq).2
      (not_hasMarkup_of_append hclean))
  | tabstop number braced s ih =>
    obtain rfl := top_of_tabstop h hno
    rw [scan_tabstop h (hK rfl)] at heq hno
    exact ih h.2.2 hK heq hno
  | placeholder number default s ihDefault ih =>
    obtain rfl := top_of_placeholder hno
    rw [scan_placeholder h] at heq hno
    rw [value_placeholder, List.append_assoc] at heq
    obtain ⟨hplain, heq', hno'⟩ | ⟨k, hk, heq', hno'⟩ := ihDefault h.2.1 nofun heq hno
    · rw [scan_close] at heq' hno'
      exact (ih h.2.2 hK heq' hno').imp_left fun ⟨hflat, hrest⟩ => ⟨⟨hplain, hflat⟩, hrest⟩
    · rw [scan_close] at heq' hno'
      exact .inr (scan_ahead h.2.2 hk hK heq' hno')

/-- What is copied as it is comes out as the value. -/
theorem scan_of_copied (h : s.WellFormed inside) (hcopied : s.Copied inside)
    (hK : inside = false → ∀ c ∈ K.head?, c.isDigit = false) :
    scan inside (s.text ++ K) = s.value ++ scan inside K ∧ '$' ∉ s.value := by
  induction s generalizing inside K with
  | nil => exact ⟨rfl, List.not_mem_nil⟩
  | char c s ih =>
    have hrest : s.Copied inside := by cases inside <;> exact hcopied
    obtain ⟨hscan, hno⟩ := ih h.2.2.2 hrest hK
    rw [scan_plain h, hscan]
    exact ⟨rfl, List.not_mem_cons_of_ne_of_not_mem h.1.symm hno⟩
  | escaped c s ih => cases inside <;> exact hcopied.elim
  | tabstop number braced s ih =>
    cases inside with
    | true => exact hcopied.elim
    | false =>
      rw [scan_tabstop h (hK rfl)]
      exact ih h.2.2 hcopied hK
  | placeholder number default s ihDefault ih =>
    cases inside with
    | true => exact hcopied.elim
    | false =>
      obtain ⟨hdefault, hnoDefault⟩ := ihDefault h.2.1 hcopied.1 nofun
      obtain ⟨hscan, hno⟩ := ih h.2.2 hcopied.2 hK
      rw [scan_placeholder h, hdefault, scan_close, hscan, value_placeholder,
        List.append_assoc]
      exact ⟨rfl, fun hmem => (List.mem_append.mp hmem).elim hnoDefault hno⟩

/-- When the snippets flatten to their value, with no markup left. -/
theorem flatten_law (s : Snippet) (h : s.WellFormed false) :
    (flattenSnippet (String.ofList s.text) = String.ofList s.value ∧
      ¬HasMarkup (flattenSnippet (String.ofList s.text)).toList) ↔ s.Flat := by
  have hflatten : (flattenSnippet (String.ofList s.text)).toList = scan false (s.text ++ []) := by
    rw [flattenSnippet, String.toList_ofList, String.toList_ofList, List.append_nil, scan]
  have hend : scan false [] = [] := by rw [scan, flatten]
  have hempty : ∀ c ∈ ([] : List Char).head?, c.isDigit = false := nofun
  rw [← String.toList_inj, String.toList_ofList, hflatten]
  constructor
  · rintro ⟨heq, hno⟩
    rw [← List.append_nil s.value] at heq
    obtain ⟨hflat, -⟩ | ⟨k, hk, hahead, -⟩ := scan_value h (fun _ => hempty) heq hno
    · exact hflat
    · obtain ⟨n, rfl⟩ := Nat.exists_eq_succ_of_ne_zero (Nat.ne_of_gt hk)
      cases hahead
  · intro hflat
    obtain ⟨hscan, hdollar⟩ := scan_of_copied h hflat fun _ => hempty
    rw [hscan, hend, List.append_nil]
    refine ⟨rfl, ?_⟩
    rintro ⟨c, -, hin⟩
    exact hdollar (hin.subset List.mem_cons_self)

/-- The snippet `${1:first} + $2`. -/
theorem flatten_law_first : flattenSnippet "${1:first} + $2" = "first + " := by
  have h := flatten_law (placeholder ['1'] (chars "first".toList nil)
    (chars " + ".toList (tabstop ['2'] false nil))) (by simp [WellFormed, chars, IsNumber, text])
  exact (h.mpr ⟨trivial, trivial⟩).1

/-- The snippet `${1:a${2:b}c}`: the braces within are left. -/
theorem nested_placeholder : ¬ ∀ s : Snippet, s.WellFormed false →
    flattenSnippet (String.ofList s.text) = String.ofList s.value ∧
      ¬HasMarkup (flattenSnippet (String.ofList s.text)).toList := by
  intro h
  have hwf : (placeholder ['1'] (char 'a' (placeholder ['2'] (char 'b' nil) (char 'c' nil)))
      nil).WellFormed false := by
    simp [WellFormed, IsNumber]
  refine (h _ hwf).2 ?_
  rw [flattenSnippet, String.toList_ofList, String.toList_ofList, ← List.append_nil (text _)]
  change HasMarkup (scan false _)
  rw [scan_placeholder hwf]
  change HasMarkup (scan true ('a' :: '$' :: '{' :: _))
  rw [scan_inside (by decide)]
  exact (hasMarkup_scan (.inl rfl)).append ['a']

end Snippet
end Strukt
