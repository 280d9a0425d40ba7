import Mathlib

/-!
# The words of a shell command

How a POSIX shell splits a line into words: a blank ends a word, single quotes keep all that stands
between them, and a backslash keeps the next character.

* **Scope** (`split`): a line with an open quote, or with a character that the shell may expand or
  take for an operator, has no words here. So what has words is run as these words.
* **Spelling** (`Spells`): text that is read as one word wherever a word may begin.
-/

namespace Strukt.ShellWords

/-- Characters that stand for themselves outside of quotes. -/
def isPlain (c : Char) : Bool := c.isAlphanum || ['+', ',', '-', '.', '/', ':', '@', '_'].contains c

/-- Where the shell is; it has read some of a word. -/
inductive Mode where
  | blank
  | word (read : List Char)
  | quote (read : List Char)
  | escape (read : List Char)

/-- A character outside of quotes. -/
def bare (read : List Char) (c : Char) : Option (List (List Char) × Mode) :=
  if c = '\x27' then some ([], .quote read)
  else if c = '\\' then some ([], .escape read)
  else if isPlain c then some ([], .word (read ++ [c]))
  else none

/-- The word that ends at the character, if any, and where the shell is after it. -/
def step : Mode → Char → Option (List (List Char) × Mode)
  | .blank, c => if c = ' ' then some ([], .blank) else bare [] c
  | .word read, c => if c = ' ' then some ([read], .blank) else bare read c
  | .quote read, c => some ([], if c = '\x27' then .word read else .quote (read ++ [c]))
  | .escape read, c => if c = '\n' then none else some ([], .word (read ++ [c]))

/-- What of a line that ends here is a word. -/
def ended : Mode → Option (List (List Char))
  | .blank => some []
  | .word read => some [read]
  | .quote _ | .escape _ => none

/-- The words of the rest of a line. -/
def split (mode : Mode) : List Char → Option (List (List Char))
  | [] => ended mode
  | c :: cs => (step mode c).bind fun next => (split next.2 cs).map (next.1 ++ ·)

variable {read w text cs : List Char} {c : Char}

theorem split_cons (mode : Mode) : split mode (c :: cs) =
    (step mode c).bind fun next => (split next.2 cs).map (next.1 ++ ·) := rfl

/-- A character that ends no word. -/
theorem split_step {mode mode' : Mode} (h : step mode c = some ([], mode')) :
    split mode (c :: cs) = split mode' cs := by
  rw [split_cons, h, Option.bind_some]
  exact congrFun Option.map_id _

theorem ne_of_isPlain {d : Char} (h : isPlain c = true) (hd : isPlain d = false) : c ≠ d := by
  rintro rfl
  rw [h] at hd
  cases hd

theorem bare_plain (h : isPlain c = true) : bare read c = some ([], .word (read ++ [c])) := by
  rw [bare, if_neg (ne_of_isPlain h (by decide)), if_neg (ne_of_isPlain h (by decide)), if_pos h]

theorem split_word_plain (h : ∀ c ∈ w, isPlain c = true) :
    split (.word read) (w ++ cs) = split (.word (read ++ w)) cs := by
  induction w generalizing read with
  | nil => rw [List.append_nil, List.nil_append]
  | cons c w ih =>
    have hc := h c List.mem_cons_self
    have hstep : step (.word read) c = some ([], .word (read ++ [c])) := by
      rw [step, if_neg (ne_of_isPlain hc (by decide)), bare_plain hc]
    rw [List.cons_append, split_step hstep, ih fun d hd => h d (List.mem_cons_of_mem _ hd),
      List.append_assoc, List.singleton_append]

/-- The text is read as the word. -/
def Spells (text word : List Char) : Prop :=
  ∀ cs, split .blank (text ++ cs) = split (.word word) cs

theorem spells_plain (hne : w ≠ []) (h : ∀ c ∈ w, isPlain c = true) : Spells w w := by
  obtain ⟨c, w, rfl⟩ := List.exists_cons_of_ne_nil hne
  intro cs
  have hc := h c List.mem_cons_self
  have hstep : step .blank c = some ([], .word [c]) := by
    rw [step, if_neg (ne_of_isPlain hc (by decide)), bare_plain hc, List.nil_append]
  rw [List.cons_append, split_step hstep,
    split_word_plain fun d hd => h d (List.mem_cons_of_mem _ hd), List.singleton_append]

/-! ## Quotes -/

/-- Text within single quotes; a quote of its own is spelled outside of them. -/
def quoted (text : List Char) : List Char :=
  text.flatMap fun c => if c = '\x27' then ['\x27', '\\', '\x27', '\x27'] else [c]

def quote (text : List Char) : List Char := '\x27' :: (quoted text ++ ['\x27'])

theorem split_quoted :
    split (.quote read) (quoted text ++ '\x27' :: cs) = split (.word (read ++ text)) cs := by
  induction text generalizing read with
  | nil =>
    rw [List.append_nil]
    exact split_step rfl
  | cons c text ih =>
    have hcs : quoted (c :: text) ++ '\x27' :: cs =
        (if c = '\x27' then ['\x27', '\\', '\x27', '\x27'] else [c]) ++
          (quoted text ++ '\x27' :: cs) := by
      rw [quoted, List.flatMap_cons, List.append_assoc]
      rfl
    have hread : read ++ c :: text = (read ++ [c]) ++ text := by
      rw [List.append_assoc, List.singleton_append]
    rw [hcs, hread, ← ih]
    by_cases hc : c = '\x27'
    · -- The quotes are closed, the quote follows a backslash, and new ones are opened.
      subst hc
      exact (split_step rfl).trans
        ((split_step rfl).trans ((split_step rfl).trans (split_step rfl)))
    · rw [if_neg hc]
      exact split_step (by rw [step, if_neg hc])

theorem spells_quote : Spells (quote text) text := by
  intro cs
  rw [quote, List.cons_append, List.append_assoc]
  exact (split_step rfl).trans split_quoted

/-! ## Lines -/

theorem Spells.last (h : Spells text w) : split .blank text = some [w] := by
  have := h []
  rwa [List.append_nil] at this

theorem Spells.cons (h : Spells text w) {words : List (List Char)}
    (hcs : split .blank cs = some words) :
    split .blank (text ++ ' ' :: cs) = some (w :: words) := by
  rw [h, split_cons, step, if_pos rfl, Option.bind_some, hcs]
  rfl

end Strukt.ShellWords
