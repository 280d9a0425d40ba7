import Strukt.Terminal.Parser

/-!
# Pasted text

`preparePaste` removes the NUL characters of a text, asks for a confirmation where it is long, and
frames its bytes while the program has bracketed paste on.

The frame ends where the program finds the closing sequence for the first time. `paste_law` says when
that is the end of the bytes: exactly if the text, without its NULs, does not have that sequence.
-/

namespace Strukt

def ordinaryPasteLimit : Nat := 1024 * 1024

inductive PasteDecision where
  | send (bytes : List UInt8)
  | confirm (bytes : List UInt8) (bracketed : Bool)
  deriving DecidableEq

namespace Paste

/-- `b"\x1b[200~"`. -/
def opening : List UInt8 := [0x1b, 0x5b, 0x32, 0x30, 0x30, 0x7e]

/-- `b"\x1b[201~"`. -/
def closing : List UInt8 := [0x1b, 0x5b, 0x32, 0x30, 0x31, 0x7e]

/-- The bytes of the text after `text.replace('\0', "")`. -/
def clean (text : String) : List UInt8 :=
  (String.ofList (text.toList.filter (· ≠ '\x00'))).toUTF8.data.toList

end Paste

open Paste

def TerminalModel.preparePaste {V : VteParser} (m : TerminalModel V) (text : String)
    (confirmed : Bool) : PasteDecision :=
  let clean := Paste.clean text
  let bracketed := (m.snapshot 0).modes.bracketedPaste
  if clean.length > ordinaryPasteLimit ∧ confirmed = false then .confirm clean bracketed
  else
    .send ((if bracketed then opening else []) ++ clean ++ (if bracketed then closing else []))

namespace Paste

/-- The bytes are a frame, which nothing but their end closes. -/
structure Contained (bytes : List UInt8) : Prop where
  opens : opening <+: bytes
  closes : ∀ i, closing <+: bytes.drop i ↔ i + closing.length = bytes.length

/-! ## Occurrences of a sequence -/

variable {α : Type} {a : α} {rest before : List α}

/-- A sequence that begins with what it does not have behind that is not found across the beginning
of another one. -/
theorem prefix_append (h : a ∉ rest) {l : List α} (hl : l ≠ []) :
    a :: rest <+: l ++ a :: rest ↔ a :: rest <+: l := by
  refine ⟨fun hp => ?_, fun hp => hp.trans (List.prefix_append l _)⟩
  rcases List.prefix_or_prefix_of_prefix hp (List.prefix_append l (a :: rest)) with hin | hout
  · exact hin
  · obtain ⟨tail, htail⟩ := hout
    cases l with
    | nil => exact absurd rfl hl
    | cons b l =>
      obtain ⟨rfl, hrest⟩ := List.cons.inj htail
      change l ++ tail = rest at hrest
      cases tail with
      | nil => rw [← hrest, List.append_nil]
      | cons c tail =>
        -- The second sequence would begin inside of the first one.
        rw [← hrest, ← List.cons_append, List.prefix_append_right_inj] at hp
        obtain ⟨u, hu⟩ := hp
        obtain ⟨rfl, -⟩ := List.cons.inj hu
        exact absurd (hrest ▸ List.mem_append_right l List.mem_cons_self) h

theorem occurs_append (h : a ∉ rest) (i : Nat) :
    a :: rest <+: (before ++ a :: rest).drop i ↔ i = before.length ∨ a :: rest <+: before.drop i := by
  rcases Nat.lt_trichotomy i before.length with hlt | rfl | hgt
  · have hne : before.drop i ≠ [] := fun hnil => by
      rw [List.drop_eq_nil_iff] at hnil
      omega
    rw [List.drop_append_of_le_length (Nat.le_of_lt hlt), prefix_append h hne]
    exact ⟨.inr, fun hp => hp.resolve_left (Nat.ne_of_lt hlt)⟩
  · rw [List.drop_left]
    exact iff_of_true (List.prefix_refl _) (.inl rfl)
  · refine iff_of_false (fun hp => ?_) (fun hp => ?_)
    · have hlen := hp.length_le
      rw [List.length_drop, List.length_append] at hlen
      have hpos : 0 < (a :: rest).length := Nat.succ_pos _
      omega
    · rcases hp with hp | hp
      · omega
      · rw [List.drop_of_length_le (Nat.le_of_lt hgt), List.prefix_nil] at hp
        cases hp

theorem infix_iff_drop {pattern l : List α} :
    pattern <:+: l ↔ ∃ i, pattern <+: l.drop i := by
  constructor
  · rintro ⟨s, t, rfl⟩
    refine ⟨s.length, ?_⟩
    rw [List.append_assoc, List.drop_left]
    exact List.prefix_append pattern t
  · rintro ⟨i, hp⟩
    exact hp.isInfix.trans (List.drop_suffix i l).isInfix

/-! ## Frames -/

/-- The opening of a frame is no part of a closing sequence. -/
theorem closing_infix_opening (text : List UInt8) :
    closing <:+: opening ++ text ↔ closing <:+: text := by
  refine ⟨fun h => ?_, fun h => h.trans (List.suffix_append opening text).isInfix⟩
  obtain ⟨i, hp⟩ := infix_iff_drop.mp h
  by_cases hi : i < 6
  · exfalso
    unfold closing opening at hp
    interval_cases i
    all_goals simp [List.cons_prefix_cons] at hp
  · refine infix_iff_drop.mpr ⟨i - 6, ?_⟩
    rwa [List.drop_append, List.drop_of_length_le (show opening.length ≤ i from Nat.le_of_not_lt hi),
      List.nil_append] at hp

theorem contained_iff (text : List UInt8) :
    Contained (opening ++ text ++ closing) ↔ ¬closing <:+: text := by
  have hclosing : closing = 0x1b :: [0x5b, 0x32, 0x30, 0x31, 0x7e] := rfl
  have hoccurs (i : Nat) : closing <+: (opening ++ text ++ closing).drop i ↔
      i = (opening ++ text).length ∨ closing <+: (opening ++ text).drop i := by
    rw [hclosing]
    exact occurs_append (by decide) i
  have hlast (i : Nat) : i + closing.length = (opening ++ text ++ closing).length ↔
      i = (opening ++ text).length := by
    rw [List.length_append]
    exact Nat.add_right_cancel_iff
  rw [← closing_infix_opening text, infix_iff_drop]
  constructor
  · rintro ⟨-, hcloses⟩ ⟨i, hi⟩
    -- An occurrence inside of the text would be the last one, behind which there is nothing.
    have hlength := (hlast i).mp ((hcloses i).mp ((hoccurs i).mpr (.inr hi)))
    rw [hlength, List.drop_length, List.prefix_nil] at hi
    cases hi
  · intro hnone
    refine ⟨?_, fun i => ?_⟩
    · rw [List.append_assoc]
      exact List.prefix_append opening _
    · rw [hoccurs, hlast]
      exact ⟨fun h => h.resolve_right fun hi => hnone ⟨i, hi⟩, .inl⟩

variable {V : VteParser}

/-- While bracketed paste is on, a confirmed text is always sent, and what is sent of a text is one
frame exactly if the text does not close it. -/
theorem paste_law (m : TerminalModel V) (hm : m.performer.modes.bracketedPaste = true)
    (text : String) :
    (∃ bytes, m.preparePaste text true = .send bytes) ∧
      ∀ confirmed bytes, m.preparePaste text confirmed = .send bytes →
        (Contained bytes ↔ ¬closing <:+: clean text) := by
  have hmode : (m.snapshot 0).modes.bracketedPaste = true := hm
  refine ⟨⟨_, if_neg fun h => by cases h.2⟩, fun confirmed bytes h => ?_⟩
  unfold TerminalModel.preparePaste at h
  simp only [hmode, if_true] at h
  split at h
  · cases h
  · cases h
    exact contained_iff (clean text)

/-! ## A parser that turns bracketed paste on -/

/-- The calls for `ESC [ ? 2 0 0 4 h`; other bytes are left alone. -/
def modeParser : VteParser where
  State := Unit
  new := ()
  advance _ bytes :=
    ((), if bytes = [0x1b, 0x5b, 0x3f, 0x32, 0x30, 0x30, 0x34, 0x68] then
      [.csiDispatch [[2004]] [63] false 'h'] else [])
  charWidth _ := some 1
  advance_nil _ := rfl

/-- A terminal whose program has turned bracketed paste on. -/
def bracketedModel : TerminalModel modeParser :=
  let m : TerminalModel modeParser := .new ⟨1, 1, by decide, by decide⟩ 0
  { m with performer.modes.bracketedPaste := true }

theorem advance_bracketedModel :
    (TerminalModel.new ⟨1, 1, by decide, by decide⟩ 0 : TerminalModel modeParser).advance
      [0x1b, 0x5b, 0x3f, 0x32, 0x30, 0x30, 0x34, 0x68] = some bracketedModel := rfl

/-- A plain text is one frame. -/
theorem paste_law_plain : Contained (opening ++ clean "a\x00b" ++ closing) :=
  ((paste_law bracketedModel rfl "a\x00b").2 false _ rfl).mpr (by decide)

/-- A text with a closing sequence ends its own frame, also where a NUL hides the sequence. -/
theorem closed_early : ¬ ∀ (m : TerminalModel modeParser) (text : String) (bytes : List UInt8),
    (∃ input, (TerminalModel.new ⟨1, 1, by decide, by decide⟩ 0 : TerminalModel modeParser).advance
      input = some m) → m.performer.modes.bracketedPaste = true →
    m.preparePaste text true = .send bytes → Contained bytes := by
  intro h
  have hsend : bracketedModel.preparePaste "\x1b[201\x00~ls" true =
      .send (opening ++ clean "\x1b[201\x00~ls" ++ closing) := rfl
  have hcontained := h bracketedModel _ _ ⟨_, advance_bracketedModel⟩ rfl hsend
  exact (contained_iff _).mp hcontained (by decide)

end Paste
end Strukt
