import Strukt.Prim

/-!
# Terminal cells

A cell holds the text of one screen position, at most `maxCellTextBytes` bytes of UTF-8, with its
colours and attributes. `Cell.Valid` is `is_structurally_valid`; the operations keep it.
-/

namespace Strukt

def maxCellTextBytes : Nat := 64

structure HyperlinkId where
  value : UInt32
  deriving DecidableEq

theorem HyperlinkId.toNat_inj {a b : HyperlinkId} (h : a.value.toNat = b.value.toNat) : a = b := by
  cases a; cases b
  exact congrArg _ (UInt32.toNat_inj.mp h)

instance : LinearOrder HyperlinkId :=
  LinearOrder.lift' (fun id => id.value.toNat) fun _ _ => HyperlinkId.toNat_inj

inductive Color where
  | default
  | indexed (index : UInt8)
  | rgb (red green blue : UInt8)
  deriving DecidableEq

inductive CellWidth where
  | single
  | wide
  | continuation
  deriving DecidableEq

structure CellAttributes where
  bold : Bool
  faint : Bool
  italic : Bool
  underline : Bool
  inverse : Bool
  strikethrough : Bool
  deriving DecidableEq

def CellAttributes.plain : CellAttributes := ⟨false, false, false, false, false, false⟩

inductive CellError where
  | continuationHasText
  | textTooLong
  deriving DecidableEq

structure Cell where
  text : String
  width : CellWidth
  foreground : Color
  background : Color
  attributes : CellAttributes
  hyperlink : Option HyperlinkId
  deriving DecidableEq

namespace Cell

/-- `Cell::default`. -/
def blank : Cell := ⟨" ", .single, .default, .default, .plain, none⟩

def setText (c : Cell) (text : String) (width : CellWidth) : Except CellError Cell :=
  if width = .continuation ∧ text ≠ "" then .error .continuationHasText
  else if text.utf8ByteSize > maxCellTextBytes then .error .textTooLong
  else .ok { c with text := text, width := width }

def appendCombining (c : Cell) (character : Char) : Except CellError Cell :=
  if c.width = .continuation then .error .continuationHasText
  else if c.text.utf8ByteSize + character.utf8Size > maxCellTextBytes then .error .textTooLong
  else .ok { c with text := (if c.text = " " then "" else c.text).push character }

def isStructurallyValid (c : Cell) : Bool :=
  c.text.utf8ByteSize ≤ maxCellTextBytes && (c.width ≠ .continuation || c.text = "")

def isSemanticallyBlank (c : Cell) : Bool :=
  c.text = " " && c.width = .single && c.foreground = .default && c.background = .default &&
    c.attributes = .plain && c.hyperlink.isNone

/-- The colours, attributes and link of a written cell. -/
def styled (c : Cell) (foreground background : Color) (attributes : CellAttributes)
    (hyperlink : Option HyperlinkId) : Cell :=
  { c with
    foreground := foreground
    background := background
    attributes := attributes
    hyperlink := hyperlink }

/-! ## Validity -/

def Valid (c : Cell) : Prop :=
  c.text.utf8ByteSize ≤ maxCellTextBytes ∧ (c.width = .continuation → c.text = "")

theorem isStructurallyValid_iff {c : Cell} : c.isStructurallyValid ↔ c.Valid := by
  simp [isStructurallyValid, Valid, imp_iff_not_or]

theorem valid_blank : blank.Valid := ⟨by decide, by decide⟩

theorem Valid.styled {c : Cell} (h : c.Valid) {fg bg : Color} {a : CellAttributes}
    {l : Option HyperlinkId} : (c.styled fg bg a l).Valid := h

theorem setText_valid {c c' : Cell} {text : String} {w : CellWidth}
    (h : c.setText text w = .ok c') : c'.Valid := by
  unfold setText at h
  split at h
  · cases h
  split at h
  · cases h
  rename_i h₁ h₂
  cases h
  refine ⟨Nat.le_of_not_lt h₂, fun hw => ?_⟩
  by_contra ht
  exact h₁ ⟨hw, ht⟩

theorem appendCombining_valid {c c' : Cell} {ch : Char} (h : c.appendCombining ch = .ok c') :
    c'.Valid := by
  unfold appendCombining at h
  split at h
  · cases h
  split at h
  · cases h
  rename_i h₁ h₂
  cases h
  refine ⟨?_, fun hw => absurd hw h₁⟩
  -- Clearing a lone space only shortens the text.
  have hle : (if c.text = " " then "" else c.text).utf8ByteSize ≤ c.text.utf8ByteSize := by
    split <;> simp_all
  simp only [String.utf8ByteSize_push]
  omega

end Cell
end Strukt
