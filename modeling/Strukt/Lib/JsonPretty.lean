import Strukt.Lib.Json

/-!
# JSON as indented text

`pretty` is a value as text with two spaces of indentation for each level, and a line for each item
and each member. A float is written as `floatText` says.

* **Sizes** (`textBytes`): the bytes of a text in UTF-8. `textBytes_array` and `textBytes_object` add
  up those of the parts, where `indent` is the number of spaces before a line.
-/

namespace Strukt.Json

/-! ## Text -/

def hexDigit (n : Nat) : Char := Nat.digitChar (n % 16)

/-- A character inside of a string. -/
def escape (c : Char) : List Char :=
  if c = '"' then ['\\', '"']
  else if c = '\\' then ['\\', '\\']
  else if c = '\x08' then ['\\', 'b']
  else if c = '\x09' then ['\\', 't']
  else if c = '\x0a' then ['\\', 'n']
  else if c = '\x0c' then ['\\', 'f']
  else if c = '\x0d' then ['\\', 'r']
  else if c.toNat < 32 then ['\\', 'u', '0', '0', hexDigit (c.toNat / 16), hexDigit c.toNat]
  else [c]

def quoted (s : String) : List Char := '"' :: s.toList.flatMap escape ++ ['"']

/-- The lines between the brackets, each with the bracket or the comma before it. -/
def lines (indent : Nat) (opening closing : Char) : List (List Char) → List Char
  | [] => [opening, closing]
  | first :: rest =>
    opening :: '\n' :: (List.replicate (indent + 2) ' ' ++ first ++
      rest.flatMap (fun line => ',' :: '\n' :: (List.replicate (indent + 2) ' ' ++ line)) ++
      '\n' :: (List.replicate indent ' ' ++ [closing]))

variable (floatText : UInt64 → List Char)

mutual

/-- The text of a value on a line that is indented by `indent`. -/
def pretty (indent : Nat) : Json → List Char
  | .null => ['n', 'u', 'l', 'l']
  | .bool true => ['t', 'r', 'u', 'e']
  | .bool false => ['f', 'a', 'l', 's', 'e']
  | .natural n => Nat.toDigits 10 n
  | .negative n => '-' :: Nat.toDigits 10 n
  | .float bits => floatText bits
  | .string s => quoted s
  | .array items => lines indent '[' ']' (prettyItems (indent + 2) items)
  | .object members => lines indent '{' '}' (prettyMembers (indent + 2) members)

def prettyItems (indent : Nat) : List Json → List (List Char)
  | [] => []
  | v :: rest => pretty indent v :: prettyItems indent rest

def prettyMembers (indent : Nat) : List (String × Json) → List (List Char)
  | [] => []
  | (name, v) :: rest =>
    (quoted name ++ [':', ' '] ++ pretty indent v) :: prettyMembers indent rest

end

/-! ## Sizes -/

/-- The bytes of a text. -/
def textBytes (text : List Char) : Nat := (text.map Char.utf8Size).sum

/-- The bytes of a string and its quotes. -/
def stringBytes (s : String) : Nat := textBytes (quoted s)

def digitCount (n : Nat) : Nat := (Nat.toDigits 10 n).length

/-- The bytes of brackets around lines of these sizes. -/
def linesBytes (indent : Nat) (sizes : List Nat) : Nat :=
  if sizes = [] then 2 else indent + 2 + (sizes.map (indent + 4 + ·)).sum

variable {floatText} {indent : Nat}

@[simp] theorem textBytes_nil : textBytes [] = 0 := rfl

@[simp] theorem textBytes_cons {c : Char} {text : List Char} :
    textBytes (c :: text) = c.utf8Size + textBytes text := rfl

@[simp] theorem textBytes_append {a b : List Char} :
    textBytes (a ++ b) = textBytes a + textBytes b := by
  rw [textBytes, List.map_append, List.sum_append]
  rfl

@[simp] theorem textBytes_replicate {n : Nat} : textBytes (List.replicate n ' ') = n := by
  rw [textBytes, List.map_replicate, List.sum_replicate]
  exact Nat.mul_one n

theorem textBytes_lines {opening closing : Char} (ho : opening.utf8Size = 1)
    (hc : closing.utf8Size = 1) (texts : List (List Char)) :
    textBytes (lines indent opening closing texts) = linesBytes indent (texts.map textBytes) := by
  cases texts with
  | nil =>
    rw [lines, textBytes_cons, textBytes_cons, textBytes_nil, ho, hc]
    rfl
  | cons first rest =>
    have hrest : textBytes (rest.flatMap fun line =>
        ',' :: '\n' :: (List.replicate (indent + 2) ' ' ++ line)) =
          ((rest.map textBytes).map (indent + 4 + ·)).sum := by
      induction rest with
      | nil => rfl
      | cons line rest ih =>
        rw [List.flatMap_cons, textBytes_append, ih, List.map_cons, List.map_cons, List.sum_cons]
        simp only [textBytes_cons, textBytes_append, textBytes_replicate,
          show ','.utf8Size = 1 from rfl, show '\n'.utf8Size = 1 from rfl]
        omega
    rw [linesBytes, if_neg (by simp), List.map_cons, List.map_cons, List.sum_cons, lines]
    simp only [textBytes_cons, textBytes_append,
      textBytes_replicate, textBytes_nil, hrest, ho, hc, show '\n'.utf8Size = 1 from rfl]
    omega

theorem textBytes_array {items : List Json} :
    textBytes (pretty floatText indent (.array items)) =
      linesBytes indent (items.map fun v => textBytes (pretty floatText (indent + 2) v)) := by
  have hitems : prettyItems floatText (indent + 2) items =
      items.map (pretty floatText (indent + 2)) := by
    induction items with
    | nil => rfl
    | cons v rest ih => rw [prettyItems, ih, List.map_cons]
  rw [pretty, textBytes_lines rfl rfl, hitems, List.map_map]
  rfl

theorem textBytes_object {members : List (String × Json)} :
    textBytes (pretty floatText indent (.object members)) =
      linesBytes indent (members.map fun m =>
        stringBytes m.1 + 2 + textBytes (pretty floatText (indent + 2) m.2)) := by
  have hmembers : (prettyMembers floatText (indent + 2) members).map textBytes =
      members.map fun m => stringBytes m.1 + 2 + textBytes (pretty floatText (indent + 2) m.2) := by
    induction members with
    | nil => rfl
    | cons m rest ih =>
      rw [prettyMembers, List.map_cons, ih, List.map_cons, textBytes_append, textBytes_append]
      rfl
  rw [pretty, textBytes_lines rfl rfl, hmembers]

theorem textBytes_string {s : String} :
    textBytes (pretty floatText indent (.string s)) = stringBytes s := rfl

theorem textBytes_natural {n : Nat} :
    textBytes (pretty floatText indent (.natural n)) = digitCount n := by
  have hdigits : ∀ l : List Char, (∀ c ∈ l, c.isDigit) → textBytes l = l.length := by
    intro l
    induction l with
    | nil => exact fun _ => rfl
    | cons c l ih =>
      intro h
      have hc := h c List.mem_cons_self
      rw [Char.isDigit, Bool.and_eq_true, decide_eq_true_eq, decide_eq_true_eq] at hc
      have hsize : c.utf8Size = 1 := by
        unfold Char.utf8Size
        exact if_pos (UInt32.le_trans hc.2 (by decide))
      rw [textBytes_cons, hsize, ih fun c hc => h c (List.mem_cons_of_mem _ hc), List.length_cons]
      omega
  exact hdigits _ fun c hc => Nat.isDigit_of_mem_toDigits (by decide) (by decide) hc

end Strukt.Json
