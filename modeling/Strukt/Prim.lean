import Mathlib

/-!
# The primitive types of the source

* **Counters**: `u64` counters that saturate (`UInt64.satSucc`).
* **Time**: a `Duration` is at most `durationMax` nanoseconds.
* **Text**: `str::trim`, and truncation at a character boundary (`bounded`).
* **Paths**: a `PathBuf` is its bytes, and two paths compare by their components.
* **Identifiers**: the random 128-bit identifiers of sessions, windows, panes and service
  instances (`id.rs`), and the counted identifiers of terminal panes. An identifier's order is the
  order of its bytes.
-/

/-- `u64::saturating_add(1)`. -/
def UInt64.satSucc (n : UInt64) : UInt64 := if n = -1 then n else n + 1

namespace Strukt

/-- `u64::MAX`. -/
def u64Max : Nat := 2 ^ 64 - 1

theorem toNat_satSucc (n : UInt64) : n.satSucc.toNat = min (n.toNat + 1) u64Max := by
  unfold UInt64.satSucc u64Max
  split
  · subst_vars; decide
  · have hlt := n.toNat_lt
    have hne : n.toNat ≠ 2 ^ 64 - 1 := fun he => ‹¬n = -1› (UInt64.toNat.inj (by rw [he]; rfl))
    rw [UInt64.toNat_add]
    simp
    omega

theorem toNat_le_u64Max (n : UInt64) : n.toNat ≤ u64Max := by
  have := n.toNat_lt
  unfold u64Max
  omega

theorem toNat_satSucc_of_lt {n : UInt64} (h : n.toNat < u64Max) :
    n.satSucc.toNat = n.toNat + 1 := by
  rw [toNat_satSucc]; omega

theorem satSucc_ne_zero (n : UInt64) : n.satSucc ≠ 0 := by
  intro h
  have h₁ := toNat_satSucc n
  rw [h, UInt64.toNat_zero] at h₁
  unfold u64Max at h₁
  omega

theorem bind_eq_ok {ε α β : Type} {x : Except ε α} {f : α → Except ε β} {b : β} :
    (x >>= f) = .ok b ↔ ∃ a, x = .ok a ∧ f a = .ok b := by
  cases x <;> simp [bind, Except.bind]

/-! ## Time -/

/-- `Duration::MAX`, in nanoseconds. -/
def durationMax : Nat := (2 ^ 64 - 1) * 10 ^ 9 + 999999999

structure Duration where
  nanos : Nat
  bounded : nanos ≤ durationMax
  deriving DecidableEq

namespace Duration

instance : LinearOrder Duration :=
  LinearOrder.lift' nanos fun a b h => by cases a; cases b; cases h; rfl

instance : Zero Duration := ⟨⟨0, Nat.zero_le _⟩⟩

def checkedAdd (a b : Duration) : Option Duration :=
  if h : a.nanos ≤ durationMax - b.nanos then
    some ⟨a.nanos + b.nanos, Nat.add_le_of_le_sub b.bounded h⟩
  else none

def saturatingSub (a b : Duration) : Duration :=
  ⟨a.nanos - b.nanos, (Nat.sub_le ..).trans a.bounded⟩

def saturatingMul (d : Duration) (k : Nat) : Duration :=
  ⟨Nat.min (d.nanos * k) durationMax, Nat.min_le_right ..⟩

end Duration

/-! ## Text -/

/-- `char::is_whitespace`: the Unicode `White_Space` characters. -/
def isWhitespace (c : Char) : Bool :=
  (0x09 ≤ c.toNat && c.toNat ≤ 0x0d) || c.toNat = 0x20 || c.toNat = 0x85 || c.toNat = 0xa0 ||
    c.toNat = 0x1680 || (0x2000 ≤ c.toNat && c.toNat ≤ 0x200a) || c.toNat = 0x2028 ||
    c.toNat = 0x2029 || c.toNat = 0x202f || c.toNat = 0x205f || c.toNat = 0x3000

/-- The list without its ends of elements that satisfy `p`. -/
def trimList {α : Type} (p : α → Bool) (l : List α) : List α :=
  ((l.dropWhile p).reverse.dropWhile p).reverse

/-- `str::trim`. -/
def trim (s : String) : String := String.ofList (trimList isWhitespace s.toList)

theorem dropWhile_eq_self {α : Type} {p : α → Bool} {l : List α}
    (h : ∀ a ∈ l.head?, p a = false) : l.dropWhile p = l := by
  cases l with
  | nil => rfl
  | cons a l => simp [h a (by simp)]

theorem head?_dropWhile_false {α : Type} (p : α → Bool) (l : List α) :
    ∀ a ∈ (l.dropWhile p).head?, p a = false := by
  intro a ha
  have := List.head?_dropWhile_not p l
  rw [Option.mem_def.mp ha] at this
  simpa using this

/-- A suffix cut off the end leaves the head, or nothing. -/
theorem head?_of_isPrefix {α : Type} {l l' : List α} (h : l <+: l') :
    ∀ a ∈ l.head?, a ∈ l'.head? := by
  obtain ⟨t, rfl⟩ := h
  cases l <;> simp

theorem trimList_idem {α : Type} (p : α → Bool) (l : List α) :
    trimList p (trimList p l) = trimList p l := by
  -- What is left after both cuts starts and ends with a kept element.
  have hpre : trimList p l <+: l.dropWhile p := by
    have := List.dropWhile_suffix p (l := (l.dropWhile p).reverse)
    simpa [trimList] using List.reverse_prefix.mpr this
  have hhead : ∀ a ∈ (trimList p l).head?, p a = false := fun a ha =>
    head?_dropWhile_false p l a (head?_of_isPrefix hpre a ha)
  have hlast : ∀ a ∈ (trimList p l).reverse.head?, p a = false := by
    intro a ha
    rw [trimList, List.reverse_reverse] at ha
    exact head?_dropWhile_false p _ a ha
  rw [trimList, dropWhile_eq_self hhead, dropWhile_eq_self hlast, List.reverse_reverse]

theorem trim_idem (s : String) : trim (trim s) = trim s := by
  simp [trim, trimList_idem]

/-- The longest prefix of `l` within `limit` bytes of UTF-8. -/
def takeBytes : Nat → List Char → List Char
  | _, [] => []
  | limit, c :: l =>
    if c.utf8Size ≤ limit then c :: takeBytes (limit - c.utf8Size) l else []

/-- `bounded`: the value, cut at the last character boundary within `limit` bytes. -/
def bounded (value : String) (limit : Nat) : String :=
  if value.utf8ByteSize ≤ limit then value else String.ofList (takeBytes limit value.toList)

/-! ## Paths -/

/-- A path, as the bytes of its operating-system string. -/
structure PathBuf where
  bytes : List UInt8
  deriving DecidableEq

/-- Whether the path is absolute, and its components: empty ones and `.` go, except a leading
`.`. -/
def PathBuf.components (p : PathBuf) : Bool × List (List UInt8) :=
  let absolute := p.bytes.head? = some 47
  let parts := p.bytes.splitOn 47
  match parts with
  | [] => (absolute, [])
  | first :: rest =>
    (absolute, (if first = [] then [] else [first]) ++ rest.filter fun c => c ≠ [] ∧ c ≠ [46])

/-! ## Identifiers -/

/-- What an opaque identifier names (`opaque_id!`). -/
inductive IdKind where
  | session
  | window
  | pane
  | serviceInstance
  deriving DecidableEq

instance OpaqueId.space_neZero : NeZero (2 ^ 128) := ⟨by decide⟩

/-- A random identifier: 16 bytes, read as a big-endian number. -/
structure OpaqueId (kind : IdKind) where
  value : Fin (2 ^ 128)
  deriving DecidableEq

abbrev SessionId := OpaqueId .session
abbrev WindowId := OpaqueId .window
abbrev PaneId := OpaqueId .pane
abbrev ServiceInstanceId := OpaqueId .serviceInstance

instance {kind : IdKind} : LinearOrder (OpaqueId kind) :=
  LinearOrder.lift' OpaqueId.value fun a b h => by cases a; cases b; cases h; rfl

instance {kind : IdKind} (id : OpaqueId kind) (l : List (OpaqueId kind)) : Decidable (id ∈ l) :=
  List.instDecidableMemOfLawfulBEq id l

inductive IdError where
  | randomUnavailable
  | invalidFormat
  deriving DecidableEq

/-- The values that the operating system's random source returns next. It is unavailable after
the last one. -/
abbrev RandomSource := List (Fin (2 ^ 128))

/-- `$name::new`. -/
def OpaqueId.new {kind : IdKind} : RandomSource → Except IdError (OpaqueId kind × RandomSource)
  | [] => .error .randomUnavailable
  | value :: rest => .ok (⟨value⟩, rest)

/-- A terminal pane's identifier, counted up by the process. -/
structure TerminalPaneId where
  value : Nat
  deriving DecidableEq

instance : LinearOrder TerminalPaneId :=
  LinearOrder.lift' TerminalPaneId.value fun a b h => by cases a; cases b; cases h; rfl

end Strukt
