import Mathlib

/-!
# CBOR values

`Cbor` is a value of the concise binary object representation, and `encode` its bytes, with every
length and integer in its shortest form.

* **Structs** are maps from the names of their fields; an **enum** of derived serializers is the
  name of its variant, or a map from that name to what the variant has (`variant`).
* **Bytes** that are a sequence to the serializer are an array of integers (`byteArray`), one or two
  bytes each (`length_encode_byteArray`).
-/

namespace Strukt

inductive Cbor where
  | unsigned (n : Nat)
  | text (s : String)
  | bool (b : Bool)
  | null
  | array (items : List Cbor)
  | map (entries : List (String × Cbor))

namespace Cbor

/-- The lowest `k` bytes of a number, the highest first. -/
def bigEndian (n : Nat) : Nat → List UInt8
  | 0 => []
  | k + 1 => UInt8.ofNat (n >>> (8 * k)) :: bigEndian n k

/-- The head of an item: its major type, and its argument in the shortest form. -/
def head (major n : Nat) : List UInt8 :=
  if n < 24 then [UInt8.ofNat (32 * major + n)]
  else if n < 2 ^ 8 then UInt8.ofNat (32 * major + 24) :: bigEndian n 1
  else if n < 2 ^ 16 then UInt8.ofNat (32 * major + 25) :: bigEndian n 2
  else if n < 2 ^ 32 then UInt8.ofNat (32 * major + 26) :: bigEndian n 4
  else UInt8.ofNat (32 * major + 27) :: bigEndian n 8

def encodeText (s : String) : List UInt8 := head 3 s.utf8ByteSize ++ s.toUTF8.data.toList

mutual

def encode : Cbor → List UInt8
  | .unsigned n => head 0 n
  | .text s => encodeText s
  | .bool false => [0xf4]
  | .bool true => [0xf5]
  | .null => [0xf6]
  | .array items => head 4 items.length ++ encodeItems items
  | .map entries => head 5 entries.length ++ encodeEntries entries

def encodeItems : List Cbor → List UInt8
  | [] => []
  | v :: rest => v.encode ++ encodeItems rest

def encodeEntries : List (String × Cbor) → List UInt8
  | [] => []
  | (name, v) :: rest => encodeText name ++ v.encode ++ encodeEntries rest

end

/-- A variant of an enum that has fields. -/
def variant (name : String) (content : Cbor) : Cbor := .map [(name, content)]

/-- Bytes as a sequence of integers. -/
def byteArray (bytes : List UInt8) : Cbor := .array (bytes.map fun b => .unsigned b.toNat)

/-! ## Lengths -/

theorem length_bigEndian (n k : Nat) : (bigEndian n k).length = k := by
  induction k with
  | zero => rfl
  | succ k ih => rw [bigEndian, List.length_cons, ih]

theorem head_pos (major n : Nat) : 0 < (head major n).length := by
  unfold head
  split
  · exact Nat.one_pos
  split
  · exact Nat.succ_pos _
  split
  · exact Nat.succ_pos _
  split
  · exact Nat.succ_pos _
  · exact Nat.succ_pos _

/-- An integer below 24 is its head alone, and a byte above has one more. -/
theorem length_encode_byte (b : UInt8) :
    (encode (.unsigned b.toNat)).length = if b.toNat < 24 then 1 else 2 := by
  have hb : b.toNat < 2 ^ 8 := b.toNat_lt
  rw [encode, head]
  by_cases h : b.toNat < 24
  · rw [if_pos h, if_pos h, List.length_singleton]
  · rw [if_neg h, if_neg h, if_pos hb, List.length_cons, length_bigEndian]

theorem length_encodeItems_bytes (bytes : List UInt8) :
    (encodeItems (bytes.map fun b => .unsigned b.toNat)).length =
      bytes.length + bytes.countP (24 ≤ ·.toNat) := by
  induction bytes with
  | nil => rfl
  | cons b bytes ih =>
    rw [List.map_cons, encodeItems, List.length_append, length_encode_byte, ih, List.length_cons,
      List.countP_cons]
    by_cases hb : b.toNat < 24
    · have hb' : ¬24 ≤ b.toNat := by omega
      simp only [hb, hb', if_true, decide_false, Bool.false_eq_true, if_false]
      omega
    · have hb' : 24 ≤ b.toNat := by omega
      simp only [hb, hb', if_false, decide_true, if_true]
      omega

theorem length_encode_byteArray (bytes : List UInt8) :
    (byteArray bytes).encode.length =
      (head 4 bytes.length).length + bytes.length + bytes.countP (24 ≤ ·.toNat) := by
  rw [byteArray, encode, List.length_append, length_encodeItems_bytes, List.length_map]
  omega

/-- An entry is shorter than its map. -/
theorem length_encode_lt_map {entries : List (String × Cbor)} {name : String} {v : Cbor}
    (h : (name, v) ∈ entries) : v.encode.length < (encode (.map entries)).length := by
  have hle : v.encode.length ≤ (encodeEntries entries).length := by
    induction entries with
    | nil => cases h
    | cons e rest ih =>
      rw [encodeEntries, List.length_append, List.length_append]
      rcases List.mem_cons.mp h with rfl | h
      · dsimp only
        omega
      · have := ih h
        omega
  have := head_pos 5 entries.length
  rw [encode, List.length_append]
  omega

end Cbor
end Strukt
