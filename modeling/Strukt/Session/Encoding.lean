import Strukt.Lib.Json
import Strukt.Session.Layout

/-!
# Encodings of numbers, identifiers and paths

An opaque identifier is written as its 32 hexadecimal digits, and a path as text, where it is UTF-8.
Each type has its encoder, its decoder, and the lemma that the decoder takes what the encoder made,
from the tree of values in between.
-/

namespace Strukt

/-! ## Fields -/

namespace Json

@[simp] theorem lookup_cons {name : String} {m : String × Json} {rest : List (String × Json)} :
    lookup name (m :: rest) = if m.1 = name then some m.2 else lookup name rest := by
  unfold lookup
  rw [List.find?_cons]
  by_cases h : m.1 = name
  · rw [decide_eq_true h, if_pos h]
    rfl
  · rw [decide_eq_false h, if_neg h]

/-- A step of a decoder that succeeds. -/
theorem some_bind {α β : Type} {x : α} {f : α → Option β} : (some x >>= f) = f x := rfl

/-- The fields of an object that has exactly these, in this order. -/
theorem fields_object (names : List String) {known : List (String × Json)}
    (hk : known.map (·.1) = names) (hn : names.Nodup) :
    fields names (object known).toValue = some fun name => (lookup name known).map toValue :=
  fields_toValue (hk ▸ hn)

/-! ## Numbers -/

def asU8 (v : Json) : Option UInt8 := (v.asUnsigned 8).map .ofNat
def asU16 (v : Json) : Option UInt16 := (v.asUnsigned 16).map .ofNat
def asU32 (v : Json) : Option UInt32 := (v.asUnsigned 32).map .ofNat
def asU64 (v : Json) : Option UInt64 := (v.asUnsigned 64).map .ofNat

def asInteger : Json → Option Int
  | .natural n => some n
  | .negative n => some (-n)
  | _ => none

def asI32 (v : Json) : Option Int32 :=
  (v.asInteger.filter fun n => -2 ^ 31 ≤ n && n < 2 ^ 31).map .ofInt

def ofInteger (n : Int) : Json := if 0 ≤ n then .natural n.toNat else .negative (-n).toNat

theorem asUnsigned_natural {bits n : Nat} (h : n < 2 ^ bits) :
    (natural n).asUnsigned bits = some n :=
  Option.filter_eq_some_iff.mpr ⟨rfl, decide_eq_true h⟩

@[simp] theorem asU8_natural (n : UInt8) : (natural n.toNat).asU8 = some n := by
  rw [asU8, asUnsigned_natural n.toNat_lt, Option.map_some, UInt8.ofNat_toNat]

@[simp] theorem asU16_natural (n : UInt16) : (natural n.toNat).asU16 = some n := by
  rw [asU16, asUnsigned_natural n.toNat_lt, Option.map_some, UInt16.ofNat_toNat]

@[simp] theorem asU32_natural (n : UInt32) : (natural n.toNat).asU32 = some n := by
  rw [asU32, asUnsigned_natural n.toNat_lt, Option.map_some, UInt32.ofNat_toNat]

@[simp] theorem asU64_natural (n : UInt64) : (natural n.toNat).asU64 = some n := by
  rw [asU64, asUnsigned_natural n.toNat_lt, Option.map_some, UInt64.ofNat_toNat]

@[simp] theorem asI32_ofInteger (n : Int32) : (ofInteger n.toInt).asI32 = some n := by
  have hinteger : (ofInteger n.toInt).asInteger = some n.toInt := by
    unfold ofInteger
    split
    · exact congrArg some (Int.toNat_of_nonneg ‹_›)
    · refine congrArg some ?_
      rw [Int.toNat_of_nonneg (by omega), neg_neg]
  rw [asI32, hinteger, Option.filter_eq_some_iff.mpr ⟨rfl, ?_⟩, Option.map_some, Int32.ofInt_toInt]
  have hle := n.le_toInt
  have hlt := n.toInt_lt
  simp only [Bool.and_eq_true, decide_eq_true_eq]
  exact ⟨hle, hlt⟩

@[simp] theorem toValue_ofInteger (n : Int) : (ofInteger n).toValue = ofInteger n := by
  unfold ofInteger
  split
  · rfl
  · rfl

theorem Plain.ofInteger {k : Nat} (n : Int) : Plain k (ofInteger n) := by
  unfold Json.ofInteger
  split
  · exact .natural
  · exact .negative

end Json

/-! ## Paths -/

def PathBuf.toJson (p : PathBuf) : Option Json :=
  (String.fromUTF8? ⟨p.bytes.toArray⟩).map .string

def PathBuf.fromJson (v : Json) : Option PathBuf := v.asString.map fun s => ⟨s.toUTF8.data.toList⟩

theorem PathBuf.fromJson_toJson {p : PathBuf} {v : Json} (h : p.toJson = some v) :
    fromJson v.toValue = some p := by
  obtain ⟨s, hs, rfl⟩ := Option.map_eq_some_iff.mp h
  unfold String.fromUTF8? at hs
  split at hs
  · cases hs
    rfl
  · cases hs

theorem PathBuf.plain_toJson {p : PathBuf} {v : Json} (h : p.toJson = some v) : Json.Plain 0 v := by
  obtain ⟨s, -, rfl⟩ := Option.map_eq_some_iff.mp h
  exact .string

/-! ## Axes -/

def SplitAxis.toJson : SplitAxis → Json
  | .horizontal => .string "Horizontal"
  | .vertical => .string "Vertical"

def SplitAxis.fromJson (v : Json) : Option SplitAxis :=
  match v.asUnit with
  | some "Horizontal" => some .horizontal
  | some "Vertical" => some .vertical
  | _ => none

@[simp] theorem SplitAxis.fromJson_toJson (axis : SplitAxis) : fromJson axis.toJson.toValue = some axis := by
  cases axis <;> rfl

theorem SplitAxis.plain_toJson (axis : SplitAxis) : Json.Plain 0 axis.toJson := by
  cases axis <;> exact .string

/-! ## Identifiers -/

def nibble (c : Char) : Option Nat :=
  if 48 ≤ c.toNat ∧ c.toNat ≤ 57 then some (c.toNat - 48)
  else if 97 ≤ c.toNat ∧ c.toNat ≤ 102 then some (c.toNat - 87)
  else none

namespace OpaqueId

variable {kind : IdKind}

/-- `$name::from_str`. -/
def fromStr (kind : IdKind) (s : String) : Option (OpaqueId kind) := do
  let digits ← s.toList.mapM nibble
  if digits.length = 32 then
    return ⟨Fin.ofNat _ (digits.foldl (fun value digit => 16 * value + digit) 0)⟩
  else none

/-- The last `n` digits of a number, in base 16. -/
def digits : Nat → Nat → List Nat
  | 0, _ => []
  | n + 1, value => digits n (value / 16) ++ [value % 16]

/-- `$name::to_string`. -/
@[irreducible] def text (id : OpaqueId kind) : String := String.ofList ((digits 32 id.value).map Nat.digitChar)

def toJson (id : OpaqueId kind) : Json := .string id.text

def fromJson (v : Json) : Option (OpaqueId kind) := v.asString.bind (fromStr kind)

theorem length_digits (n value : Nat) : (digits n value).length = n := by
  induction n generalizing value with
  | zero => rfl
  | succ n ih => rw [digits, List.length_append, ih, List.length_singleton]

theorem digits_lt {n value d : Nat} (h : d ∈ digits n value) : d < 16 := by
  induction n generalizing value with
  | zero => cases h
  | succ n ih =>
    rcases List.mem_append.mp h with h | h
    · exact ih h
    · rw [List.mem_singleton.mp h]
      exact Nat.mod_lt _ (by decide)

theorem foldl_digits {n value : Nat} (h : value < 16 ^ n) :
    (digits n value).foldl (fun value digit => 16 * value + digit) 0 = value := by
  induction n generalizing value with
  | zero => exact (Nat.lt_one_iff.mp h).symm
  | succ n ih =>
    have hdiv : value / 16 < 16 ^ n := Nat.div_lt_of_lt_mul (by rwa [Nat.pow_succ'] at h)
    rw [digits, List.foldl_append, ih hdiv, List.foldl_cons, List.foldl_nil]
    exact Nat.div_add_mod value 16

theorem nibble_digitChar : ∀ d < 16, nibble (Nat.digitChar d) = some d := by decide

theorem mapM_nibble {l : List Nat} (h : ∀ d ∈ l, d < 16) :
    (l.map Nat.digitChar).mapM nibble = some l := by
  induction l with
  | nil => rfl
  | cons d l ih =>
    obtain ⟨hd, hl⟩ := List.forall_mem_cons.mp h
    rw [List.map_cons, List.mapM_cons, nibble_digitChar d hd, ih hl]
    rfl

theorem fromStr_text (id : OpaqueId kind) : fromStr kind id.text = some id := by
  have hlt : (id.value : Nat) < 16 ^ 32 := id.value.isLt.trans_eq (by norm_num)
  unfold fromStr text
  rw [String.toList_ofList, mapM_nibble fun d => digits_lt, Option.bind_eq_bind, Option.bind_some,
    if_pos (length_digits 32 _), foldl_digits hlt, Fin.ofNat_val_eq_self]
  rfl

theorem text_injective : Function.Injective (@text kind) := by
  intro a b h
  have hsome := congrArg (fromStr kind) h
  rw [fromStr_text, fromStr_text] at hsome
  exact Option.some.inj hsome

@[simp] theorem fromJson_toJson (id : OpaqueId kind) : fromJson id.toJson.toValue = some id := by
  rw [toJson, Json.toValue, fromJson, Json.asString, Option.bind_some, fromStr_text]

theorem plain_toJson (id : OpaqueId kind) : Json.Plain 0 id.toJson := .string

end OpaqueId

/-! ## Maps under identifiers -/

namespace SortedMap

variable {κ ν : Type} [LinearOrder κ]

/-- The entries of the map of a list whose keys are not repeated. -/
theorem entries_ofList_perm {l : List (κ × ν)} (h : (l.map (·.1)).Nodup) :
    (ofList l).entries.Perm l := by
  induction l using List.reverseRecOn with
  | nil => exact .nil
  | append_singleton l e ih =>
    rw [List.map_append, List.nodup_append] at h
    obtain ⟨hl, -, hdisjoint⟩ := h
    rw [ofList_append_singleton]
    have habsent : e.1 ∉ (ofList l).keys := by
      rw [mem_keys_ofList]
      exact fun hmem => hdisjoint e.1 hmem e.1 List.mem_cons_self rfl
    exact (perm_insert habsent).trans (((ih hl).cons e).trans (List.perm_append_singleton e l).symm)

/-- The entries of a map rebuild it in any order. -/
theorem ofList_of_perm {m : SortedMap κ ν} {l : List (κ × ν)} (h : l.Perm m.entries) :
    ofList l = m := by
  have hkeys : (m.entries.map (·.1)).Nodup := m.nodup_keys
  have hnodup : (l.map (·.1)).Nodup := (h.map (·.1)).nodup_iff.mpr hkeys
  exact ext_mem fun e => ((entries_ofList_perm hnodup).trans h).mem_iff

end SortedMap

namespace Json

variable {kind : IdKind} {α : Type} {encode : α → Json} {decode : Json → Option α}

def ofMap (encode : α → Json) (m : SortedMap (OpaqueId kind) α) : Json :=
  .object (m.entries.map fun e => (e.1.text, encode e.2))

def asEntry (kind : IdKind) (decode : Json → Option α) (m : String × Json) :
    Option (OpaqueId kind × α) := do
  let id ← OpaqueId.fromStr kind m.1
  let v ← decode m.2
  return (id, v)

def asMap (kind : IdKind) (decode : Json → Option α) : Json → Option (SortedMap (OpaqueId kind) α)
  | .object members => (members.mapM (asEntry kind decode)).map .ofList
  | _ => none

/-- A map is decoded where its values are. -/
theorem asMap_ofMap {m : SortedMap (OpaqueId kind) α}
    (h : ∀ v ∈ m.values, decode (encode v).toValue = some v) :
    asMap kind decode (ofMap encode m).toValue = some m := by
  have hnodup : ((m.entries.map fun e => (e.1.text, (encode e.2).toValue)).map (·.1)).Nodup := by
    have htexts : (m.entries.map fun e => (e.1.text, (encode e.2).toValue)).map (·.1) =
        m.keys.map OpaqueId.text := by
      rw [SortedMap.keys, List.map_map, List.map_map]
      rfl
    rw [htexts]
    exact m.nodup_keys.map OpaqueId.text_injective
  -- The members are those of the map, in some order.
  obtain ⟨l, hperm, hmembers⟩ : ∃ l : List (OpaqueId kind × α), l.Perm m.entries ∧
      (SortedMap.ofList (m.entries.map fun e => (e.1.text, (encode e.2).toValue))).entries =
        l.map fun e => (e.1.text, (encode e.2).toValue) := by
    have hperm := SortedMap.entries_ofList_perm hnodup
    have hcomp := List.eq_map_comp_perm fun e : OpaqueId kind × α => (e.1.text, (encode e.2).toValue)
    rw [← congrFun (congrFun hcomp _) m.entries] at hperm
    obtain ⟨l, hmap, hl⟩ := hperm
    exact ⟨l, hl, hmap⟩
  have hentries : (l.map fun e => (e.1.text, (encode e.2).toValue)).mapM (asEntry kind decode) =
      some l := by
    have hl : ∀ e ∈ l, decode (encode e.2).toValue = some e.2 := fun e he =>
      h e.2 (List.mem_map_of_mem (hperm.mem_iff.mp he))
    clear hperm hmembers
    induction l with
    | nil => rfl
    | cons e l ih =>
      obtain ⟨he, hl⟩ := List.forall_mem_cons.mp hl
      rw [List.map_cons, List.mapM_cons, ih hl, asEntry, OpaqueId.fromStr_text, he]
      rfl
  rw [ofMap, toValue, valueMembers_eq, List.map_map]
  show (List.mapM (asEntry kind decode) (SortedMap.ofList
    (m.entries.map fun e => (e.1.text, (encode e.2).toValue))).entries).map _ = _
  rw [hmembers, hentries, Option.map_some, SortedMap.ofList_of_perm hperm]

theorem Plain.ofMap {n : Nat} {m : SortedMap (OpaqueId kind) α}
    (h : ∀ v ∈ m.values, Plain n (encode v)) : Plain (n + 1) (ofMap encode m) := by
  refine .object fun e he => ?_
  obtain ⟨⟨id, v⟩, hv, rfl⟩ := List.mem_map.mp he
  exact h v (List.mem_map_of_mem hv)

/-! ## Lists -/

/-- A list is decoded where its items are. -/
theorem mapM_toValue {items : List α} (h : ∀ v ∈ items, decode (encode v).toValue = some v) :
    ((items.map encode).map toValue).mapM decode = some items := by
  induction items with
  | nil => rfl
  | cons v items ih =>
    obtain ⟨hv, hitems⟩ := List.forall_mem_cons.mp h
    rw [List.map_cons, List.map_cons, List.mapM_cons, hv, ih hitems]
    rfl

end Json
end Strukt
