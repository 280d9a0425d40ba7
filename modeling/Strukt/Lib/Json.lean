import Strukt.Lib.SortedMap

/-!
# JSON values

`Json` is a value as a text says it: the members of an object stand in their order, and an integer
is apart from a float, which is its bits. `depth` counts the arrays and objects around the innermost
value, which is what a parser bounds.

* **Trees** (`toValue`): a value whose objects are maps has their members sorted, and the last one of
  a name.
* **Decoding** follows derived deserializers: `fields` finds the fields of a struct in an object,
  where unknown members are skipped and a field given twice is refused, or in an array by position;
  `variant` is an externally tagged enum.
* **Text** (`JsonText`): a text that is nested too deeply is refused, and a float can come back as a
  neighbour of what was written.
-/

namespace Strukt

inductive Json where
  | null
  | bool (b : Bool)
  | natural (n : Nat)
  /-- The negative of `n`. -/
  | negative (n : Nat)
  | float (bits : UInt64)
  | string (s : String)
  | array (items : List Json)
  | object (members : List (String × Json))

namespace Json

mutual

def depth : Json → Nat
  | .array items => depthItems items + 1
  | .object members => depthMembers members + 1
  | .null | .bool _ | .natural _ | .negative _ | .float _ | .string _ => 0

def depthItems : List Json → Nat
  | [] => 0
  | v :: rest => max v.depth (depthItems rest)

def depthMembers : List (String × Json) → Nat
  | [] => 0
  | (_, v) :: rest => max v.depth (depthMembers rest)

end

mutual

/-- The value with `f` applied to its floats. -/
def mapFloats (f : UInt64 → UInt64) : Json → Json
  | .float bits => .float (f bits)
  | .array items => .array (mapItems f items)
  | .object members => .object (mapMembers f members)
  | .null => .null
  | .bool b => .bool b
  | .natural n => .natural n
  | .negative n => .negative n
  | .string s => .string s

def mapItems (f : UInt64 → UInt64) : List Json → List Json
  | [] => []
  | v :: rest => v.mapFloats f :: mapItems f rest

def mapMembers (f : UInt64 → UInt64) : List (String × Json) → List (String × Json)
  | [] => []
  | (name, v) :: rest => (name, v.mapFloats f) :: mapMembers f rest

end

mutual

/-- The value as a tree whose objects are maps: their members are sorted, and of two members of one
name the last one counts. -/
def toValue : Json → Json
  | .array items => .array (valueItems items)
  | .object members => .object (SortedMap.ofList (valueMembers members)).entries
  | .null => .null
  | .bool b => .bool b
  | .natural n => .natural n
  | .negative n => .negative n
  | .float bits => .float bits
  | .string s => .string s

def valueItems : List Json → List Json
  | [] => []
  | v :: rest => v.toValue :: valueItems rest

def valueMembers : List (String × Json) → List (String × Json)
  | [] => []
  | (name, v) :: rest => (name, v.toValue) :: valueMembers rest

end

/-! ## Decoding -/

def asNatural : Json → Option Nat
  | .natural n => some n
  | _ => none

/-- An unsigned integer of `bits` bits. -/
def asUnsigned (bits : Nat) (v : Json) : Option Nat := v.asNatural.filter (· < 2 ^ bits)

def asBool : Json → Option Bool
  | .bool b => some b
  | _ => none

def asString : Json → Option String
  | .string s => some s
  | _ => none

def asArray : Json → Option (List Json)
  | .array items => some items
  | _ => none

def isNumber : Json → Bool
  | .natural _ | .negative _ | .float _ => true
  | _ => false

/-- `Option<T>`. -/
def asOption {α : Type} (decode : Json → Option α) : Json → Option (Option α)
  | .null => some none
  | v => (decode v).map some

/-- A field of a type `Option<T>`, which may be missing. -/
def optionalField {α : Type} (decode : Json → Option α) (v : Option Json) : Option (Option α) :=
  v.elim (some none) (asOption decode)

def lookup (name : String) (members : List (String × Json)) : Option Json :=
  (members.find? (·.1 = name)).map (·.2)

/-- No two members have the name. -/
def atMostOnce (members : List (String × Json)) (name : String) : Bool :=
  (members.filter (·.1 = name)).length ≤ 1

/-- The fields of a struct, by their names. -/
def fields (names : List String) : Json → Option (String → Option Json)
  | .object members =>
    if names.all (atMostOnce members) then some fun name => lookup name members else none
  | .array items =>
    if items.length ≤ names.length then some fun name => lookup name (names.zip items) else none
  | _ => none

/-- The fields of a struct that keeps its unknown members, and these. -/
def fieldsWithRest (names : List String) :
    Json → Option ((String → Option Json) × List (String × Json))
  | .object members =>
    if names.all (atMostOnce members) then
      some (fun name => lookup name members, members.filter (·.1 ∉ names))
    else none
  | _ => none

/-- The name of a variant, and what it holds. -/
def variant : Json → Option (String × Option Json)
  | .string name => some (name, none)
  | .object [(name, v)] => some (name, some v)
  | _ => none

/-- A variant that holds nothing. -/
def asUnit : Json → Option String
  | .string name => some name
  | .object [(name, .null)] => some name
  | _ => none

/-- Items that are decoded where they satisfy `p`. -/
theorem mapM_encode {α : Type} {encode : α → Json} {decode : Json → Option α} {p : α → Bool}
    (h : ∀ x, decode (encode x) = if p x then some x else none) (items : List α) :
    (items.map encode).mapM decode = if items.all p then some items else none := by
  induction items with
  | nil => rfl
  | cons x items ih =>
    rw [List.map_cons, List.mapM_cons, h, ih, List.all_cons]
    cases p x with
    | false => rfl
    | true =>
      cases items.all p with
      | false => rfl
      | true => rfl

theorem mapM_string (l : List String) : (l.map Json.string).mapM Json.asString = some l := by
  induction l with
  | nil => rfl
  | cons s l ih =>
    rw [List.map_cons, List.mapM_cons, ih]
    rfl
/-- An optional value that is decoded where it satisfies `p`. -/
theorem asOption_encode {α : Type} {encode : α → Json} {decode : Json → Option α} {p : α → Bool}
    (hn : ∀ x, encode x ≠ .null) (h : ∀ x, decode (encode x) = if p x then some x else none)
    (x : Option α) :
    asOption decode (x.elim .null encode) = if x.all p then some x else none := by
  cases x with
  | none => rfl
  | some x =>
    rw [Option.elim_some, Option.all_some]
    unfold asOption
    split
    · next hx => exact absurd hx (hn x)
    · rw [h]
      cases p x <;> rfl

/-- Members after the declared ones, where none of them has the name of one. -/
theorem fieldsWithRest_append {names : List String} {known rest : List (String × Json)}
    (hk : known.map (·.1) = names) (hn : names.Nodup) (h : ∀ m ∈ rest, m.1 ∉ names) :
    fieldsWithRest names (.object (known ++ rest)) =
      some (fun name => lookup name (known ++ rest), rest) := by
  subst hk
  have honce : (known.map (·.1)).all (atMostOnce (known ++ rest)) = true := by
    refine List.all_eq_true.mpr fun name hname => ?_
    have hrest : rest.filter (·.1 = name) = [] := by
      refine List.filter_eq_nil_iff.mpr fun m hm => ?_
      rw [decide_eq_true_eq]
      rintro rfl
      exact h m hm hname
    have hcount := List.nodup_iff_count_le_one.mp hn name
    rw [List.count_eq_length_filter, List.filter_map, List.length_map] at hcount
    rw [atMostOnce, List.filter_append, hrest, List.append_nil, decide_eq_true_eq]
    refine le_of_eq_of_le (congrArg List.length (List.filter_congr fun m _ => ?_)) hcount
    rw [Bool.eq_iff_iff, decide_eq_true_eq, Function.comp_apply, beq_iff_eq]
  have hknown : known.filter (·.1 ∉ known.map (·.1)) = [] := by
    refine List.filter_eq_nil_iff.mpr fun m hm => ?_
    rw [decide_eq_true_eq, not_not]
    exact List.mem_map_of_mem hm
  have hall : rest.filter (·.1 ∉ known.map (·.1)) = rest :=
    List.filter_eq_self.mpr fun m hm => decide_eq_true (h m hm)
  rw [fieldsWithRest, if_pos honce, List.filter_append, hknown, hall, List.nil_append]

/-- A member after the declared ones that has the name of one is a duplicate. -/
theorem fieldsWithRest_duplicate {names : List String} {known rest : List (String × Json)}
    (hk : known.map (·.1) = names) {m : String × Json} (hm : m ∈ rest) (hname : m.1 ∈ names) :
    fieldsWithRest names (.object (known ++ rest)) = none := by
  subst hk
  refine if_neg fun hall => ?_
  have honce := List.all_eq_true.mp hall m.1 hname
  obtain ⟨k, hkm, hkn⟩ := List.mem_map.mp hname
  have hfirst : 0 < (known.filter (·.1 = m.1)).length :=
    List.length_pos_of_mem (List.mem_filter.mpr ⟨hkm, decide_eq_true hkn⟩)
  have hsecond : 0 < (rest.filter (·.1 = m.1)).length :=
    List.length_pos_of_mem (List.mem_filter.mpr ⟨hm, decide_eq_true rfl⟩)
  rw [atMostOnce, List.filter_append, List.length_append, decide_eq_true_eq] at honce
  omega

/-- Undeclared members beside the declared ones. -/
theorem fieldsWithRest_entries (names : List String) {known : List (String × Json)}
    {extensions : SortedMap String Json} (hk : known.map (·.1) = names) (hn : names.Nodup) :
    fieldsWithRest names (.object (known ++ extensions.entries)) =
      if extensions.keys.all (· ∉ names) then
        some (fun name => lookup name (known ++ extensions.entries), extensions.entries)
      else none := by
  split
  · next h =>
    refine fieldsWithRest_append hk hn fun m hm => ?_
    exact of_decide_eq_true (List.all_eq_true.mp h m.1 (List.mem_map_of_mem hm))
  · next h =>
    obtain ⟨name, hname, hmem⟩ := List.all_eq_false.mp (Bool.eq_false_of_not_eq_true h)
    obtain ⟨m, hm, rfl⟩ := List.mem_map.mp hname
    exact fieldsWithRest_duplicate hk hm (by simpa using hmem)

/-! ## Depth -/

variable {limit : Nat} {f : UInt64 → UInt64}

theorem depthItems_le {items : List Json} :
    depthItems items ≤ limit ↔ ∀ v ∈ items, v.depth ≤ limit := by
  induction items with
  | nil => simp [depthItems]
  | cons v rest ih => simp [depthItems, ih]

theorem depthMembers_le {members : List (String × Json)} :
    depthMembers members ≤ limit ↔ ∀ m ∈ members, m.2.depth ≤ limit := by
  induction members with
  | nil => simp [depthMembers]
  | cons m rest ih => simp [depthMembers, ih]

theorem mapItems_eq (items : List Json) : mapItems f items = items.map (mapFloats f) := by
  induction items with
  | nil => rfl
  | cons v rest ih => rw [mapItems, ih, List.map_cons]

theorem mapMembers_eq (members : List (String × Json)) :
    mapMembers f members = members.map fun m => (m.1, m.2.mapFloats f) := by
  induction members with
  | nil => rfl
  | cons m rest ih => rw [mapMembers, ih, List.map_cons]

theorem valueItems_eq (items : List Json) : valueItems items = items.map toValue := by
  induction items with
  | nil => rfl
  | cons v rest ih => rw [valueItems, ih, List.map_cons]

theorem valueMembers_eq (members : List (String × Json)) :
    valueMembers members = members.map fun m => (m.1, m.2.toValue) := by
  induction members with
  | nil => rfl
  | cons m rest ih => rw [valueMembers, ih, List.map_cons]

/-! ## Sorted members -/

theorem atMostOnce_entries (m : SortedMap String Json) (name : String) :
    atMostOnce m.entries name = true := by
  have hcount := List.nodup_iff_count_le_one.mp m.nodup_keys name
  rw [SortedMap.keys, List.count_eq_length_filter, List.filter_map, List.length_map] at hcount
  rw [atMostOnce, decide_eq_true_eq]
  refine le_of_eq_of_le (congrArg List.length (List.filter_congr fun m _ => ?_)) hcount
  rw [Bool.eq_iff_iff, decide_eq_true_eq, Function.comp_apply, beq_iff_eq]

/-- A member of an object whose members are sorted. -/
theorem lookup_toValue {members : List (String × Json)} (h : (members.map (·.1)).Nodup)
    (name : String) :
    lookup name (SortedMap.ofList (valueMembers members)).entries =
      (lookup name members).map toValue := by
  have hnames : (valueMembers members).map (·.1) = members.map (·.1) := by
    rw [valueMembers_eq, List.map_map]
    rfl
  show (SortedMap.ofList (valueMembers members)).get? name = _
  rw [SortedMap.get?_ofList (hnames ▸ h), valueMembers_eq, List.find?_map, lookup, Option.map_map,
    Option.map_map]
  rfl

/-- The fields of a struct in an object whose members are sorted. -/
theorem fields_toValue {names : List String} {members : List (String × Json)}
    (h : (members.map (·.1)).Nodup) :
    fields names (object members).toValue =
      some fun name => (lookup name members).map toValue := by
  rw [toValue, fields, if_pos (List.all_eq_true.mpr fun name _ => atMostOnce_entries _ name)]
  exact congrArg some (funext (lookup_toValue h))

/-- Undeclared members beside the declared ones, in an object whose members are sorted. -/
theorem fieldsWithRest_toValue {names : List String} {known : List (String × Json)}
    {extensions : SortedMap String Json} (hk : known.map (·.1) = names) (hn : names.Nodup)
    (h : ∀ name ∈ extensions.keys, name ∉ names) :
    ∃ rest, fieldsWithRest names (object (known ++ extensions.entries)).toValue =
        some (fun name => (lookup name (known ++ extensions.entries)).map toValue, rest) ∧
      SortedMap.ofList rest = extensions.mapValues toValue := by
  have hnodup : ((known ++ extensions.entries).map (·.1)).Nodup := by
    rw [List.map_append, hk]
    exact hn.append extensions.nodup_keys fun name hname hext => h name hext hname
  refine ⟨(SortedMap.ofList (valueMembers (known ++ extensions.entries))).entries.filter
    (·.1 ∉ names), ?_, ?_⟩
  · have hfields : (fun name => lookup name
        (SortedMap.ofList (valueMembers (known ++ extensions.entries))).entries) =
          fun name => (lookup name (known ++ extensions.entries)).map toValue :=
      funext (lookup_toValue hnodup)
    rw [toValue, fieldsWithRest,
      if_pos (List.all_eq_true.mpr fun name _ => atMostOnce_entries _ name), hfields]
  · have hrest := SortedMap.ofList_entries
      ((SortedMap.ofList (valueMembers (known ++ extensions.entries))).filterKeys (· ∉ names))
    refine hrest.trans (SortedMap.ext_get? fun name => ?_)
    rw [SortedMap.get?_filterKeys, SortedMap.get?_mapValues]
    have hget := lookup_toValue hnodup name
    by_cases hname : name ∈ names
    · have hnone : extensions.get? name = none :=
        SortedMap.get?_eq_none.mpr fun hext => h name hext hname
      rw [if_neg (by simpa using hname), hnone]
      rfl
    · have hknown : known.find? (fun m => m.1 = name) = none := by
        refine List.find?_eq_none.mpr fun m hm => ?_
        rw [decide_eq_true_eq]
        rintro rfl
        exact hname (hk ▸ List.mem_map_of_mem hm)
      rw [if_pos (by simpa using hname)]
      refine hget.trans ?_
      rw [lookup, List.find?_append, hknown, Option.none_or]
      rfl

/-! ## Plain values -/

/-- The value has at most `n` levels and no floats. -/
structure Plain (n : Nat) (v : Json) : Prop where
  depth : v.depth ≤ n
  floats : ∀ f, v.mapFloats f = v

namespace Plain

variable {n : Nat}

theorem array {items : List Json} (h : ∀ v ∈ items, Plain n v) : Plain (n + 1) (.array items) where
  depth := Nat.succ_le_succ (depthItems_le.mpr fun v hv => (h v hv).depth)
  floats f := by
    rw [mapFloats, mapItems_eq]
    exact congrArg Json.array ((List.map_congr_left fun v hv => (h v hv).floats f).trans
      (List.map_id' items))

theorem object {members : List (String × Json)} (h : ∀ m ∈ members, Plain n m.2) :
    Plain (n + 1) (.object members) where
  depth := Nat.succ_le_succ (depthMembers_le.mpr fun m hm => (h m hm).depth)
  floats f := by
    rw [mapFloats, mapMembers_eq]
    refine congrArg Json.object ((List.map_congr_left fun m hm => ?_).trans (List.map_id' members))
    rw [(h m hm).floats f]

theorem mono {m : Nat} {v : Json} (h : Plain n v) (hm : n ≤ m) : Plain m v :=
  ⟨h.depth.trans hm, h.floats⟩

theorem null : Plain n .null := ⟨Nat.zero_le n, fun _ => rfl⟩
theorem bool {b : Bool} : Plain n (.bool b) := ⟨Nat.zero_le n, fun _ => rfl⟩
theorem natural {k : Nat} : Plain n (.natural k) := ⟨Nat.zero_le n, fun _ => rfl⟩
theorem negative {k : Nat} : Plain n (.negative k) := ⟨Nat.zero_le n, fun _ => rfl⟩
theorem string {s : String} : Plain n (.string s) := ⟨Nat.zero_le n, fun _ => rfl⟩

end Plain

end Json

/-- A JSON library: what its writer writes, and what its parser makes of that. -/
structure JsonText (τ : Type) where
  /-- The deepest nesting of arrays and objects that is parsed. -/
  limit : Nat
  /-- The float that is read where the bits were written. -/
  rereadFloat : UInt64 → UInt64
  toVec : Json → τ
  fromSlice : τ → Option Json
  fromSlice_toVec : ∀ v, fromSlice (toVec v) =
    if v.depth ≤ limit then some (v.mapFloats rereadFloat) else none

end Strukt
