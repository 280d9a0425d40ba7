import Mathlib

/-!
# Ordered maps as sorted entry lists

`SortedMap κ ν` is a finite map whose iteration order is the order of its keys. Its entries are a
list sorted strictly by key, which the structure records, so two maps with the same entries are
equal (`ext_get?`), the first entry is the one with the least key, and a concrete map computes.

* **Lookups** are membership (`get?_eq_some`): every other fact about an operation is read off
  from the entries it leaves (`mem_insert`, `mem_remove`, `mem_mapValues`).
* **One slot** (`exists_split`): a present key splits the entries around its slot, and an
  insertion at that key replaces the slot in place (`entries_insert_of_split`). Sums and
  concatenations over the values are computed slot by slot this way.
* **A new key** (`perm_insert`): inserting an absent key adds one entry, up to order.
-/

namespace Strukt

/-- A finite map with entries sorted by key. -/
structure SortedMap (κ ν : Type) [LinearOrder κ] where
  entries : List (κ × ν)
  sorted : entries.Pairwise (·.1 < ·.1)

namespace SortedMap

variable {κ ν μ : Type} [LinearOrder κ]

instance [DecidableEq ν] : DecidableEq (SortedMap κ ν) := fun a b =>
  decidable_of_iff (a.entries = b.entries) (by cases a; cases b; simp)

def empty : SortedMap κ ν := ⟨[], .nil⟩

instance : Inhabited (SortedMap κ ν) := ⟨empty⟩

def get? (m : SortedMap κ ν) (k : κ) : Option ν :=
  (m.entries.find? fun e => e.1 = k).map (·.2)

def containsKey (m : SortedMap κ ν) (k : κ) : Bool := (m.get? k).isSome

def keys (m : SortedMap κ ν) : List κ := m.entries.map (·.1)

def values (m : SortedMap κ ν) : List ν := m.entries.map (·.2)

def length (m : SortedMap κ ν) : Nat := m.entries.length

def isEmpty (m : SortedMap κ ν) : Bool := m.entries.isEmpty

/-- The map with `v` at `k`, in place of what `k` had. -/
def insert (m : SortedMap κ ν) (k : κ) (v : ν) : SortedMap κ ν where
  entries := m.entries.filter (·.1 < k) ++ (k, v) :: m.entries.filter (k < ·.1)
  sorted := by
    refine List.pairwise_append.mpr
      ⟨m.sorted.filter _, List.pairwise_cons.mpr ⟨?_, m.sorted.filter _⟩, ?_⟩
    · intro e he
      simpa using (List.mem_filter.mp he).2
    · intro e he f hf
      have hek : e.1 < k := by simpa using (List.mem_filter.mp he).2
      rcases List.mem_cons.mp hf with rfl | hf
      · exact hek
      · exact hek.trans (by simpa using (List.mem_filter.mp hf).2)

def remove (m : SortedMap κ ν) (k : κ) : SortedMap κ ν :=
  ⟨m.entries.filter (·.1 ≠ k), m.sorted.filter _⟩

/-- The entries whose key satisfies `p`. -/
def filterKeys (m : SortedMap κ ν) (p : κ → Bool) : SortedMap κ ν :=
  ⟨m.entries.filter (p ·.1), m.sorted.filter _⟩

def mapValues (f : ν → μ) (m : SortedMap κ ν) : SortedMap κ μ where
  entries := m.entries.map fun e => (e.1, f e.2)
  sorted := List.pairwise_map.mpr m.sorted

/-- The map of a list of entries; a later entry replaces an earlier one with its key. -/
def ofList (l : List (κ × ν)) : SortedMap κ ν := l.foldl (fun m e => m.insert e.1 e.2) empty

def singleton (k : κ) (v : ν) : SortedMap κ ν := ⟨[(k, v)], List.pairwise_singleton _ _⟩

/-! ## Lookups -/

variable {m : SortedMap κ ν} {k : κ}

theorem eq_of_mem {v w : ν} (hv : (k, v) ∈ m.entries)
    (hw : (k, w) ∈ m.entries) : v = w := by
  have hn : (m.entries.map (·.1)).Nodup := List.pairwise_map.mpr (m.sorted.imp ne_of_lt)
  exact congrArg (·.2) (List.inj_on_of_nodup_map hn hv hw rfl)

variable {v : ν}

theorem get?_eq_some :
    m.get? k = some v ↔ (k, v) ∈ m.entries := by
  constructor
  · intro h
    obtain ⟨e, he, rfl⟩ := Option.map_eq_some_iff.mp h
    have hk := List.find?_some he
    simp only [decide_eq_true_eq] at hk
    subst hk
    exact List.mem_of_find?_eq_some he
  · intro h
    unfold get?
    cases hf : m.entries.find? fun e => e.1 = k with
    | none => simpa using List.find?_eq_none.mp hf _ h
    | some e =>
      have hk := List.find?_some hf
      simp only [decide_eq_true_eq] at hk
      subst hk
      simp [eq_of_mem (List.mem_of_find?_eq_some hf) h]

theorem get?_eq_none : m.get? k = none ↔ k ∉ m.keys := by
  rw [← not_iff_not, ← ne_eq, Option.ne_none_iff_exists', not_not]
  simp [get?_eq_some, keys]

@[simp] theorem containsKey_iff : m.containsKey k ↔ k ∈ m.keys := by
  rw [containsKey, Option.isSome_iff_ne_none, ne_eq, get?_eq_none, not_not]

theorem mem_keys_of_get? (h : m.get? k = some v) :
    k ∈ m.keys :=
  List.mem_map.mpr ⟨(k, v), get?_eq_some.mp h, rfl⟩

theorem mem_keys_iff : k ∈ m.keys ↔ ∃ v, m.get? k = some v := by
  simp [keys, get?_eq_some]

theorem mem_values_of_get? (h : m.get? k = some v) :
    v ∈ m.values :=
  List.mem_map.mpr ⟨(k, v), get?_eq_some.mp h, rfl⟩

theorem mem_values_iff : v ∈ m.values ↔ ∃ k, m.get? k = some v := by
  simp [values, get?_eq_some]

theorem sorted_keys (m : SortedMap κ ν) : m.keys.Pairwise (· < ·) :=
  List.pairwise_map.mpr m.sorted

theorem nodup_keys (m : SortedMap κ ν) : m.keys.Nodup := m.sorted_keys.imp ne_of_lt

@[simp] theorem length_keys (m : SortedMap κ ν) : m.keys.length = m.length := by
  simp [keys, length]

@[simp] theorem length_values (m : SortedMap κ ν) : m.values.length = m.length := by
  simp [values, length]

theorem ext_mem {a b : SortedMap κ ν} (h : ∀ e, e ∈ a.entries ↔ e ∈ b.entries) : a = b := by
  have nodup : ∀ m : SortedMap κ ν, m.entries.Nodup := fun m =>
    m.sorted.imp fun hlt he => (he ▸ hlt).false
  have hp : a.entries.Perm b.entries := (List.perm_ext_iff_of_nodup (nodup a) (nodup b)).mpr h
  have he : a.entries = b.entries :=
    hp.eq_of_pairwise (fun _ _ _ _ hxy hyx => absurd hyx hxy.asymm) a.sorted b.sorted
  cases a; cases b; cases he; rfl

/-- Two maps with the same lookups are equal. -/
theorem ext_get? {a b : SortedMap κ ν} (h : ∀ k, a.get? k = b.get? k) : a = b :=
  ext_mem fun ⟨k, v⟩ => by rw [← get?_eq_some, ← get?_eq_some, h]

/-! ## What the operations leave -/

theorem mem_insert {e : κ × ν} :
    e ∈ (m.insert k v).entries ↔ e = (k, v) ∨ (e.1 ≠ k ∧ e ∈ m.entries) := by
  simp only [insert, List.mem_append, List.mem_filter, List.mem_cons, decide_eq_true_eq]
  constructor
  · rintro (⟨h, hlt⟩ | rfl | ⟨h, hlt⟩)
    · exact .inr ⟨hlt.ne, h⟩
    · exact .inl rfl
    · exact .inr ⟨hlt.ne', h⟩
  · rintro (rfl | ⟨hne, h⟩)
    · exact .inr (.inl rfl)
    · rcases lt_or_gt_of_ne hne with hlt | hlt
      · exact .inl ⟨h, hlt⟩
      · exact .inr (.inr ⟨h, hlt⟩)

theorem mem_remove {e : κ × ν} :
    e ∈ (m.remove k).entries ↔ e.1 ≠ k ∧ e ∈ m.entries := by
  simp [remove, and_comm]

theorem mem_filterKeys {p : κ → Bool} {e : κ × ν} :
    e ∈ (m.filterKeys p).entries ↔ p e.1 ∧ e ∈ m.entries := by
  simp [filterKeys, and_comm]

@[simp] theorem get?_insert {k j : κ} :
    (m.insert k v).get? j = if j = k then some v else m.get? j := by
  apply Option.ext
  intro w
  rw [get?_eq_some, mem_insert]
  split
  · subst_vars; simp [eq_comm]
  · simp [*, get?_eq_some]

@[simp] theorem get?_remove {k j : κ} :
    (m.remove k).get? j = if j = k then none else m.get? j := by
  apply Option.ext
  intro w
  rw [get?_eq_some, mem_remove]
  split
  · simp [*]
  · simp [*, get?_eq_some]

@[simp] theorem get?_filterKeys {p : κ → Bool} {j : κ} :
    (m.filterKeys p).get? j = if p j then m.get? j else none := by
  apply Option.ext
  intro w
  rw [get?_eq_some, mem_filterKeys]
  split <;> simp [*, get?_eq_some]

variable {f : ν → μ}

@[simp] theorem get?_mapValues {j : κ} :
    (m.mapValues f).get? j = (m.get? j).map f := by
  apply Option.ext
  intro w
  rw [get?_eq_some, Option.map_eq_some_iff]
  simp only [mapValues, List.mem_map, Prod.mk.injEq, get?_eq_some]
  constructor
  · rintro ⟨⟨k, v⟩, h, rfl, rfl⟩; exact ⟨v, h, rfl⟩
  · rintro ⟨v, h, rfl⟩; exact ⟨(j, v), h, rfl, rfl⟩

@[simp] theorem insert_insert {v w : ν} :
    (m.insert k v).insert k w = m.insert k w :=
  ext_get? fun j => by by_cases h : j = k <;> simp [h]

theorem insert_eq_self (h : m.get? k = some v) :
    m.insert k v = m :=
  ext_get? fun j => by by_cases hj : j = k <;> simp [hj, h]

@[simp] theorem get?_empty : (empty : SortedMap κ ν).get? k = none := rfl

@[simp] theorem get?_singleton {k j : κ} :
    (singleton k v).get? j = if j = k then some v else none := by
  by_cases h : j = k
  · subst h; simp [get?, singleton]
  · simp [get?, singleton, h, Ne.symm h]

@[simp] theorem keys_empty : (empty : SortedMap κ ν).keys = [] := rfl

@[simp] theorem keys_singleton : (singleton k v).keys = [k] := rfl

@[simp] theorem values_singleton : (singleton k v).values = [v] := rfl

@[simp] theorem mem_keys_insert {k j : κ} :
    j ∈ (m.insert k v).keys ↔ j = k ∨ j ∈ m.keys := by
  by_cases h : j = k <;> simp [mem_keys_iff, h]

@[simp] theorem mem_keys_remove {k j : κ} :
    j ∈ (m.remove k).keys ↔ j ≠ k ∧ j ∈ m.keys := by
  by_cases h : j = k <;> simp [mem_keys_iff, h]

@[simp] theorem entries_mapValues :
    (m.mapValues f).entries = m.entries.map fun e => (e.1, f e.2) := rfl

@[simp] theorem length_mapValues :
    (m.mapValues f).length = m.length := by
  simp [length]

@[simp] theorem isEmpty_mapValues :
    (m.mapValues f).isEmpty = m.isEmpty := by
  simp [isEmpty]

@[simp] theorem keys_mapValues :
    (m.mapValues f).keys = m.keys := by
  simp [keys, mapValues]

@[simp] theorem values_mapValues :
    (m.mapValues f).values = m.values.map f := by
  simp [values, mapValues]

theorem keys_remove : (m.remove k).keys = m.keys.filter (· ≠ k) := by
  simp [keys, remove, List.filter_map, Function.comp_def]

theorem isEmpty_iff : m.isEmpty ↔ m.keys = [] := by
  simp [isEmpty, keys]

theorem mem_values_insert {v w : ν} (h : w ∈ (m.insert k v).values) :
    w = v ∨ w ∈ m.values := by
  obtain ⟨j, hj⟩ := mem_values_iff.mp h
  rw [get?_insert] at hj
  split at hj
  · exact .inl (Option.some.inj hj).symm
  · exact .inr (mem_values_of_get? hj)

theorem length_eq_zero : m.length = 0 ↔ m.isEmpty := by
  simp [isEmpty, length]

/-! ## Slots -/

/-- A present key splits the entries around its slot. -/
theorem exists_split (h : m.get? k = some v) :
    ∃ pre post, m.entries = pre ++ (k, v) :: post := by
  obtain ⟨pre, post, he⟩ := List.append_of_mem (get?_eq_some.mp h)
  exact ⟨pre, post, he⟩

/-- An insertion at the key of a slot replaces the slot in place. -/
theorem entries_insert_of_split {v w : ν} {pre post : List (κ × ν)}
    (h : m.entries = pre ++ (k, v) :: post) : (m.insert k w).entries = pre ++ (k, w) :: post := by
  have hs := h ▸ m.sorted
  obtain ⟨-, hpost, hpre⟩ := List.pairwise_append.mp hs
  have hpre' : ∀ e ∈ pre, e.1 < k := fun e he => hpre e he (k, v) (by simp)
  have hpost' : ∀ e ∈ post, k < e.1 := (List.pairwise_cons.mp hpost).1
  simp only [insert, h, List.filter_append, List.filter_cons, lt_self_iff_false, decide_false,
    Bool.false_eq_true, if_false]
  rw [List.filter_eq_self.mpr (by simpa using hpre'),
    List.filter_eq_nil_iff.mpr (by simpa using fun a b hab => (hpost' _ hab).le),
    List.filter_eq_nil_iff.mpr (by simpa using fun a b hab => (hpre' _ hab).le),
    List.filter_eq_self.mpr (by simpa using hpost')]
  simp

/-- Inserting an absent key adds one entry. -/
theorem perm_insert (h : k ∉ m.keys) :
    (m.insert k v).entries.Perm ((k, v) :: m.entries) := by
  have hsplit : (m.entries.filter (·.1 < k) ++ m.entries.filter (k < ·.1)).Perm m.entries := by
    have hc : m.entries.filter (fun e => k < e.1) =
        m.entries.filter (fun e => !decide (e.1 < k)) := by
      apply List.filter_congr
      intro e he
      have hne : e.1 ≠ k := fun hk => h (List.mem_map.mpr ⟨e, he, hk⟩)
      rcases lt_or_gt_of_ne hne with hlt | hlt <;> simp [hlt, hlt.not_gt]
    rw [hc]
    exact List.filter_append_perm _ _
  exact List.perm_middle.trans (hsplit.cons _)

/-- The values after an insertion, up to order. -/
theorem values_insert_perm :
    (m.insert k v).values.Perm (v :: (m.remove k).values) := by
  have habsent : k ∉ (m.remove k).keys := fun h => (mem_keys_remove.mp h).1 rfl
  have hinsert : (m.remove k).insert k v = m.insert k v :=
    ext_get? fun j => by by_cases h : j = k <;> simp [h]
  rw [← hinsert]
  exact (perm_insert habsent).map (·.2)

theorem length_insert_of_mem {v w : ν} (h : m.get? k = some v) :
    (m.insert k w).length = m.length := by
  obtain ⟨pre, post, he⟩ := exists_split h
  simp [length, entries_insert_of_split he, he]

theorem length_insert_of_notMem (h : k ∉ m.keys) :
    (m.insert k v).length = m.length + 1 := by
  simpa [length] using (perm_insert (v := v) h).length_eq

theorem keys_insert_of_mem {v w : ν} (h : m.get? k = some v) :
    (m.insert k w).keys = m.keys := by
  obtain ⟨pre, post, he⟩ := exists_split h
  simp [keys, entries_insert_of_split he, he]

/-- The entries of a map rebuild it. -/
theorem ofList_entries (m : SortedMap κ ν) : ofList m.entries = m := by
  suffices h : ∀ (l : List (κ × ν)) (acc : SortedMap κ ν), l.Pairwise (·.1 < ·.1) →
      (∀ a ∈ acc.entries, ∀ e ∈ l, a.1 < e.1) →
      (l.foldl (fun m e => m.insert e.1 e.2) acc).entries = acc.entries ++ l by
    have := h m.entries empty m.sorted (by simp [empty])
    exact ext_mem fun e => by rw [ofList, this]; simp [empty]
  intro l
  induction l with
  | nil => simp
  | cons e l ih =>
    intro acc hl hacc
    obtain ⟨hel, hl⟩ := List.pairwise_cons.mp hl
    have hlt : ∀ a ∈ acc.entries, a.1 < e.1 := fun a ha => hacc a ha e (by simp)
    -- Every key so far is below the next one, so the insertion is at the end.
    have hins : (acc.insert e.1 e.2).entries = acc.entries ++ [e] := by
      simp only [insert]
      rw [List.filter_eq_self.mpr (by simpa using hlt),
        List.filter_eq_nil_iff.mpr (by simpa using fun a b hab => (hlt _ hab).le)]
    rw [List.foldl_cons, ih _ hl (by
      intro a ha f hf
      rw [hins, List.mem_append, List.mem_singleton] at ha
      rcases ha with ha | rfl
      · exact hacc a ha f (by simp [hf])
      · exact hel f hf), hins]
    simp

theorem mem_keys_ofList {l : List (κ × ν)} :
    k ∈ (ofList l).keys ↔ k ∈ l.map (·.1) := by
  suffices h : ∀ (l : List (κ × ν)) (m : SortedMap κ ν),
      k ∈ (l.foldl (fun m e => m.insert e.1 e.2) m).keys ↔ k ∈ l.map (·.1) ∨ k ∈ m.keys by
    simpa [ofList] using h l .empty
  intro l
  induction l with
  | nil => simp
  | cons e l ih =>
    intro m
    rw [List.foldl_cons, ih, mem_keys_insert, List.map_cons, List.mem_cons]
    tauto

theorem ofList_append_singleton {l : List (κ × ν)} {e : κ × ν} :
    ofList (l ++ [e]) = (ofList l).insert e.1 e.2 := by
  rw [ofList, List.foldl_append]
  rfl

/-- Where no key is repeated, the map has what the list has. -/
theorem get?_ofList {l : List (κ × ν)} (h : (l.map (·.1)).Nodup) :
    (ofList l).get? k = (l.find? fun e => e.1 = k).map (·.2) := by
  induction l using List.reverseRecOn with
  | nil => rfl
  | append_singleton l e ih =>
    rw [List.map_append, List.nodup_append] at h
    obtain ⟨hl, -, hdisjoint⟩ := h
    rw [ofList_append_singleton, get?_insert, ih hl, List.find?_append]
    by_cases hk : k = e.1
    · subst hk
      have hnone : l.find? (fun e' => e'.1 = e.1) = none := by
        refine List.find?_eq_none.mpr fun m hm => ?_
        rw [decide_eq_true_eq]
        exact hdisjoint m.1 (List.mem_map_of_mem hm) e.1 List.mem_cons_self
      rw [if_pos rfl, hnone, Option.none_or, List.find?_cons_of_pos (by simp)]
      rfl
    · rw [if_neg hk, List.find?_cons_of_neg (by simpa using Ne.symm hk), List.find?_nil,
        Option.or_none]

end SortedMap
end Strukt
