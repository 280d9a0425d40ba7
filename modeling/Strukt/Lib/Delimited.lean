import Strukt.Lib.Cbor

/-!
# Encodings that show where they end

`Delimited p enc` says that an encoding of a value that satisfies `p` can be read off the front of
any list: it determines the value and what follows it. So it stays readable when more is written
behind it, which injectivity alone does not give.

* **Fixed width** (`Delimited.of_length`): injective, and always as long; big-endian numbers are.
* **Length first** (`delimited_sized`): a list behind its length.
* **Many** (`Delimited.flatMap_inj`): lists of delimited values, none of them empty.
-/

namespace Strukt

open Cbor (bigEndian)

variable {α γ : Type}

/-- The front of a list that begins with an encoding determines the value and the rest. -/
def Delimited (p : α → Prop) (enc : α → List γ) : Prop :=
  ∀ a b u v, p a → p b → enc a ++ u = enc b ++ v → a = b ∧ u = v

namespace Delimited

variable {p : α → Prop} {enc : α → List γ}

theorem of_length {n : Nat} (hlen : ∀ a, p a → (enc a).length = n)
    (hinj : ∀ a b, p a → p b → enc a = enc b → a = b) : Delimited p enc := by
  intro a b u v ha hb h
  have hl : (enc a).length = (enc b).length := by rw [hlen a ha, hlen b hb]
  obtain ⟨he, hrest⟩ := List.append_inj h hl
  exact ⟨hinj a b ha hb he, hrest⟩

/-- A list of values whose encodings stand one after the other. -/
theorem flatMap_inj (h : Delimited p enc) (hne : ∀ a, p a → enc a ≠ []) {l l' : List α}
    (hl : ∀ a ∈ l, p a) (hl' : ∀ a ∈ l', p a) (he : l.flatMap enc = l'.flatMap enc) : l = l' := by
  induction l generalizing l' with
  | nil =>
    cases l' with
    | nil => rfl
    | cons b l' =>
      rw [List.flatMap_nil, List.flatMap_cons] at he
      exact absurd (List.append_eq_nil_iff.mp he.symm).1 (hne b (hl' b List.mem_cons_self))
  | cons a l ih =>
    cases l' with
    | nil =>
      rw [List.flatMap_nil, List.flatMap_cons] at he
      exact absurd (List.append_eq_nil_iff.mp he).1 (hne a (hl a List.mem_cons_self))
    | cons b l' =>
      rw [List.flatMap_cons, List.flatMap_cons] at he
      obtain ⟨rfl, hrest⟩ := h a b _ _ (hl a List.mem_cons_self) (hl' b List.mem_cons_self) he
      rw [ih (fun x hx => hl x (List.mem_cons_of_mem _ hx))
        (fun x hx => hl' x (List.mem_cons_of_mem _ hx)) hrest]

end Delimited

/-- A list behind an encoding of its length. -/
theorem delimited_sized {p : Nat → Prop} {enc : Nat → List γ} (h : Delimited p enc) :
    Delimited (fun l : List γ => p l.length) fun l => enc l.length ++ l := by
  intro a b u v ha hb he
  simp only [List.append_assoc] at he
  obtain ⟨hl, hrest⟩ := h _ _ _ _ ha hb he
  exact List.append_inj hrest hl

/-! ## Numbers -/

theorem bigEndian_inj {k n m : Nat} (hn : n < 256 ^ k) (hm : m < 256 ^ k)
    (h : bigEndian n k = bigEndian m k) : n = m := by
  -- The highest bytes are equal, and so are the numbers without them.
  have key : ∀ k, bigEndian n k = bigEndian m k → n % 256 ^ k = m % 256 ^ k := by
    intro k
    induction k with
    | zero => intro _; rw [pow_zero, Nat.mod_one, Nat.mod_one]
    | succ k ih =>
      intro h
      obtain ⟨hhead, htail⟩ := List.cons.inj h
      have hpow : 2 ^ (8 * k) = 256 ^ k := pow_mul 2 8 k
      have hbyte : n / 256 ^ k % 256 = m / 256 ^ k % 256 := by
        have := congrArg UInt8.toNat hhead
        rwa [UInt8.toNat_ofNat', UInt8.toNat_ofNat', Nat.shiftRight_eq_div_pow,
          Nat.shiftRight_eq_div_pow, hpow] at this
      rw [pow_succ, Nat.mod_mul, Nat.mod_mul, hbyte, ih htail]
  have hk := key k h
  rwa [Nat.mod_eq_of_lt hn, Nat.mod_eq_of_lt hm] at hk

theorem delimited_bigEndian (k : Nat) : Delimited (· < 256 ^ k) (bigEndian · k) :=
  .of_length (fun n _ => Cbor.length_bigEndian n k) fun _ _ hn hm h => bigEndian_inj hn hm h

end Strukt
