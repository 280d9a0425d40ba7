import Strukt.Lib.Columns
import Strukt.Prim

/-!
# Texts by their bytes

A text is sliced at bytes: `takeBytes` is the slice up to a byte. Where that byte begins a
character, or is the end, the slice is of whole characters (`takeBytes_column`).
-/

namespace Strukt

/-- `str::len`. -/
def byteLen (text : List Char) : Nat := (text.map Char.utf8Size).sum

theorem byteLen_eq_column (text : List Char) :
    byteLen text = column Char.utf8Size text text.length := by
  unfold column
  rw [List.take_length]
  rfl

theorem utf8ByteSize_ofList (text : List Char) :
    (String.ofList text).utf8ByteSize = byteLen text := by
  induction text with
  | nil => rfl
  | cons c text ih =>
    rw [← List.singleton_append, String.ofList_append, String.utf8ByteSize_append, ih,
      ← String.singleton_eq_ofList, String.utf8ByteSize_singleton]
    rfl

theorem takeBytes_column (text : List Char) (n : Nat) :
    takeBytes (column Char.utf8Size text n) text = text.take n := by
  induction text generalizing n with
  | nil => rw [List.take_nil]; rfl
  | cons c text ih =>
    cases n with
    | zero =>
      have := c.utf8Size_pos
      rw [column_zero, takeBytes, if_neg (by omega), List.take_zero]
    | succ n =>
      rw [column_cons_succ, takeBytes, if_pos (Nat.le_add_right ..), Nat.add_sub_cancel_left, ih,
        List.take_succ_cons]

theorem takeBytes_isPrefix (limit : Nat) (text : List Char) : takeBytes limit text <+: text := by
  induction text generalizing limit with
  | nil => exact List.nil_prefix
  | cons c text ih =>
    unfold takeBytes
    split
    · exact (List.prefix_cons_inj c).mpr (ih _)
    · exact List.nil_prefix

theorem byteLen_append (l l' : List Char) : byteLen (l ++ l') = byteLen l + byteLen l' := by
  unfold byteLen
  rw [List.map_append, List.sum_append]

theorem byteLen_takeBytes_le (limit : Nat) (text : List Char) :
    byteLen (takeBytes limit text) ≤ limit := by
  induction text generalizing limit with
  | nil => exact Nat.zero_le _
  | cons c text ih =>
    unfold takeBytes
    split
    · have := ih (limit - c.utf8Size)
      change c.utf8Size + byteLen _ ≤ limit
      omega
    · exact Nat.zero_le _

theorem takeBytes_append {limit : Nat} {l : List Char} (h : byteLen l ≤ limit) (l' : List Char) :
    takeBytes limit (l ++ l') = l ++ takeBytes (limit - byteLen l) l' := by
  induction l generalizing limit with
  | nil => rfl
  | cons c l ih =>
    change c.utf8Size + byteLen l ≤ limit at h
    rw [List.cons_append, takeBytes, if_pos (by omega), ih (by omega), List.cons_append,
      Nat.sub_sub]
    rfl

theorem takeBytes_zero (text : List Char) : takeBytes 0 text = [] := by
  cases text with
  | nil => rfl
  | cons c text =>
    have := c.utf8Size_pos
    rw [takeBytes, if_neg (by omega)]

end Strukt
