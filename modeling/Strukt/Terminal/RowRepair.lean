import Strukt.Terminal.GridPairing
import Strukt.Terminal.GridShape

/-!
# The repair of a row

`repair_row` walks over a row once, and resets each cell that it finds without its other half.

* **A cell** (`Kept`): what the walk makes of a cell depends on its neighbours in the row as it was,
  although the walk looks at a neighbour that it may have reset (`getElem?_repairFrom`).
* **The law** (`repair_law`): the result is paired, single cells and pairs are as they were, and
  another pass changes nothing.
-/

namespace Strukt

/-- The cell at `i` has its other half, or needs none. `before` is what stands before the row. -/
def Kept (before : Option CellWidth) (row : Row) : Nat → Prop
  | 0 =>
    (widthAt row 0 = some .wide → widthAt row 1 = some .continuation) ∧
      (widthAt row 0 = some .continuation → before = some .wide)
  | i + 1 =>
    (widthAt row (i + 1) = some .wide → widthAt row (i + 2) = some .continuation) ∧
      (widthAt row (i + 1) = some .continuation → widthAt row i = some .wide)

instance (before : Option CellWidth) (row : Row) : (i : Nat) → Decidable (Kept before row i)
  | 0 => by unfold Kept; infer_instance
  | _ + 1 => by unfold Kept; infer_instance

variable {before : Option CellWidth} {row rest : Row} {cell : Cell} {i : Nat}

/-- What the walk makes of the first cell. -/
theorem head_repairFrom (before : Option CellWidth) (cell : Cell) (rest : Row) :
    ∃ cell', repairFrom before (cell :: rest) = cell' :: repairFrom (some cell'.width) rest ∧
      cell' = if Kept before (cell :: rest) 0 then cell else .blank := by
  refine ⟨_, rfl, ?_⟩
  have hnext : rest.head?.map (·.width) = widthAt rest 0 := by cases rest <;> rfl
  rw [hnext]
  have hkept : Kept before (cell :: rest) 0 ↔
      (cell.width = .wide → widthAt rest 0 = some .continuation) ∧
        (cell.width = .continuation → before = some .wide) := by
    simp only [Kept, widthAt_cons_zero, widthAt_cons_succ, Option.some.injEq]
  simp only [hkept]
  split
  · next hw => simp [hw]
  · next hw => simp [hw]
  · next hw => simp [hw]

/-- A cell behind the first: a continuation there finds the first cell wide after the repair exactly
if it was wide before, since it is the other half itself. -/
theorem kept_cons (i : Nat) :
    Kept (some (if Kept before (cell :: rest) 0 then cell else .blank).width) rest i ↔
      Kept before (cell :: rest) (i + 1) := by
  cases i with
  | succ i => exact Iff.rfl
  | zero =>
    simp only [Kept, widthAt_cons_zero, widthAt_cons_succ, Option.some.injEq]
    refine and_congr_right fun _ => forall_congr' fun hc => ?_
    constructor
    · intro h
      split at h
      · exact h
      · cases h
    · intro h
      rw [if_pos ⟨fun _ => hc, fun hc' => by rw [h] at hc'; cases hc'⟩]
      exact h

/-- The walk keeps a cell or resets it, by what stood around it. -/
theorem getElem?_repairFrom (before : Option CellWidth) (row : Row) (i : Nat) :
    (repairFrom before row)[i]? =
      row[i]?.map fun cell => if Kept before row i then cell else .blank := by
  induction row generalizing before i with
  | nil => simp [repairFrom]
  | cons cell rest ih =>
    obtain ⟨cell', hrepair, rfl⟩ := head_repairFrom before cell rest
    rw [hrepair]
    cases i with
    | zero => rfl
    | succ i =>
      rw [List.getElem?_cons_succ, List.getElem?_cons_succ, ih]
      simp only [kept_cons]

/-- A kept cell is as it was. -/
theorem getElem?_repairRow (h : Kept none row i) : (repairRow row)[i]? = row[i]? := by
  rw [repairRow, getElem?_repairFrom]
  simp only [if_pos h, Option.map_id']

theorem kept_single (h : widthAt row i = some .single) : Kept before row i := by
  cases i <;> simp [Kept, h]

theorem kept_wide (h : widthAt row i = some .wide)
    (hnext : widthAt row (i + 1) = some .continuation) : Kept before row i := by
  cases i <;> simp [Kept, h, hnext]

theorem kept_continuation (h : widthAt row i = some .wide)
    (hnext : widthAt row (i + 1) = some .continuation) : Kept before row (i + 1) := by
  simp [Kept, h, hnext]

theorem RowPaired.kept (h : RowPaired row) (i : Nat) : Kept none row i := by
  cases i with
  | zero => exact ⟨(h.2 0).mp, fun hc => absurd hc h.1⟩
  | succ i => exact ⟨(h.2 (i + 1)).mp, (h.2 i).mpr⟩

theorem RowPaired.repairRow_eq (h : RowPaired row) : repairRow row = row :=
  List.ext_getElem? fun i => getElem?_repairRow (h.kept i)

/-- One pass pairs the wide cells and the continuations of any row, keeps its length, its single
cells and its pairs, and a second pass finds nothing to do. -/
theorem repair_law (row : Row) :
    ((∀ i, widthAt (repairRow row) i = some .wide →
        widthAt (repairRow row) (i + 1) = some .continuation) ∧
      ∀ i, widthAt (repairRow row) i = some .continuation →
        ∃ j, i = j + 1 ∧ widthAt (repairRow row) j = some .wide) ∧
    (∀ i, widthAt row i = some .single → (repairRow row)[i]? = row[i]?) ∧
    (∀ i, widthAt row i = some .wide → widthAt row (i + 1) = some .continuation →
      (repairRow row)[i]? = row[i]? ∧ (repairRow row)[i + 1]? = row[i + 1]?) ∧
    (repairRow row).length = row.length ∧
    repairRow (repairRow row) = repairRow row := by
  have hpaired := repairRow_paired row
  refine ⟨⟨fun i => (hpaired.2 i).mp, fun i hc => ?_⟩, fun i h => ?_, fun i h hnext => ?_, ?_, ?_⟩
  · cases i with
    | zero => exact absurd hc hpaired.1
    | succ i => exact ⟨i, rfl, (hpaired.2 i).mpr hc⟩
  · exact getElem?_repairRow (kept_single h)
  · exact ⟨getElem?_repairRow (kept_wide h hnext), getElem?_repairRow (kept_continuation h hnext)⟩
  · rw [repairRow, repairFrom_length]
  · exact hpaired.repairRow_eq

end Strukt
