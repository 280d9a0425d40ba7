import Strukt.Fs.DocumentSave
import Strukt.Language.Discovery
import Strukt.Lib.PathTree

/-!
# The tree of a workspace

A workspace is a finite tree of directories, files, links and special files. Operations name an
entry by a path from the root, and the directories of the path may be links.

* **Resolution** (`follow`): links are expanded, a bounded number of them, and no path leaves the
  root. The result has no links.
* **Entries** (`locate`): a path names the entry under its last name, which is not followed.
* **Growth** (`Extends.locate`): entries that are added change no path that names one already.
-/

namespace Strukt.Fs

open Strukt.Language (OsStr)

inductive Component where
  | normal (name : OsStr)
  | curDir
  | parentDir
  | rootDir
  deriving DecidableEq

structure Permissions where
  mode : UInt32
  deriving DecidableEq

inductive WorkspaceItem where
  | directory (permissions : Permissions)
  | file (contents : List UInt8) (permissions : Permissions)
  | link (target : List Component)
  /-- A pipe, a socket or a device. -/
  | special
  deriving DecidableEq

def WorkspaceItem.isDir : WorkspaceItem → Bool
  | .directory _ => true
  | _ => false

abbrev WorkspaceTree := PathTree OsStr WorkspaceItem WorkspaceItem.isDir

namespace WorkspaceTree

/-- A workspace with one empty directory. -/
def ofDirectory (name : OsStr) (permissions : Permissions) : WorkspaceTree where
  lookup p := if p = [] ∨ p = [name] then some (.directory permissions) else none
  paths := [[], [name]]
  finite p h := by
    split at h
    · rename_i hp
      rcases hp with rfl | rfl
      · exact List.mem_cons_self
      · exact List.mem_cons_of_mem _ (List.mem_singleton_self _)
    · cases h
  root := rfl
  below p n h := by
    split at h
    · rename_i hp
      have hp : p ++ [n] = [] ++ [name] :=
        hp.resolve_left (List.append_ne_nil_of_right_ne_nil p (List.cons_ne_nil n []))
      rw [if_pos (.inl (List.append_inj' hp rfl).1)]
      rfl
    · cases h

/-! ## Resolution -/

/-- Resolve from a directory without links; `expand` goes on where there is a link. -/
def walk (t : WorkspaceTree) (expand : List OsStr → List Component → Option (List OsStr)) :
    List OsStr → List Component → Option (List OsStr)
  | current, [] => some current
  | current, component :: rest =>
    if t.isBranch current = false then none
    else
      match component with
      | .curDir => walk t expand current rest
      | .parentDir => if current = [] then none else walk t expand current.dropLast rest
      | .rootDir => none
      | .normal name =>
        match t.lookup (current ++ [name]) with
        | none => none
        | some (.link target) => expand current (target ++ rest)
        | some _ => walk t expand (current ++ [name]) rest

/-- Resolve with as many expansions as are left. -/
def follow (t : WorkspaceTree) : Nat → List OsStr → List Component → Option (List OsStr)
  | 0 => walk t fun _ _ => none
  | expansions + 1 => walk t (follow t expansions)

def resolve (t : WorkspaceTree) (expansions : Nat) (path : List OsStr) : Option (List OsStr) :=
  follow t expansions [] (path.map .normal)

/-- The entry that a path names, without its last link expanded. -/
def locate (t : WorkspaceTree) (expansions : Nat) (path : List OsStr) : Option (List OsStr) := do
  let name ← path.getLast?
  let directory ← t.resolve expansions path.dropLast
  if t.isBranch directory then some (directory ++ [name]) else none

variable {t t' : WorkspaceTree} {n : Nat} {current place place' : List OsStr}
  {path path' : List Component}

/-- What an expansion establishes at the end of a path, it establishes before more of the path. -/
theorem walk_append {expand expand' : List OsStr → List Component → Option (List OsStr)}
    (hexpand : ∀ current path, expand current path = some place →
      expand' current (path ++ path') = some place')
    (hrest : walk t expand' place path' = some place')
    (h : walk t expand current path = some place) :
    walk t expand' current (path ++ path') = some place' := by
  induction path generalizing current with
  | nil =>
    obtain rfl := Option.some.inj h
    exact hrest
  | cons component path ih =>
    rw [List.cons_append]
    unfold walk at h ⊢
    split at h
    · cases h
    · rename_i hbranch
      rw [if_neg hbranch]
      cases component with
      | curDir => exact ih h
      | parentDir =>
        dsimp only at h ⊢
        split at h
        · cases h
        · rename_i hne
          rw [if_neg hne]
          exact ih h
      | rootDir => cases h
      | normal name =>
        dsimp only at h ⊢
        split at h
        · cases h
        · rw [← List.append_assoc]
          exact hexpand _ _ h
        · exact ih h

theorem follow_append (hrest : ∀ m, follow t m place path' = some place')
    (h : follow t n current path = some place) :
    follow t n current (path ++ path') = some place' := by
  induction n generalizing current path with
  | zero => exact walk_append (fun _ _ h => by cases h) (hrest 0) h
  | succ n ih => exact walk_append (fun _ _ h => ih h) (hrest (n + 1)) h

theorem walk_extends {expand expand' : List OsStr → List Component → Option (List OsStr)}
    (ht : t.Extends t')
    (hexpand : ∀ current path, expand current path = some place →
      expand' current path = some place)
    (h : walk t expand current path = some place) : walk t' expand' current path = some place := by
  induction path generalizing current with
  | nil => exact h
  | cons component path ih =>
    unfold walk at h ⊢
    split at h
    · cases h
    · rename_i hbranch
      rw [if_neg]
      · cases component with
        | curDir => exact ih h
        | parentDir =>
          dsimp only at h ⊢
          split at h
          · cases h
          · rename_i hne
            rw [if_neg hne]
            exact ih h
        | rootDir => cases h
        | normal name =>
          dsimp only at h ⊢
          split at h
          · cases h
          · rename_i target hl
            rw [ht _ _ hl]
            exact hexpand _ _ h
          · rename_i item hlink hl
            rw [ht _ _ hl]
            split
            · rename_i heq
              cases heq
            · rename_i heq
              exact absurd (Option.some.inj heq) (hlink _)
            · exact ih h
      · rw [ht.isBranch (Bool.not_eq_false _ ▸ hbranch)]
        exact Bool.noConfusion

theorem follow_extends (ht : t.Extends t') (h : follow t n current path = some place) :
    follow t' n current path = some place := by
  induction n generalizing current path with
  | zero => exact walk_extends ht (fun _ _ h => h) h
  | succ n ih => exact walk_extends ht (fun _ _ h => ih h) h

/-! ## Entries -/

theorem locate_eq_some {names : List OsStr} : t.locate n names = some place ↔
    ∃ front name directory, names = front ++ [name] ∧ t.resolve n front = some directory ∧
      t.isBranch directory = true ∧ place = directory ++ [name] := by
  unfold locate
  constructor
  · intro h
    obtain ⟨name, hname, h⟩ := Option.bind_eq_some_iff.mp h
    obtain ⟨directory, hdir, h⟩ := Option.bind_eq_some_iff.mp h
    split at h
    · rename_i hbranch
      refine ⟨_, name, directory, ?_, hdir, hbranch, (Option.some.inj h).symm⟩
      exact (List.dropLast_append_getLast? name hname).symm
    · cases h
  · rintro ⟨front, name, directory, rfl, hdir, hbranch, rfl⟩
    simp only [List.getLast?_concat, List.dropLast_concat, hdir, hbranch, Option.bind_eq_bind,
      Option.bind_some, if_pos]

theorem locate_extends {names : List OsStr} (ht : t.Extends t')
    (h : t.locate n names = some place) : t'.locate n names = some place := by
  obtain ⟨front, name, directory, rfl, hdir, hbranch, rfl⟩ := locate_eq_some.mp h
  exact locate_eq_some.mpr
    ⟨front, name, directory, rfl, follow_extends ht hdir, ht.isBranch hbranch, rfl⟩

/-- A directory is where its path leads. -/
theorem resolve_of_locate {names : List OsStr} (h : t.locate n names = some place)
    (hbranch : t.isBranch place = true) : t.resolve n names = some place := by
  obtain ⟨front, name, directory, rfl, hdir, hparent, rfl⟩ := locate_eq_some.mp h
  unfold resolve
  rw [List.map_append]
  refine follow_append (fun m => ?_) hdir
  have hwalk : ∀ expand, walk t expand directory [.normal name] = some (directory ++ [name]) := by
    intro expand
    unfold walk
    rw [if_neg (by rw [hparent]; exact Bool.noConfusion)]
    obtain ⟨item, hitem⟩ := Option.isSome_iff_exists.mp (PathTree.isSome_of_isBranch hbranch)
    unfold PathTree.isBranch at hbranch
    dsimp only
    rw [hitem] at hbranch ⊢
    cases item with
    | directory permissions => rfl
    | file _ _ => cases hbranch
    | link _ => cases hbranch
    | special => cases hbranch
  cases m with
  | zero => exact hwalk _
  | succ m => exact hwalk _

theorem locate_child {names : List OsStr} (h : t.locate n names = some place)
    (hbranch : t.isBranch place = true) (name : OsStr) :
    t.locate n (names ++ [name]) = some (place ++ [name]) :=
  locate_eq_some.mpr ⟨names, name, place, rfl, resolve_of_locate h hbranch, hbranch, rfl⟩

end WorkspaceTree

end Strukt.Fs
