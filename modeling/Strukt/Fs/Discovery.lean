import Strukt.Language.Discovery
import Strukt.Lib.Cut

/-!
# Discovery of the entries of a workspace

`walkCapability` lists the entries below a directory, in the order of their names and each directory
before what is in it, without those that are hidden or ignored, up to a limit. Its sibling
`discoverReport` takes them from the walk of the `ignore` crate.

* **Tree**: the directories, with what their ignore files give (`Node`). No read of it fails, and
  the walk is not cancelled.
* **Rules** (`FilterRules`): what an ignore file says of a path, and the hidden attribute of the
  platform, are parameters.
* **Reference** (`visited`): every entry of an accepted directory, with whether it passes the
  filters. The accepted entries are those that pass.
-/

namespace Strukt

/-- How a component compares with others: `.`, then `..`, then the rest by their bytes. -/
def componentKey (c : List UInt8) : Nat ×ₗ List Nat :=
  if c = [46] then toLex (1, [])
  else if c = [46, 46] then toLex (2, [])
  else toLex (3, c.map (·.toNat))

/-- What `Path::cmp` compares. -/
def PathBuf.key (p : PathBuf) : List (Nat ×ₗ List Nat) :=
  (if p.components.1 then [toLex (0, [])] else []) ++ p.components.2.map componentKey

end Strukt

namespace Strukt.Fs

open Strukt.Language (OsStr joinPath)

structure DiscoveryOptions where
  showHidden : Bool
  showIgnored : Bool
  maxEntries : Nat
  deriving DecidableEq

inductive FileKind where
  | directory
  | file
  | symlink
  deriving DecidableEq

structure FileEntry where
  relativePath : PathBuf
  kind : FileKind
  depth : Nat
  hidden : Bool
  ignored : Bool
  deriving DecidableEq

structure DiscoveryReport where
  entries : List FileEntry
  warnings : List String
  truncated : Bool
  deriving DecidableEq

/-! ## Filters -/

def hasDotComponent (path : PathBuf) : Bool := path.components.2.any (·.head? = some 46)

def heavyNames : List OsStr :=
  [".git", "node_modules", "target"].map fun name => name.toUTF8.data.toList

def hasHeavyComponent (path : PathBuf) : Bool := path.components.2.any (· ∈ heavyNames)

inductive Match where
  | none
  | ignore
  | whitelist
  deriving DecidableEq

/-- What the walk asks of the `ignore` crate and of the platform. -/
structure FilterRules where
  /-- The rules of an ignore file. -/
  Gitignore : Type
  /-- `matched_path_or_any_parents`, with whether the path is a directory. -/
  matchedPathOrAnyParents : Gitignore → PathBuf → Bool → Match
  /-- The hidden attribute, which only Windows has. -/
  capabilityHidden : PathBuf → Bool

/-- The loop over the ignore files, the last one first. -/
def ignoredBy (rules : FilterRules) (ignores : List rules.Gitignore) (path : PathBuf)
    (isDirectory : Bool) : Bool :=
  match ignores.reverse.find? (rules.matchedPathOrAnyParents · path isDirectory ≠ .none) with
  | some ignore => rules.matchedPathOrAnyParents ignore path isDirectory = .ignore
  | none => false

/-! ## The tree -/

/-- What a directory has under a name. -/
inductive Node (G : Type) where
  | file
  | symlink
  /-- `ignores` and `warnings` are what `load_directory_ignores` makes of its ignore files. -/
  | directory (ignores : List G) (warnings : List String) (entries : List (OsStr × Node G))

namespace Node

variable {G : Type}

def kind : Node G → FileKind
  | file => .file
  | symlink => .symlink
  | directory .. => .directory

def isDirectory (node : Node G) : Bool := node.kind = .directory

end Node

/-- `sort_by_key` on the file names. -/
def sortByName {G : Type} (entries : List (OsStr × Node G)) : List (OsStr × Node G) :=
  entries.insertionSort fun a b => a.1.map (·.toNat) ≤ b.1.map (·.toNat)

/-- A bound on the steps of the walk. -/
noncomputable def weight {G : Type} (entries : List (OsStr × Node G)) : Nat :=
  (entries.map fun e => sizeOf e.2 + 1).sum

/-! ## The walk -/

/-- The context of the walk, with the stack of ignore rules. -/
structure CapabilityDiscovery (rules : FilterRules) where
  entries : List FileEntry
  warnings : List String
  truncated : Bool
  ignores : List rules.Gitignore

/-- `Warnings::push_message`. -/
def pushMessage (warnings : List String) (warning : String) : List String :=
  if warning ∈ warnings then warnings else warnings ++ [warning]

namespace CapabilityDiscovery

variable {rules : FilterRules} (context : CapabilityDiscovery rules)

def push (entry : FileEntry) : CapabilityDiscovery rules :=
  { context with entries := context.entries ++ [entry] }

/-- With the rules and the warnings of a directory. -/
def enter (added : List rules.Gitignore) (warnings : List String) : CapabilityDiscovery rules :=
  { context with
    ignores := context.ignores ++ added
    warnings := warnings.foldl pushMessage context.warnings }

/-- `ignores.truncate`. -/
def leave (previousLen : Nat) : CapabilityDiscovery rules :=
  { context with ignores := context.ignores.take previousLen }

end CapabilityDiscovery

section Walk

variable (rules : FilterRules) (options : DiscoveryOptions)

/-- The entry of a node. -/
def entryOf (ignores : List rules.Gitignore) (path : PathBuf) (depth : Nat)
    (node : Node rules.Gitignore) : FileEntry where
  relativePath := path
  kind := node.kind
  depth := depth + 1
  hidden := hasDotComponent path || rules.capabilityHidden path
  ignored := ignoredBy rules ignores path node.isDirectory || hasHeavyComponent path

/-- Whether the filters let the entry pass. -/
def passes (entry : FileEntry) : Bool :=
  (options.showHidden || !entry.hidden) && (options.showIgnored || !entry.ignored)

theorem weight_cons {G : Type} (name : OsStr) (node : Node G) (rest : List (OsStr × Node G)) :
    weight ((name, node) :: rest) = sizeOf node + 1 + weight rest := rfl

theorem weight_le {G : Type} (entries : List (OsStr × Node G)) :
    weight entries ≤ sizeOf entries := by
  induction entries with
  | nil => exact Nat.zero_le _
  | cons e entries ih =>
    obtain ⟨name, node⟩ := e
    rw [weight_cons, List.cons.sizeOf_spec, Prod.mk.sizeOf_spec]
    omega

theorem weight_sortByName {G : Type} (entries : List (OsStr × Node G)) :
    weight (sortByName entries) = weight entries :=
  ((List.perm_insertionSort _ entries).map _).sum_eq

theorem weight_children {G : Type} (ignores : List G) (warnings : List String)
    (children : List (OsStr × Node G)) :
    weight (sortByName children) < sizeOf (Node.directory ignores warnings children) := by
  have := weight_le children
  rw [weight_sortByName, Node.directory.sizeOf_spec]
  omega

/-- The root, with the ignore rules that hold from it on. -/
structure Root (G : Type) where
  ignores : List G
  warnings : List String
  entries : List (OsStr × Node G)

def Root.node {G : Type} (root : Root G) : Node G :=
  .directory root.ignores root.warnings root.entries

structure WalkEntry where
  relativePath : PathBuf
  kind : FileKind
  depth : Nat
  deriving DecidableEq

/-- An entry that the iterator yields, or the text of an error. -/
abbrev WalkItem := Except String WalkEntry

structure AcceptedCursor where
  next : Option PathBuf
  walk : List WalkItem

/-- Advance to the first path that is not before `target`. -/
def advance (target : PathBuf) (warnings : List String) :
    List WalkItem → Bool × AcceptedCursor × List String
  | [] => (false, ⟨none, []⟩, warnings)
  | .error warning :: rest => advance target (pushMessage warnings warning) rest
  | .ok entry :: rest =>
    if entry.depth = 0 ∨ entry.relativePath.key < target.key then advance target warnings rest
    else (entry.relativePath.key = target.key, ⟨some entry.relativePath, rest⟩, warnings)

def AcceptedCursor.contains (cursor : AcceptedCursor) (target : PathBuf) (warnings : List String) :
    Bool × AcceptedCursor × List String :=
  match cursor.next with
  | none => advance target warnings cursor.walk
  | some next =>
    if next.key < target.key then advance target warnings cursor.walk
    else (next.key = target.key, cursor, warnings)

/-- The entries of a directory and of the accepted directories below it, in their order, each with
whether it passes the filters. -/
def visited (ignores : List rules.Gitignore) (relativeDirectory : PathBuf) (depth : Nat)
    (entries : List (OsStr × Node rules.Gitignore)) : List (FileEntry × Bool) :=
  match entries with
  | [] => []
  | (name, node) :: rest =>
    let path := joinPath relativeDirectory name
    let entry := entryOf rules ignores path depth node
    let accepted := passes options entry
    let below :=
      match h : node with
      | .directory added warnings children =>
        if accepted then visited (ignores ++ added) path (depth + 1) (sortByName children) else []
      | _ => []
    (entry, accepted) :: (below ++ visited ignores relativeDirectory depth rest)
termination_by weight entries
decreasing_by
  all_goals rw [weight_cons]
  · have := weight_children added warnings children
    omega
  · omega

end Walk

/-! ## The walk cuts what it visits -/

section Laws

variable {rules : FilterRules} {options : DiscoveryOptions} {relativeDirectory : PathBuf}
  {depth : Nat} {name : OsStr} {node : Node rules.Gitignore}
  {entries rest : List (OsStr × Node rules.Gitignore)} {context : CapabilityDiscovery rules}

/-- What is below an entry, if it is accepted. -/
def below (rules : FilterRules) (options : DiscoveryOptions) (ignores : List rules.Gitignore)
    (path : PathBuf) (depth : Nat) : Node rules.Gitignore → List (FileEntry × Bool)
  | .directory added _ children =>
    visited rules options (ignores ++ added) path (depth + 1) (sortByName children)
  | _ => []

/-- What a walk over entries has found, beside its warnings: what is cut from `l` at `room`. -/
structure Found (before after : CapabilityDiscovery rules) (room : Nat)
    (l : List (FileEntry × Bool)) : Prop where
  entries : after.entries = before.entries ++ (cut room l).1
  truncated : after.truncated = (cut room l).2
  ignores : after.ignores = before.ignores

namespace Found

variable {after after' : CapabilityDiscovery rules} {room : Nat} {entry : FileEntry}
  {l l' : List (FileEntry × Bool)}

theorem nil (h : context.truncated = false) : Found context context room [] := by
  refine ⟨?_, ?_, rfl⟩
  · rw [cut, List.append_nil]
  · rw [cut, h]

theorem full {x : FileEntry × Bool} : Found context { context with truncated := true } 0 (x :: l) :=
  ⟨(List.append_nil _).symm, rfl, rfl⟩

theorem skip (h : Found context after (room + 1) l) :
    Found context after (room + 1) ((entry, false) :: l) :=
  ⟨by rw [cut]; exact h.entries, by rw [cut]; exact h.truncated, h.ignores⟩

theorem push (h : Found (context.push entry) after room l) :
    Found context after (room + 1) ((entry, true) :: l) := by
  refine ⟨?_, ?_, h.ignores⟩
  · rw [cut, h.entries, CapabilityDiscovery.push, List.append_assoc]
    rfl
  · rw [cut, h.truncated]

theorem leave {added : List rules.Gitignore} {warnings : List String}
    (h : Found (context.enter added warnings) after room l) :
    Found context (after.leave context.ignores.length) room l := by
  refine ⟨h.entries, h.truncated, ?_⟩
  rw [CapabilityDiscovery.leave, h.ignores]
  exact List.take_left

theorem stop (h : Found context after room l) (ht : after.truncated = true) :
    Found context after room (l ++ l') := by
  rw [h.truncated] at ht
  have hcut : cut room (l ++ l') = cut room l := by rw [cut_append, if_pos ht]
  exact ⟨by rw [hcut, h.entries], by rw [hcut, h.truncated], h.ignores⟩

theorem append (h : Found context after room l) (ht : after.truncated = false)
    (h' : Found after after' (room - (cut room l).1.length) l') :
    Found context after' room (l ++ l') := by
  have hopen : ¬(cut room l).2 = true := by rw [← h.truncated, ht]; exact Bool.false_ne_true
  refine ⟨?_, ?_, h'.ignores.trans h.ignores⟩
  · rw [cut_append, if_neg hopen, h'.entries, h.entries, List.append_assoc]
  · rw [cut_append, if_neg hopen, h'.truncated]

/-- What is left of the limit. -/
theorem left {limit : Nat} (h : Found context after room l)
    (hroom : context.entries.length + room = limit) :
    after.entries.length + (room - (cut room l).1.length) = limit := by
  have hcut : (cut room l).1.length ≤ room := by
    rw [cut_list]
    exact List.length_take_le ..
  rw [h.entries, List.length_append]
  omega

end Found

end Laws

/-! ## The order of the paths -/

section Order

variable {names : List OsStr} {name : OsStr}

variable {rules : FilterRules} {options : DiscoveryOptions} {ignores : List rules.Gitignore}
  {depth : Nat} {entries : List (OsStr × Node rules.Gitignore)}

end Order

/-! ## The cursor of the crate's walk -/

/-- The paths that the cursor has not passed. -/
def AcceptedCursor.pending (cursor : AcceptedCursor) : List PathBuf :=
  cursor.next.toList ++ cursor.walk.filterMap fun item =>
    item.toOption.bind fun entry => if entry.depth = 0 then none else some entry.relativePath

section Cursor

variable {cursor : AcceptedCursor} {target : PathBuf} {warnings : List String}
  {walk : List WalkItem}

theorem advance_pending : (advance target warnings walk).2.1.pending =
    (AcceptedCursor.pending ⟨none, walk⟩).dropWhile fun path => path.key < target.key := by
  induction walk generalizing warnings with
  | nil => rfl
  | cons item rest ih =>
    rcases item with warning | entry
    · exact ih
    · rw [advance]
      by_cases hd : entry.depth = 0
      · rw [if_pos (.inl hd), ih]
        simp [AcceptedCursor.pending, Except.toOption, hd]
      · by_cases hlt : entry.relativePath.key < target.key
        · rw [if_pos (.inr hlt), ih]
          simp [AcceptedCursor.pending, Except.toOption, hd, hlt]
        · rw [if_neg (not_or.mpr ⟨hd, hlt⟩)]
          simp [AcceptedCursor.pending, Except.toOption, hd, hlt]

theorem advance_found : (advance target warnings walk).1 =
    decide ((advance target warnings walk).2.1.pending.head?.map PathBuf.key =
      some target.key) := by
  induction walk generalizing warnings with
  | nil => rfl
  | cons item rest ih =>
    rcases item with warning | entry
    · exact ih
    · rw [advance]
      split
      · exact ih
      · simp [AcceptedCursor.pending]

theorem contains_pending : (cursor.contains target warnings).2.1.pending =
    cursor.pending.dropWhile fun path => path.key < target.key := by
  obtain ⟨next, walk⟩ := cursor
  rcases next with _ | next
  · exact advance_pending
  · simp only [AcceptedCursor.contains]
    by_cases hlt : next.key < target.key
    · rw [if_pos hlt, advance_pending]
      simp [AcceptedCursor.pending, hlt]
    · rw [if_neg hlt]
      simp [AcceptedCursor.pending, hlt]

theorem contains_found : (cursor.contains target warnings).1 =
    decide ((cursor.contains target warnings).2.1.pending.head?.map PathBuf.key =
      some target.key) := by
  obtain ⟨next, walk⟩ := cursor
  rcases next with _ | next
  · exact advance_found
  · simp only [AcceptedCursor.contains]
    by_cases hlt : next.key < target.key
    · rw [if_pos hlt]
      exact advance_found
    · rw [if_neg hlt]
      simp [AcceptedCursor.pending]

section Sorted

variable {κ : Type} [LinearOrder κ] {l : List κ} {t u : κ} {p : κ → Bool}

/-- In a sorted list, the first element that is not before `t` is `t` where the list has it. -/
theorem head?_dropWhile_lt (hp : ∀ a, p a = true ↔ a < t) (hl : l.Pairwise (· < ·)) :
    (l.dropWhile p).head? = some t ↔ t ∈ l := by
  induction l with
  | nil => simp
  | cons a l ih =>
    rw [List.pairwise_cons] at hl
    by_cases hlt : a < t
    · rw [List.dropWhile_cons_of_pos ((hp a).mpr hlt), ih hl.2, List.mem_cons,
        or_iff_right hlt.ne']
    · rw [List.dropWhile_cons_of_neg (mt (hp a).mp hlt), List.head?_cons, Option.some.injEq,
        List.mem_cons]
      constructor
      · exact fun h => .inl h.symm
      · rintro (h | h)
        · exact h.symm
        · exact absurd (hl.1 t h) hlt

end Sorted

/-- The keys of the paths that the cursor has not passed. -/
def AcceptedCursor.keys (cursor : AcceptedCursor) : List (List (Nat ×ₗ List Nat)) :=
  cursor.pending.map PathBuf.key

theorem contains_keys : (cursor.contains target warnings).2.1.keys =
    cursor.keys.dropWhile (· < target.key) := by
  unfold AcceptedCursor.keys
  rw [contains_pending, List.dropWhile_map]
  rfl

/-- The cursor has the path where it is among those that it has not passed. -/
theorem contains_iff (h : cursor.keys.Pairwise (· < ·)) :
    (cursor.contains target warnings).1 = decide (target.key ∈ cursor.keys) := by
  have hhead : (cursor.contains target warnings).2.1.keys.head? = some target.key ↔
      target.key ∈ cursor.keys := by
    rw [contains_keys]
    exact head?_dropWhile_lt (fun _ => decide_eq_true_iff) h
  rw [contains_found]
  exact decide_eq_decide.mpr (by rw [← List.head?_map]; exact hhead)

end Cursor

section Law

variable (rules : FilterRules) (options : DiscoveryOptions) (root : Root rules.Gitignore)

variable {rules options root} {top : WalkEntry} {walker : DiscoveryOptions → List WalkItem}

end Law

/-! ## A directory of the build after the last file -/

end Strukt.Fs
