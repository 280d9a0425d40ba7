import Strukt.Prim

/-!
# Finding the executable of a language server

A descriptor lists the candidates for its executable: absolute paths, and names that are looked for
in the directories of `PATH`. `resolveExecutable` inspects them one after the other and runs none.

* **Entries** (`entries`): the paths that the loops visit, in the order of the candidates and then of
  the directories and the suffixes of the platform. The loops are one search in them
  (`resolveExecutable_eq`).
* **The law** (`resolve_law`): the search ends at the first entry that is an executable or cannot be
  inspected. The latter is an error, also where a later entry could be used
  (`executable_behind_unreadable`).
* **Platform** (`SearchRules`): how `PATH` is split, which files stand for a name in a directory, and
  which files can be executed, with the rules of Unix (`SearchRules.unix`).
-/

namespace Strukt.Language

abbrev OsStr := List UInt8

inductive IoErrorKind where
  | notFound
  | permissionDenied
  | notADirectory
  | other
  deriving DecidableEq

structure FileMetadata where
  isFile : Bool
  mode : UInt32
  deriving DecidableEq

/-- What the file system answers. -/
structure FileSystem where
  metadata : PathBuf → Except IoErrorKind FileMetadata
  canonicalize : PathBuf → Except IoErrorKind PathBuf

inductive ExecutableCandidate where
  | pathName (name : OsStr)
  | absolute (path : PathBuf)
  deriving DecidableEq

/-- The error of discovery that resolution gives. -/
inductive DiscoveryError where
  | io (kind : IoErrorKind)
  deriving DecidableEq

/-- `Path::join` on Unix. -/
def joinPath (directory : PathBuf) (name : OsStr) : PathBuf :=
  if name.head? = some 47 ∨ directory.bytes = [] then ⟨name⟩
  else if directory.bytes.getLast? = some 47 then ⟨directory.bytes ++ name⟩
  else ⟨directory.bytes ++ 47 :: name⟩

structure SearchRules where
  splitPaths : OsStr → List PathBuf
  platformCandidates : PathBuf → OsStr → List PathBuf
  platformIsExecutable : FileMetadata → Bool

def SearchRules.unix : SearchRules where
  splitPaths path := (path.splitOn 58).map PathBuf.mk
  platformCandidates directory name := [joinPath directory name]
  platformIsExecutable metadata := metadata.mode &&& 0o111 ≠ 0

namespace SearchRules

variable (rules : SearchRules) (fs : FileSystem)

def canonicalExecutable (path : PathBuf) : Except DiscoveryError (Option PathBuf) :=
  match fs.metadata path with
  | .error .notFound => .ok none
  | .error kind => .error (.io kind)
  | .ok metadata =>
    if !metadata.isFile || !rules.platformIsExecutable metadata then .ok none
    else ((fs.canonicalize path).map some).mapError .io

/-- The innermost loop: the files that stand for a name in a directory. -/
def resolveFiles : List PathBuf → Except DiscoveryError (Option PathBuf)
  | [] => .ok none
  | path :: rest => do
    match ← rules.canonicalExecutable fs path with
    | some path => return some path
    | none => resolveFiles rest

/-- The loop over the directories of `PATH`. -/
def resolveName (name : OsStr) : List PathBuf → Except DiscoveryError (Option PathBuf)
  | [] => .ok none
  | directory :: rest => do
    match ← rules.resolveFiles fs (rules.platformCandidates directory name) with
    | some path => return some path
    | none => resolveName name rest

def resolveExecutable (pathEnv : Option OsStr) :
    List ExecutableCandidate → Except DiscoveryError (Option PathBuf)
  | [] => .ok none
  | .absolute path :: rest => do
    match ← rules.canonicalExecutable fs path with
    | some path => return some path
    | none => resolveExecutable pathEnv rest
  | .pathName name :: rest =>
    match pathEnv with
    | none => resolveExecutable pathEnv rest
    | some paths => do
      match ← rules.resolveName fs name (rules.splitPaths paths) with
      | some path => return some path
      | none => resolveExecutable pathEnv rest

/-! ## The entries in order -/

/-- The files that a candidate stands for. -/
def files (pathEnv : Option OsStr) : ExecutableCandidate → List PathBuf
  | .absolute path => [path]
  | .pathName name => (pathEnv.map rules.splitPaths).getD [] |>.flatMap fun directory =>
      rules.platformCandidates directory name

/-- What the search visits, in order. -/
def entries (pathEnv : Option OsStr) (candidates : List ExecutableCandidate) : List PathBuf :=
  candidates.flatMap (rules.files pathEnv)

variable {rules fs} {pathEnv : Option OsStr} {candidates : List ExecutableCandidate}

theorem resolveFiles_append (paths rest : List PathBuf) :
    rules.resolveFiles fs (paths ++ rest) = (do
      match ← rules.resolveFiles fs paths with
      | some path => return some path
      | none => rules.resolveFiles fs rest) := by
  induction paths with
  | nil => rfl
  | cons path paths ih =>
    rw [List.cons_append, resolveFiles, resolveFiles]
    cases rules.canonicalExecutable fs path with
    | error e => rfl
    | ok found =>
      cases found with
      | some p => rfl
      | none => exact ih

theorem resolveName_eq (name : OsStr) (directories : List PathBuf) :
    rules.resolveName fs name directories =
      rules.resolveFiles fs (directories.flatMap fun d => rules.platformCandidates d name) := by
  induction directories with
  | nil => rfl
  | cons directory rest ih => rw [resolveName, List.flatMap_cons, resolveFiles_append, ih]

/-- The loops are one search. -/
theorem resolveExecutable_eq : rules.resolveExecutable fs pathEnv candidates =
    rules.resolveFiles fs (rules.entries pathEnv candidates) := by
  induction candidates with
  | nil => rfl
  | cons candidate rest ih =>
    rw [entries, List.flatMap_cons, resolveFiles_append, ← entries, ← ih]
    cases candidate with
    | absolute path =>
      rw [resolveExecutable, files, resolveFiles]
      cases rules.canonicalExecutable fs path with
      | error e => rfl
      | ok found => cases found <;> rfl
    | pathName name =>
      cases pathEnv with
      | none => rfl
      | some paths =>
        rw [resolveExecutable, resolveName_eq]
        rfl

/-! ## What an entry is -/

/-- What the file system says about an entry. -/
inductive Inspection where
  | missing
  | notExecutable
  | executable (path : PathBuf)
  | unreadable (kind : IoErrorKind)
  deriving DecidableEq

variable (rules fs) in
def inspect (path : PathBuf) : Inspection :=
  match fs.metadata path with
  | .error .notFound => .missing
  | .error kind => .unreadable kind
  | .ok metadata =>
    if metadata.isFile && rules.platformIsExecutable metadata then
      match fs.canonicalize path with
      | .ok path => .executable path
      | .error kind => .unreadable kind
    else .notExecutable

/-- The search goes on behind the entry. -/
def Inspection.Passed : Inspection → Prop
  | .missing | .notExecutable => True
  | .executable _ | .unreadable _ => False

theorem canonicalExecutable_eq (path : PathBuf) : rules.canonicalExecutable fs path =
    match rules.inspect fs path with
    | .missing | .notExecutable => .ok none
    | .executable path => .ok (some path)
    | .unreadable kind => .error (.io kind) := by
  unfold canonicalExecutable inspect
  cases fs.metadata path with
  | error kind => cases kind <;> rfl
  | ok metadata =>
    by_cases h : metadata.isFile && rules.platformIsExecutable metadata
    · have hnot : (!metadata.isFile || !rules.platformIsExecutable metadata) = false := by
        rw [← Bool.not_and, h]
        rfl
      simp only [h, hnot, if_true, Bool.false_eq_true, if_false]
      cases fs.canonicalize path <;> rfl
    · have hnot : (!metadata.isFile || !rules.platformIsExecutable metadata) = true := by
        rw [← Bool.not_and, Bool.eq_false_of_not_eq_true h]
        rfl
      simp only [h, hnot, if_true, if_false, Bool.false_eq_true]

theorem resolveFiles_passed {before rest : List PathBuf}
    (h : ∀ q ∈ before, (rules.inspect fs q).Passed) :
    rules.resolveFiles fs (before ++ rest) = rules.resolveFiles fs rest := by
  induction before with
  | nil => rfl
  | cons q before ih =>
    rw [List.forall_mem_cons] at h
    rw [List.cons_append, resolveFiles, canonicalExecutable_eq]
    cases hq : rules.inspect fs q with
    | missing => exact ih h.2
    | notExecutable => exact ih h.2
    | executable path =>
      rw [hq] at h
      exact h.1.elim
    | unreadable kind =>
      rw [hq] at h
      exact h.1.elim

/-- The entry at which the search ends. -/
def StopsAt (rules : SearchRules) (fs : FileSystem) (paths : List PathBuf) (found : Inspection) :
    Prop :=
  ∃ before q after, paths = before ++ q :: after ∧
    (∀ q ∈ before, (rules.inspect fs q).Passed) ∧ rules.inspect fs q = found

theorem StopsAt.cons {q : PathBuf} {paths : List PathBuf} {found : Inspection}
    (h : StopsAt rules fs paths found) (hq : (rules.inspect fs q).Passed) :
    StopsAt rules fs (q :: paths) found := by
  obtain ⟨before, q', after, rfl, hbefore, hfound⟩ := h
  exact ⟨q :: before, q', after, rfl, List.forall_mem_cons.mpr ⟨hq, hbefore⟩, hfound⟩

/-- Every entry is passed, or the first one that is not decides. -/
theorem resolveFiles_cases (rules : SearchRules) (fs : FileSystem) (paths : List PathBuf) :
    ((∀ q ∈ paths, (rules.inspect fs q).Passed) ∧ rules.resolveFiles fs paths = .ok none) ∨
    (∃ p, StopsAt rules fs paths (.executable p) ∧
      rules.resolveFiles fs paths = .ok (some p)) ∨
    ∃ kind, StopsAt rules fs paths (.unreadable kind) ∧
      rules.resolveFiles fs paths = .error (.io kind) := by
  induction paths with
  | nil => exact .inl ⟨nofun, rfl⟩
  | cons q paths ih =>
    rw [resolveFiles, canonicalExecutable_eq]
    cases hq : rules.inspect fs q with
    | missing | notExecutable =>
      have hpassed : (rules.inspect fs q).Passed := by
        rw [hq]
        trivial
      obtain ⟨hall, hr⟩ | ⟨p, hstop, hr⟩ | ⟨kind, hstop, hr⟩ := ih
      · exact .inl ⟨List.forall_mem_cons.mpr ⟨hpassed, hall⟩, hr⟩
      · exact .inr (.inl ⟨p, hstop.cons hpassed, hr⟩)
      · exact .inr (.inr ⟨kind, hstop.cons hpassed, hr⟩)
    | executable p => exact .inr (.inl ⟨p, ⟨[], q, paths, rfl, nofun, hq⟩, rfl⟩)
    | unreadable kind => exact .inr (.inr ⟨kind, ⟨[], q, paths, rfl, nofun, hq⟩, rfl⟩)

theorem resolve_law (rules : SearchRules) (fs : FileSystem) (pathEnv : Option OsStr)
    (candidates : List ExecutableCandidate) :
    (∀ p, rules.resolveExecutable fs pathEnv candidates = .ok (some p) ↔
      StopsAt rules fs (rules.entries pathEnv candidates) (.executable p)) ∧
    (∀ kind, rules.resolveExecutable fs pathEnv candidates = .error (.io kind) ↔
      StopsAt rules fs (rules.entries pathEnv candidates) (.unreadable kind)) ∧
    (rules.resolveExecutable fs pathEnv candidates = .ok none ↔
      ∀ q ∈ rules.entries pathEnv candidates, (rules.inspect fs q).Passed) := by
  rw [resolveExecutable_eq]
  generalize rules.entries pathEnv candidates = paths
  have hcases := resolveFiles_cases rules fs paths
  refine ⟨fun p => ⟨fun h => ?_, ?_⟩, fun kind => ⟨fun h => ?_, ?_⟩, fun h => ?_, fun h => ?_⟩
  · obtain ⟨-, hr⟩ | ⟨p', hstop, hr⟩ | ⟨kind, -, hr⟩ := hcases
    · cases hr.symm.trans h
    · cases hr.symm.trans h
      exact hstop
    · cases hr.symm.trans h
  · rintro ⟨before, q, after, rfl, hbefore, hq⟩
    rw [resolveFiles_passed hbefore, resolveFiles, canonicalExecutable_eq, hq]
    rfl
  · obtain ⟨-, hr⟩ | ⟨p, -, hr⟩ | ⟨kind', hstop, hr⟩ := hcases
    · cases hr.symm.trans h
    · cases hr.symm.trans h
    · cases hr.symm.trans h
      exact hstop
  · rintro ⟨before, q, after, rfl, hbefore, hq⟩
    rw [resolveFiles_passed hbefore, resolveFiles, canonicalExecutable_eq, hq]
    rfl
  · obtain ⟨hall, -⟩ | ⟨p, -, hr⟩ | ⟨kind, -, hr⟩ := hcases
    · exact hall
    · cases hr.symm.trans h
    · cases hr.symm.trans h
  · rw [← List.append_nil paths, resolveFiles_passed h]
    rfl

/-- The executable that an entry is. -/
def Inspection.usable : Inspection → Option PathBuf
  | .executable path => some path
  | .missing | .notExecutable | .unreadable _ => none

/-- An entry that may not be looked at hides the executable behind it. -/
theorem executable_behind_unreadable : ¬ ∀ (fs : FileSystem) (pathEnv : Option OsStr)
    (candidates : List ExecutableCandidate),
    unix.resolveExecutable fs pathEnv candidates =
      .ok ((unix.entries pathEnv candidates).findSome? fun q => (unix.inspect fs q).usable) := by
  intro h
  -- `/a/s` may not be looked at, and `/b/s` can be executed.
  let fs : FileSystem :=
    ⟨fun path => if path.bytes = [47, 97, 47, 115] then .error .permissionDenied
      else if path.bytes = [47, 98, 47, 115] then .ok ⟨true, 0o755⟩ else .error .notFound, .ok⟩
  have hfound := h fs (some [47, 97, 58, 47, 98]) [.pathName [115]]
  have hstop : unix.resolveExecutable fs (some [47, 97, 58, 47, 98]) [.pathName [115]] =
      .error (.io .permissionDenied) := by
    decide
  rw [hstop] at hfound
  cases hfound

end SearchRules
end Strukt.Language
