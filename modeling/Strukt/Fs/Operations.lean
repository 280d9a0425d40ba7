import Strukt.Fs.DuplicateLaw

/-!
# Operations on the entries of a workspace

`applyOperation` creates, renames, duplicates and deletes the entries of a workspace, which are
named by paths from its root. Each step may fail.

* **Nothing is lost** (`operations_carry`): whatever fails, what was in the workspace is still there
  after any operations that are no permanent deletions. None replaces what it finds.
* **Deletion** (`delete_permanently_law`): only what is at the path or below it goes, and all of it
  where no error is returned. So it takes back what was made there (`deletion_takes_back`).
-/

namespace Strukt.Fs

open Strukt.Language (OsStr)

inductive FileOperation where
  | createFile (path : List Component)
  | createDirectory (path : List Component)
  | rename (source destination : List Component)
  | move (source destination : List Component)
  | duplicate (source destination : List Component)
  | moveToTrash (path : List Component)
  | deletePermanently (path : List Component)
  deriving DecidableEq

/-- The path at which an operation makes something new. -/
def FileOperation.made : FileOperation → Option (List Component)
  | .createFile path | .createDirectory path | .duplicate _ path => some path
  | .rename .. | .move .. | .moveToTrash _ | .deletePermanently _ => none

inductive FileOperationError where
  | operation (error : OperationError)
  | trashUnavailable (path : List OsStr) (reason : String)
  deriving DecidableEq

/-- What the system knows and the program does not: how many links a path may have, the number of
the process, and in which order the entries of a directory are removed. -/
structure Host where
  expansions : Nat
  processId : Nat
  removals : WorkspaceTree → List OsStr → List (List OsStr)

namespace Operating

open Method

variable (host : Host)

def validateLocation : Operating Unit := do
  match ← attempt (do io; io) with
  | .error _ => throw .workspaceChanged
  | .ok () => return

/-- `open_with` of a new file, and `create_dir`. -/
def createNew (path : List OsStr) (item : WorkspaceItem) : Operating Unit := do
  let place ← okOr (.io .other) ((← get).tree.locate host.expansions path)
  createAt place item

def renameNoreplace (source destination : List OsStr) : Operating Unit := do
  let (sourceParent, sourceName) ← ofExcept (destinationParts source)
  let (destinationParent, destinationName) ← ofExcept (destinationParts destination)
  let sourceParent ← openDir host.expansions sourceParent
  let destinationParent ← openDir host.expansions destinationParent
  atomicRenameNoreplace (sourceParent ++ [sourceName]) (destinationParent ++ [destinationName])

/-- What is below a directory, with all that is below that. -/
def removeBelow (place : List OsStr) : List (List OsStr) → Operating Unit
  | [] => return
  | rest :: removals => do
    io
    removeDirAll (place ++ rest)
    removeBelow place removals

def deletePermanently (path : List OsStr) : Operating Unit := do
  let metadata ← symlinkMetadata host.expansions path
  let t := (← get).tree
  let place ← okOr (.io .other) (t.locate host.expansions path)
  removeBelow place (if metadata.isDir then host.removals t place else [])
  io
  removeDirAll place

def trashConfined (path : List OsStr) : Method Workspace FileOperationError Unit :=
  throw (.trashUnavailable path
    "the platform Trash API cannot consume a retained directory capability")

/-- The first path of an operation, after the location of the workspace was checked. -/
def checkedPath (path : List Component) : Operating (List OsStr) := do
  validateLocation
  ofExcept (scopedPath path)

def lifted {α : Type} (x : Operating α) : Method Workspace FileOperationError α :=
  focus id (fun _ w => w) .operation x

def applyOperation : FileOperation → Method Workspace FileOperationError Unit
  | .createFile path => lifted do createNew host (← checkedPath path) (newFile [])
  | .createDirectory path => lifted do createNew host (← checkedPath path) newDirectory
  | .rename source destination | .move source destination =>
    lifted do
      let source ← checkedPath source
      renameNoreplace host source (← ofExcept (scopedPath destination))
  | .duplicate source destination =>
    lifted (applyDuplicate host.expansions host.processId source destination)
  | .moveToTrash path => do trashConfined (← lifted (checkedPath path))
  | .deletePermanently path => lifted do deletePermanently host (← checkedPath path)

/-- The operations one after the other, whatever each returns. -/
def applyOperations : List FileOperation → Workspace → Option Workspace
  | [], w => some w
  | op :: ops, w => do
    let (_, w) ← (applyOperation host op).exec w
    applyOperations ops w

/-! ## What the operations do -/

variable {host : Host} {w : Workspace} {path : List OsStr}

theorem validateLocation_spec :
    wp validateLocation (fun _ w' => w'.tree = w.tree) (fun _ w' => w'.tree = w.tree) False w := by
  simp only [validateLocation, wp_bind, wp_attempt, wp_pure, wp_throw]
  exact wp_mono io_spec (fun _ w₁ h₁ => wp_mono io_spec (fun _ _ h => h.trans h₁)
    (fun _ _ h => h.trans h₁) id) (fun _ _ h => h) id

theorem checkedPath_spec {path : List Component} : wp (checkedPath path)
    (fun names w' => w'.tree = w.tree ∧ scopedPath path = .ok names)
    (fun _ w' => w'.tree = w.tree) False w := by
  simp only [checkedPath, wp_bind, wp_ofExcept]
  exact wp_mono validateLocation_spec (fun _ _ h => ⟨fun _ hp => ⟨h, hp⟩, fun _ _ => h⟩)
    (fun _ _ h => h) id

/-- All that differs is at the place of the path or below it, where nothing was. -/
def Makes (host : Host) (path : List Component) (w w' : Workspace) : Prop :=
  ∃ names place, scopedPath path = .ok names ∧ w.tree.locate host.expansions names = some place ∧
    Staged place w.tree w'.tree

theorem Makes.carries {path : List Component} {w' : Workspace} (h : Makes host path w w') :
    w.tree.Carries w'.tree := by
  obtain ⟨_, _, -, -, hstaged⟩ := h
  exact hstaged.extends.carries

theorem carries_of_same {w' : Workspace} (h : ∀ p, w'.tree.lookup p = w.tree.lookup p) :
    w.tree.Carries w'.tree :=
  PathTree.Extends.carries fun p _ hp => (h p).trans hp

theorem createNew_spec {item : WorkspaceItem} : wp (createNew host path item)
    (fun _ w' => ∃ place, w.tree.locate host.expansions path = some place ∧
      Staged place w.tree w'.tree)
    (fun _ w' => w'.tree = w.tree) False w := by
  simp only [createNew, wp_bind, wp_get, wp_okOr]
  refine ⟨fun place hplace => wp_mono createAt_spec ?_ (fun _ _ h => h) id, fun _ => trivial⟩
  rintro _ w' ⟨hnone, h⟩
  refine ⟨place, hplace, hnone, fun p hp => ?_⟩
  rw [h, if_neg]
  rintro rfl
  exact hp List.prefix_rfl

theorem create_spec {path : List Component} {item : WorkspaceItem} :
    wp (lifted do createNew host (← checkedPath path) item) (fun _ w' => Makes host path w w')
      (fun _ w' => w'.tree = w.tree) False w := by
  simp only [lifted, wp_focus, wp_bind]
  refine wp_mono checkedPath_spec ?_ (fun _ _ h => h) id
  rintro names w₁ ⟨h₁, hnames⟩
  replace h₁ : w₁.tree = w.tree := h₁
  refine wp_mono createNew_spec ?_ (fun _ _ h => h.trans h₁) id
  rintro _ w₂ ⟨place, hplace, hstaged⟩
  rw [h₁] at hplace hstaged
  exact ⟨names, place, hnames, hplace, hstaged⟩

theorem renameNoreplace_spec {source destination : List OsStr} :
    wp (renameNoreplace host source destination)
      (fun _ w' => w.tree.Carries w'.tree) (fun _ w' => w'.tree = w.tree) False w := by
  simp only [renameNoreplace, wp_bind, wp_ofExcept]
  refine ⟨fun sourceParts _ => ⟨fun destinationParts _ => ?_, fun _ _ => trivial⟩,
    fun _ _ => trivial⟩
  refine wp_mono openDir_spec ?_ (fun _ _ h => h) id
  rintro sourceParent w₁ ⟨h₁, -, -⟩
  refine wp_mono openDir_spec ?_ (fun _ _ h => h.trans h₁) id
  rintro destinationParent w₂ ⟨h₂, -, -⟩
  refine wp_mono atomicRenameNoreplace_spec ?_ (fun _ _ h => h.trans (h₂.trans h₁)) id
  rintro _ w₃ ⟨hnone, h⟩
  rw [h₂, h₁] at hnone h
  exact PathTree.carries_of_moved hnone h

theorem applyDuplicate_makes {source destination : List Component} :
    wp (applyDuplicate host.expansions host.processId source destination)
      (fun _ w' => Makes host destination w w')
      (fun _ w' => (∀ p, w'.tree.lookup p = w.tree.lookup p) ∨ Makes host destination w w') False
      w := by
  refine wp_mono (applyDuplicate_spec rfl) ?_ ?_ id
  · rintro _ w' (⟨⟨_, he⟩, -⟩ |
      ⟨_, names, _, target, -, hnames, hd, ⟨-, hcopied⟩ | ⟨⟨_, _, he, -⟩, -⟩⟩)
    · cases he
    · exact ⟨names, target, hnames, hd.destination, hd.absent, hcopied.others⟩
    · cases he
  · rintro e w' (⟨-, h⟩ | ⟨_, names, _, target, -, hnames, hd, ⟨he, -⟩ | ⟨-, hcopied⟩⟩)
    · exact .inl h
    · cases he
    · exact .inr ⟨names, target, hnames, hd.destination, hd.absent, hcopied.others⟩

theorem applyOperation_makes {op : FileOperation} {path : List Component}
    (hop : op.made = some path) : wp (applyOperation host op) (fun _ w' => Makes host path w w')
      (fun _ w' => (∀ p, w'.tree.lookup p = w.tree.lookup p) ∨ Makes host path w w') False w := by
  cases op with
  | createFile | createDirectory =>
    obtain rfl := Option.some.inj hop
    exact wp_mono create_spec (fun _ _ h => h) (fun _ _ h => .inl fun p => by rw [h]) id
  | duplicate source destination =>
    obtain rfl := Option.some.inj hop
    simp only [applyOperation, lifted, wp_focus]
    exact applyDuplicate_makes
  | rename | move | moveToTrash | deletePermanently => cases hop

theorem applyOperation_carries {op : FileOperation} (hop : ∀ path, op ≠ .deletePermanently path) :
    wp (applyOperation host op) (fun _ w' => w.tree.Carries w'.tree)
      (fun _ w' => w.tree.Carries w'.tree) False w := by
  have hsame : ∀ w' : Workspace, w'.tree = w.tree → w.tree.Carries w'.tree :=
    fun w' h => carries_of_same fun p => by rw [h]
  have hmade : ∀ path, op.made = some path → wp (applyOperation host op)
      (fun _ w' => w.tree.Carries w'.tree) (fun _ w' => w.tree.Carries w'.tree) False w :=
    fun path hpath => wp_mono (applyOperation_makes hpath) (fun _ _ h => h.carries)
      (fun _ _ h => h.elim carries_of_same Makes.carries) id
  cases op with
  | createFile path | createDirectory path | duplicate _ path => exact hmade path rfl
  | rename source destination | move source destination =>
    simp only [applyOperation, lifted, wp_focus, wp_bind, wp_ofExcept]
    refine wp_mono checkedPath_spec ?_ (fun _ _ h => hsame _ h) id
    rintro names w₁ ⟨h₁, -⟩
    refine ⟨fun _ _ => ?_, fun _ _ => hsame _ h₁⟩
    exact wp_mono renameNoreplace_spec (fun _ _ h => h₁ ▸ h) (fun _ _ h => hsame _ (h.trans h₁)) id
  | moveToTrash path =>
    simp only [applyOperation, lifted, trashConfined, wp_bind, wp_focus, wp_throw]
    exact wp_mono checkedPath_spec (fun _ _ h => hsame _ h.1) (fun _ _ h => hsame _ h) id
  | deletePermanently path => exact absurd rfl (hop path)

/-- Whatever steps fail, operations that are no permanent deletions return, and all that was in the
workspace is still there, as it was: at its own path or where it was moved to. -/
theorem operations_carry (host : Host) (ops : List FileOperation)
    (hops : ∀ op ∈ ops, ∀ path, op ≠ .deletePermanently path) (w : Workspace) :
    ∃ w', applyOperations host ops w = some w' ∧ w.tree.Carries w'.tree := by
  induction ops generalizing w with
  | nil => exact ⟨w, rfl, PathTree.Extends.carries fun _ _ h => h⟩
  | cons op ops ih =>
    have hstep := @applyOperation_carries host w op (hops op List.mem_cons_self)
    obtain ⟨result, w₁, hexec⟩ := hstep.ends
    obtain ⟨w', hrun, hcarries⟩ := ih (fun op h => hops op (List.mem_cons_of_mem _ h)) w₁
    refine ⟨w', ?_, (hstep.state hexec).trans hcarries⟩
    rw [applyOperations, hexec]
    exact hrun

theorem operations_carry_renamed :
    let w : Workspace := ⟨WorkspaceTree.ofDirectory [97] ⟨0o755⟩, [], 0⟩
    let host : Host := ⟨40, 1, fun _ _ => []⟩
    ∃ w', applyOperations host [.createFile [.normal [98]],
      .rename [.normal [97]] [.normal [99]]] w = some w' ∧ w.tree.Carries w'.tree :=
  operations_carry _ _ (by simp) _

/-- What is not at a place or below it stays. -/
def Outside (place : List OsStr) (w w' : Workspace) : Prop :=
  ∀ p, ¬place <+: p → w'.tree.lookup p = w.tree.lookup p

theorem removeBelow_spec {place : List OsStr} (hne : place ≠ []) (removals : List (List OsStr)) :
    wp (removeBelow place removals) (fun _ => Outside place w) (fun _ => Outside place w) False
      w := by
  induction removals generalizing w with
  | nil => exact fun _ _ => rfl
  | cons rest removals ih =>
    simp only [removeBelow, wp_bind]
    refine wp_mono io_spec ?_ (fun _ _ h _ _ => by rw [h]) id
    intro _ w₁ h₁
    refine wp_mono (removeDirAll_spec (by simp [hne])) ?_ (fun _ _ h => h.elim) id
    intro _ w₂ h₂
    have hout : Outside place w w₂ := fun p hp => by
      rw [h₂, if_neg fun h => hp ((List.prefix_append place rest).trans h), h₁]
    exact wp_mono ih (fun _ _ h p hp => (h p hp).trans (hout p hp))
      (fun _ _ h p hp => (h p hp).trans (hout p hp)) id

theorem deletePermanently_spec : wp (deletePermanently host path)
    (fun _ w' => ∃ place, w.tree.locate host.expansions path = some place ∧
      (w.tree.lookup place).isSome = true ∧
      ∀ p, w'.tree.lookup p = if place <+: p then none else w.tree.lookup p)
    (fun _ w' => w'.tree = w.tree ∨ ∃ place,
      w.tree.locate host.expansions path = some place ∧ Outside place w w') False w := by
  simp only [deletePermanently, symlinkMetadata, wp_bind, wp_get, wp_okOr]
  refine wp_mono io_spec ?_ (fun _ _ h => .inl h) id
  intro _ w₁ h₁
  refine ⟨fun item hitem => ⟨fun place hplace => ?_, fun _ => .inl h₁⟩, fun _ => .inl h₁⟩
  rw [h₁] at hplace hitem
  rw [hplace, Option.bind_some] at hitem
  have hne : place ≠ [] := by
    obtain ⟨_, _, _, -, -, -, rfl⟩ := WorkspaceTree.locate_eq_some.mp hplace
    exact List.append_ne_nil_of_right_ne_nil _ (List.cons_ne_nil _ _)
  refine wp_mono (removeBelow_spec hne _) ?_
    (fun _ _ h => .inr ⟨place, hplace, fun p hp => by rw [h p hp, h₁]⟩) id
  intro _ w₂ h₂
  refine wp_mono io_spec ?_
    (fun _ _ h => .inr ⟨place, hplace, fun p hp => by rw [h, h₂ p hp, h₁]⟩) id
  intro _ w₃ h₃
  refine wp_mono (removeDirAll_spec hne) (fun _ w₄ h₄ => ?_) (fun _ _ h => h.elim) id
  refine ⟨place, hplace, hitem ▸ rfl, fun p => ?_⟩
  rw [h₄]
  split
  · rfl
  · next hp => rw [h₃, h₂ p hp, h₁]

theorem applyDelete_spec {path : List Component} :
    wp (applyOperation host (.deletePermanently path))
    (fun _ w' => ∃ names place, scopedPath path = .ok names ∧
      w.tree.locate host.expansions names = some place ∧ (w.tree.lookup place).isSome = true ∧
      ∀ p, w'.tree.lookup p = if place <+: p then none else w.tree.lookup p)
    (fun _ w' => w'.tree = w.tree ∨ ∃ names place, scopedPath path = .ok names ∧
      w.tree.locate host.expansions names = some place ∧ Outside place w w') False w := by
  simp only [applyOperation, lifted, wp_focus, wp_bind]
  refine wp_mono checkedPath_spec ?_ (fun _ _ h => .inl h) id
  rintro names w₁ ⟨h₁, hnames⟩
  replace h₁ : w₁.tree = w.tree := h₁
  refine wp_mono deletePermanently_spec ?_ ?_ id
  · rintro _ w₂ ⟨place, hplace, hsome, h⟩
    rw [h₁] at hplace hsome h
    exact ⟨names, place, hnames, hplace, hsome, h⟩
  · rintro _ w₂ (h | ⟨place, hplace, h⟩)
    · exact .inl (h.trans h₁)
    · refine .inr ⟨names, place, hnames, h₁ ▸ hplace, fun p hp => ?_⟩
      exact (h p hp).trans (congrArg (·.lookup p) h₁)

theorem applyOperation_ends (host : Host) (op : FileOperation) (w : Workspace) :
    ∃ result w', (applyOperation host op).exec w = some (result, w') := by
  by_cases hop : ∃ path, op = .deletePermanently path
  · obtain ⟨path, rfl⟩ := hop
    exact applyDelete_spec.ends
  · exact (applyOperation_carries (not_exists.mp hop)).ends

/-- A permanent deletion returns. It leaves what is neither at the place that the path names nor
below it, and where it succeeds, nothing else. -/
theorem delete_permanently_law (host : Host) (path : List Component) (w : Workspace) :
    ∃ result w', (applyOperation host (.deletePermanently path)).exec w = some (result, w') ∧
      (result = .ok () → ∃ names place, scopedPath path = .ok names ∧
        w.tree.locate host.expansions names = some place ∧
        (w.tree.lookup place).isSome = true ∧
        ∀ p, w'.tree.lookup p = if place <+: p then none else w.tree.lookup p) ∧
      ∀ p, (∀ names place, scopedPath path = .ok names →
        w.tree.locate host.expansions names = some place → ¬place <+: p) →
          w'.tree.lookup p = w.tree.lookup p := by
  have hspec := @applyDelete_spec host w path
  obtain ⟨result, w', hexec⟩ := hspec.ends
  refine ⟨result, w', hexec, ?_, fun p hp => ?_⟩
  · rintro rfl
    exact hspec.of_ok hexec
  · cases result with
    | ok _ =>
      obtain ⟨names, place, hnames, hplace, -, h⟩ := hspec.of_ok hexec
      rw [h, if_neg (hp names place hnames hplace)]
    | error e =>
      obtain h | ⟨names, place, hnames, hplace, h⟩ := hspec.of_error hexec
      · rw [h]
      · exact h p (hp names place hnames hplace)

/-- Every operation returns. Where one that makes something new at a path fails, the tree is as
before, or else a deletion of the path that succeeds makes it so again. -/
theorem deletion_takes_back (host : Host) (op : FileOperation) (w : Workspace) : ∃ result w₁,
    (applyOperation host op).exec w = some (result, w₁) ∧ ∀ path, op.made = some path →
      (∃ e, result = .error e) ∧ (∀ p, w₁.tree.lookup p = w.tree.lookup p) ∨
        ∃ deleted w₂,
          (applyOperation host (.deletePermanently path)).exec w₁ = some (deleted, w₂) ∧
            (deleted = .ok () → ∀ p, w₂.tree.lookup p = w.tree.lookup p) := by
  obtain ⟨result, w₁, hexec⟩ := applyOperation_ends host op w
  refine ⟨result, w₁, hexec, fun path hop => ?_⟩
  have hmade : (∃ e, result = .error e) ∧ (∀ p, w₁.tree.lookup p = w.tree.lookup p) ∨
      Makes host path w w₁ := by
    have hspec := @applyOperation_makes host w op path hop
    cases result with
    | ok _ => exact .inr (hspec.of_ok hexec)
    | error e => exact (hspec.of_error hexec).imp_left fun h => ⟨⟨e, rfl⟩, h⟩
  refine hmade.imp_right ?_
  rintro ⟨names, place, hnames, hplace, hstaged⟩
  have hdelete := @applyDelete_spec host w₁ path
  obtain ⟨deleted, w₂, hexec'⟩ := hdelete.ends
  refine ⟨deleted, w₂, hexec', ?_⟩
  rintro rfl p
  obtain ⟨names', place', hnames', hplace', -, h⟩ := hdelete.of_ok hexec'
  -- What was made is not on the way to its own place.
  obtain rfl := Except.ok.inj (hnames.symm.trans hnames')
  obtain rfl := Option.some.inj
    ((WorkspaceTree.locate_extends hstaged.extends hplace).symm.trans hplace')
  rw [h]
  split
  · next hp => rw [PathTree.lookup_none_below hstaged.absent hp]
  · next hp => rw [hstaged.outside p hp]

end Operating
end Strukt.Fs
