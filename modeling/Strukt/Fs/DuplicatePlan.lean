import Strukt.Fs.Duplicate

/-!
# The plan of a duplicate

What the steps of a duplicate do to the tree, and what is planned.

* **Steps**: a step that fails leaves the tree, and one that succeeds changes it at one place.
* **The plan** (`Pending`): between two rounds of the loop, each entry of the source is planned or
  below one that is pending. What is pending is apart from the rest, so no entry is planned twice,
  and the rounds are enough (`Pending.length_le`).
-/

namespace Strukt.Fs

open Strukt.Language (OsStr)

namespace Operating

open Method

/-! ## What the steps do -/

variable {w : Workspace} {place destination : List OsStr} {item : WorkspaceItem}
  {permissions : Permissions} {expansions : Nat} {path : List OsStr}

theorem io_spec : wp io (fun _ w' => w'.tree = w.tree) (fun _ w' => w'.tree = w.tree) False w := by
  simp only [io, wp_bind, wp_get, wp_set]
  split
  · rw [wp_throw]
  · rw [wp_pure]

theorem createAt_spec : wp (createAt place item)
    (fun _ w' => w.tree.lookup place = none ∧
      ∀ p, w'.tree.lookup p = if p = place then some item else w.tree.lookup p)
    (fun _ w' => w'.tree = w.tree) False w := by
  simp only [createAt, wp_bind, wp_get]
  refine wp_mono io_spec ?_ (fun _ _ h => h) id
  intro _ w₁ h₁
  rw [wp_ite]
  refine ⟨fun _ => h₁, fun _ => ?_⟩
  split
  · rename_i hadmits
    rw [wp_set]
    exact ⟨h₁ ▸ hadmits.2.1, fun p => by rw [← h₁]; rfl⟩
  · rw [wp_throw]
    exact h₁

theorem replaceAt_spec : wp (replaceAt place item)
    (fun _ w' => ∀ p, w'.tree.lookup p = if p = place then some item else w.tree.lookup p)
    (fun _ w' => w'.tree = w.tree) False w := by
  simp only [replaceAt, wp_bind, wp_get]
  split
  · rw [wp_set]
    exact fun p => rfl
  · rw [wp_throw]

theorem setPermissions_spec : wp (setPermissions place permissions)
    (fun _ w' => ∀ p, w'.tree.lookup p =
      if p = place then (w.tree.lookup place).map (·.withPermissions permissions)
      else w.tree.lookup p)
    (fun _ w' => w'.tree = w.tree) False w := by
  simp only [setPermissions, wp_bind, wp_get]
  refine wp_mono io_spec ?_ (fun _ _ h => h) id
  intro _ w₁ h₁
  rw [← h₁]
  split
  · rename_i h
    rw [h]
    exact replaceAt_spec
  · rename_i h
    rw [h]
    exact replaceAt_spec
  · rw [wp_throw]

theorem removeDirAll_spec (hplace : place ≠ []) : wp (removeDirAll place)
    (fun _ w' => ∀ p, w'.tree.lookup p = if place <+: p then none else w.tree.lookup p)
    (fun _ _ => False) False w := by
  simp only [removeDirAll, wp_modify, dif_pos hplace]
  exact fun p => rfl

theorem atomicRenameNoreplace_spec {source : List OsStr} :
    wp (atomicRenameNoreplace source destination)
      (fun _ w' => w.tree.lookup destination = none ∧ ∀ p, w'.tree.lookup p =
        if destination <+: p then w.tree.lookup (source ++ p.drop destination.length)
        else if source <+: p then none else w.tree.lookup p)
      (fun _ w' => w'.tree = w.tree) False w := by
  simp only [atomicRenameNoreplace, wp_bind, wp_get]
  refine wp_mono io_spec ?_ (fun _ _ h => h) id
  intro _ w₁ h₁
  rw [wp_ite]
  refine ⟨fun _ => h₁, fun _ => ?_⟩
  split
  · rename_i hmoves
    rw [wp_set]
    exact ⟨h₁ ▸ hmoves.2.1.2.1, fun p => by rw [← h₁]; rfl⟩
  · rw [wp_throw]
    exact h₁

theorem checkedCopyMetadata_spec : wp (checkedCopyMetadata expansions path)
    (fun item w' => w'.tree = w.tree ∧ item.Copyable ∧
      ∃ place, w.tree.locate expansions path = some place ∧ w.tree.lookup place = some item)
    (fun _ w' => w'.tree = w.tree) False w := by
  simp only [checkedCopyMetadata, symlinkMetadata, wp_bind, wp_get, wp_okOr]
  refine wp_mono io_spec ?_ (fun _ _ h => h) id
  intro _ w₁ h₁
  refine ⟨fun item hitem => ?_, fun _ => h₁⟩
  rw [h₁] at hitem
  obtain ⟨place, hplace, hlookup⟩ := Option.bind_eq_some_iff.mp hitem
  cases item with
  | directory permissions => exact ⟨h₁, trivial, place, hplace, hlookup⟩
  | file contents permissions => exact ⟨h₁, trivial, place, hplace, hlookup⟩
  | link target => exact h₁
  | special => exact h₁

theorem canonicalize_spec : wp (canonicalize expansions path)
    (fun place w' => w'.tree = w.tree ∧ w.tree.resolve expansions path = some place)
    (fun _ w' => w'.tree = w.tree) False w := by
  simp only [canonicalize, wp_bind, wp_get, wp_okOr]
  refine wp_mono io_spec ?_ (fun _ _ h => h) id
  intro _ w₁ h₁
  exact ⟨fun place hplace => ⟨h₁, h₁ ▸ hplace⟩, fun _ => h₁⟩

theorem openDir_spec : wp (openDir expansions path)
    (fun place w' => w'.tree = w.tree ∧ w.tree.resolve expansions path = some place ∧
      w.tree.isBranch place = true)
    (fun _ w' => w'.tree = w.tree) False w := by
  simp only [openDir, wp_bind, wp_get, wp_okOr, wp_ensure, wp_pure]
  refine wp_mono io_spec ?_ (fun _ _ h => h) id
  intro _ w₁ h₁
  exact ⟨fun place hplace => ⟨fun hb => ⟨h₁, h₁ ▸ hplace, h₁ ▸ hb⟩, fun _ => h₁⟩, fun _ => h₁⟩

theorem destinationAncestorMatches_spec (source : List OsStr) (ancestors : List (List OsStr)) :
    wp (destinationAncestorMatches expansions source ancestors)
      (fun _ w' => w'.tree = w.tree) (fun _ w' => w'.tree = w.tree) False w := by
  induction ancestors generalizing w with
  | nil => rfl
  | cons path ancestors ih =>
    simp only [destinationAncestorMatches, wp_bind]
    refine wp_mono openDir_spec ?_ (fun _ _ h => h) id
    rintro place w₁ ⟨h₁, -⟩
    refine wp_mono io_spec ?_ (fun _ _ h => h.trans h₁) id
    intro _ w₂ h₂
    simp only [wp_ite, wp_pure]
    refine ⟨fun _ => h₂.trans h₁, fun _ => ?_⟩
    refine wp_mono ih (fun _ _ h => ?_) (fun _ _ h => ?_) id
    · exact h.trans (h₂.trans h₁)
    · exact h.trans (h₂.trans h₁)

/-- A directory is not duplicated into itself. -/
theorem rejectResolvedDescendant_spec {source : List OsStr} {isDir : Bool} :
    wp (rejectResolvedDescendant expansions source destination isDir)
      (fun _ w' => w'.tree = w.tree ∧ (isDir = true → ∃ place front name parent,
        w.tree.resolve expansions source = some place ∧
        destinationParts destination = .ok (front, name) ∧
        w.tree.resolve expansions front = some parent ∧ ¬place <+: parent ++ [name]))
      (fun _ w' => w'.tree = w.tree) False w := by
  unfold rejectResolvedDescendant
  rw [wp_ite, wp_pure]
  refine ⟨fun h => ⟨rfl, fun h' => by rw [h] at h'; cases h'⟩, fun _ => ?_⟩
  simp only [wp_bind]
  refine wp_mono canonicalize_spec ?_ (fun _ _ h => h) id
  rintro canonicalSource w₁ ⟨h₁, hsource⟩
  rw [wp_ofExcept]
  refine ⟨?_, fun _ _ => h₁⟩
  rintro ⟨front, name⟩ hparts
  refine wp_mono canonicalize_spec ?_ (fun _ _ h => h.trans h₁) id
  rintro parent w₂ ⟨h₂, hparent⟩
  replace h₂ := h₂.trans h₁
  rw [wp_ite]
  refine ⟨fun _ => ?_, fun hno => ?_⟩
  · rw [wp_bind, wp_throw]
    exact h₂
  · simp only [destinationAncestorMatchesSource, wp_bind]
    refine wp_mono openDir_spec ?_ (fun _ _ h => h.trans h₂) id
    rintro place w₃ ⟨h₃, -⟩
    replace h₃ := h₃.trans h₂
    refine wp_mono io_spec ?_ (fun _ _ h => h.trans h₃) id
    intro _ w₄ h₄
    replace h₄ := h₄.trans h₃
    refine wp_mono (destinationAncestorMatches_spec _ _) ?_ (fun _ _ h => h.trans h₄) id
    intro found w₅ h₅
    replace h₅ := h₅.trans h₄
    rw [wp_ite]
    refine ⟨fun _ => h₅, fun _ => ⟨h₅, fun _ => ⟨_, front, name, parent, hsource, hparts, ?_, hno⟩⟩⟩
    exact h₁ ▸ hparent

/-! ## The plan -/

theorem readDir_spec : wp (readDir expansions path)
    (fun names w' => w'.tree = w.tree ∧ names.Nodup ∧ ∃ place,
      w.tree.resolve expansions path = some place ∧
      ∀ name, name ∈ names ↔ (w.tree.lookup (place ++ [name])).isSome = true)
    (fun _ w' => w'.tree = w.tree) False w := by
  simp only [readDir, wp_bind, wp_get, wp_pure]
  refine wp_mono openDir_spec ?_ (fun _ _ h => h) id
  rintro place w₁ ⟨h₁, hplace, -⟩
  refine wp_mono io_spec ?_ (fun _ _ h => h.trans h₁) id
  intro _ w₂ h₂
  replace h₂ := h₂.trans h₁
  have hperm := List.perm_insertionSort (· ≤ ·) (w₂.tree.children place)
  refine ⟨h₂, hperm.nodup_iff.mpr PathTree.nodup_children, place, hplace, fun name => ?_⟩
  rw [hperm.mem_iff, PathTree.mem_children, h₂]

/-- The entry says of its place in the tree what is there. -/
def Planned (expansions : Nat) (t : WorkspaceTree) (place : List OsStr) (e : CopyEntry) : Prop :=
  t.locate expansions e.source = some (place ++ e.relative) ∧
    match e.kind with
    | .directory => t.lookup (place ++ e.relative) = some (.directory e.permissions)
    | .file => ∃ contents, t.lookup (place ++ e.relative) = some (.file contents e.permissions)

/-- Between two rounds of the loop, what is below `place` is planned or below what is pending. What
is pending is apart from the rest, so nothing is planned twice. -/
structure Pending (expansions : Nat) (t : WorkspaceTree) (place : List OsStr)
    (plan : List CopyEntry) (pending : List (List OsStr × List OsStr)) : Prop where
  planned : ∀ e ∈ plan, Planned expansions t place e
  located : ∀ p ∈ pending, t.locate expansions p.1 = some (place ++ p.2)
  complete : ∀ rest, (t.lookup (place ++ rest)).isSome = true →
    (∃ e ∈ plan, e.relative = rest) ∨ ∃ p ∈ pending, p.2 <+: rest
  nodup : (plan.map (·.relative) ++ pending.map (·.2)).Nodup
  apart : ∀ p ∈ pending, ∀ r ∈ plan.map (·.relative) ++ pending.map (·.2), p.2 <+: r → p.2 = r
  first : (plan.map (·.relative) ++ pending.map (·.2)).head? = some []

section Pending

variable {t : WorkspaceTree} {plan : List CopyEntry} {pending : List (List OsStr × List OsStr)}
  {entry : CopyEntry} {relative : List OsStr}

theorem Pending.start {source : List OsStr} (h : t.locate expansions source = some place) :
    Pending expansions t place [] [(source, [])] where
  planned e he := absurd he List.not_mem_nil
  located p hp := by
    rw [List.mem_singleton.mp hp, List.append_nil]
    exact h
  complete rest _ := .inr ⟨_, List.mem_singleton_self _, List.nil_prefix⟩
  nodup := List.nodup_singleton _
  apart p hp r hr _ := by
    rw [List.mem_singleton.mp hp, List.mem_singleton.mp hr]
  first := rfl

/-- What is planned has an item each, so there are not more of them than paths. -/
theorem Pending.length_le (h : Pending expansions t place plan pending) :
    plan.length ≤ t.paths.length := by
  have hnodup : (plan.map fun e => place ++ e.relative).Nodup := by
    have := (List.nodup_append.mp h.nodup).1.map (List.append_right_injective place)
    rwa [List.map_map] at this
  have hsub : (plan.map fun e => place ++ e.relative) ⊆ t.paths := by
    intro p hp
    obtain ⟨e, he, rfl⟩ := List.mem_map.mp hp
    refine t.finite _ ?_
    have hplanned := (h.planned e he).2
    split at hplanned
    · rw [hplanned]; rfl
    · obtain ⟨contents, hc⟩ := hplanned
      rw [hc]; rfl
  have := (hnodup.subperm hsub).length_le
  rwa [List.length_map] at this

/-- One round: the top of what is pending is planned, and the names below it are pending. -/
theorem Pending.next {source : List OsStr} {names : List OsStr}
    (h : Pending expansions t place plan ((source, entry.relative) :: pending))
    (hentry : Planned expansions t place entry) (hnames : names.Nodup)
    (hlocated : ∀ name ∈ names, t.locate expansions (source ++ [name]) =
      some (place ++ (entry.relative ++ [name])))
    (hcomplete : ∀ name, (t.lookup (place ++ (entry.relative ++ [name]))).isSome = true →
      name ∈ names) :
    Pending expansions t place (plan ++ [entry])
      (names.map (fun name => (source ++ [name], entry.relative ++ [name])) ++ pending) := by
  have hfresh : ∀ r ∈ plan.map (·.relative) ++ ((source, entry.relative) :: pending).map (·.2),
      ∀ name, ¬entry.relative ++ [name] <+: r := by
    intro r hr name hp
    have heq : entry.relative = r :=
      h.apart _ List.mem_cons_self r hr ((List.prefix_append _ _).trans hp)
    rw [← heq] at hp
    have := hp.length_le
    rw [List.length_append, List.length_singleton] at this
    omega
  have hperm : ((plan ++ [entry]).map (·.relative) ++ (names.map (fun name =>
      (source ++ [name], entry.relative ++ [name])) ++ pending).map (·.2)).Perm
      (plan.map (·.relative) ++ ((source, entry.relative) :: pending).map (·.2) ++
        names.map fun name => entry.relative ++ [name]) := by
    simp only [List.map_append, List.map_cons, List.map_nil, List.map_map, List.append_assoc,
      List.cons_append, List.nil_append, Function.comp_def]
    exact (List.perm_append_comm.cons _).append_left _
  refine ⟨fun e he => ?_, fun p hp => ?_, fun rest hrest => ?_, ?_, fun p hp r hr hpr => ?_, ?_⟩
  · rcases List.mem_append.mp he with he | he
    · exact h.planned e he
    · exact List.mem_singleton.mp he ▸ hentry
  · rcases List.mem_append.mp hp with hp | hp
    · obtain ⟨name, hn, rfl⟩ := List.mem_map.mp hp
      exact hlocated name hn
    · exact h.located p (List.mem_cons_of_mem _ hp)
  · rcases h.complete rest hrest with ⟨e, he, hrel⟩ | ⟨p, hp, hprefix⟩
    · exact .inl ⟨e, List.mem_append_left _ he, hrel⟩
    · rcases List.mem_cons.mp hp with rfl | hp
      · obtain ⟨more, rfl⟩ := hprefix
        cases more with
        | nil =>
          exact .inl ⟨entry, List.mem_append_right _ (List.mem_singleton_self _),
            (List.append_nil _).symm⟩
        | cons name more =>
          have hchild : (t.lookup (place ++ (entry.relative ++ [name]))).isSome = true := by
            cases more with
            | nil => exact hrest
            | cons name' more =>
              refine PathTree.isSome_of_isBranch (PathTree.isBranch_of_cons (n := name')
                (q := more) ?_)
              simpa only [List.append_assoc, List.cons_append, List.nil_append] using hrest
          refine .inr ⟨_, List.mem_append_left _ (List.mem_map_of_mem (hcomplete name hchild)),
            more, ?_⟩
          rw [List.append_assoc, List.singleton_append]
      · exact .inr ⟨p, List.mem_append_right _ hp, hprefix⟩
  · rw [hperm.nodup_iff, List.nodup_append']
    refine ⟨h.nodup, hnames.map fun a b hab => ?_, fun r hr hr' => ?_⟩
    · exact List.singleton_injective (List.append_cancel_left hab)
    · obtain ⟨name, -, rfl⟩ := List.mem_map.mp hr'
      exact hfresh _ hr name List.prefix_rfl
  · rw [hperm.mem_iff] at hr
    rcases List.mem_append.mp hp with hp | hp
    · obtain ⟨name, hn, rfl⟩ := List.mem_map.mp hp
      rcases List.mem_append.mp hr with hr | hr
      · exact absurd hpr (hfresh r hr name)
      · obtain ⟨name', -, rfl⟩ := List.mem_map.mp hr
        exact hpr.eq_of_length (by simp)
    · have hp' := List.mem_cons_of_mem (source, entry.relative) hp
      rcases List.mem_append.mp hr with hr | hr
      · exact h.apart p hp' r hr hpr
      · obtain ⟨name, -, rfl⟩ := List.mem_map.mp hr
        rcases List.prefix_concat_iff.mp hpr with heq | hpr
        · exact heq
        · -- What is pending below the top is not above it.
          have heq : p.2 = entry.relative :=
            h.apart p hp' _ (List.mem_append_right _ List.mem_cons_self) hpr
          have hnotin := (List.nodup_cons.mp (List.nodup_append.mp h.nodup).2.1).1
          exact absurd (List.mem_map.mpr ⟨p, hp, heq⟩) hnotin
  · have hfirst := h.first
    cases plan with
    | nil => exact hfirst
    | cons e plan => exact hfirst

theorem preflightLoop_spec (rounds : Nat) (hrounds : t.paths.length < rounds + plan.length)
    (h : Pending expansions t place plan pending) (hw : w.tree = t) :
    wp (preflightLoop expansions rounds plan pending)
      (fun plan' w' => w'.tree = t ∧ Pending expansions t place plan' [])
      (fun _ w' => w'.tree = t) False w := by
  induction rounds generalizing plan pending w with
  | zero => exact absurd h.length_le (by omega)
  | succ rounds ih =>
    cases pending with
    | nil => exact ⟨hw, h⟩
    | cons p pending =>
      obtain ⟨source, relative⟩ := p
      simp only [preflightLoop, wp_bind]
      refine wp_mono checkedCopyMetadata_spec ?_ (fun _ _ h => h.trans hw) id
      rintro item w₁ ⟨h₁, hcopyable, place', hplace', hitem⟩
      rw [hw] at h₁ hplace' hitem
      have hlocated := h.located _ List.mem_cons_self
      obtain rfl : place ++ relative = place' := Option.some.inj (hlocated.symm.trans hplace')
      have hlength : t.paths.length < rounds + (plan.length + 1) := by omega
      rw [wp_ite]
      refine ⟨fun hdir => ?_, fun hfile => ?_⟩
      · obtain ⟨permissions, rfl⟩ : ∃ permissions, item = .directory permissions := by
          cases item with
          | directory permissions => exact ⟨permissions, rfl⟩
          | file _ _ => cases hdir
          | link _ => cases hdir
          | special => cases hdir
        have hbranch : t.isBranch (place ++ relative) = true := by
          rw [PathTree.isBranch, hitem]
          rfl
        simp only [wp_bind]
        refine wp_mono readDir_spec ?_ (fun _ _ h => h.trans h₁) id
        rintro names w₂ ⟨h₂, hnames, directory, hdirectory, hmem⟩
        rw [h₁] at h₂ hdirectory hmem
        obtain rfl : place ++ relative = directory :=
          Option.some.inj ((WorkspaceTree.resolve_of_locate hlocated hbranch).symm.trans hdirectory)
        have hentry : Planned expansions t place ⟨source, relative, .directory, permissions⟩ :=
          ⟨hlocated, hitem⟩
        refine ih (by rwa [List.length_append])
          (h.next hentry hnames (fun name _ => ?_) (fun name hname => ?_)) h₂
        · rw [← List.append_assoc]
          exact WorkspaceTree.locate_child hlocated hbranch name
        · rw [← List.append_assoc] at hname
          exact (hmem name).mpr hname
      · obtain ⟨contents, permissions, rfl⟩ :
            ∃ contents permissions, item = .file contents permissions := by
          cases item with
          | directory _ => exact absurd rfl hfile
          | file contents permissions => exact ⟨contents, permissions, rfl⟩
          | link _ => exact hcopyable.elim
          | special => exact hcopyable.elim
        have hentry : Planned expansions t place ⟨source, relative, .file, permissions⟩ :=
          ⟨hlocated, contents, hitem⟩
        refine ih (by rwa [List.length_append]) (h.next hentry List.nodup_nil
          (fun name hn => absurd hn List.not_mem_nil) (fun name hname => ?_)) h₁
        rw [← List.append_assoc] at hname
        have hbranch := PathTree.isBranch_of_cons (q := []) hname
        rw [PathTree.isBranch, hitem] at hbranch
        cases hbranch

theorem preflightCopy_spec {source : List OsStr} (h : t.locate expansions source = some place)
    (hw : w.tree = t) :
    wp (preflightCopy expansions source)
      (fun plan w' => w'.tree = t ∧ Pending expansions t place plan [])
      (fun _ w' => w'.tree = t) False w := by
  simp only [preflightCopy, wp_bind, wp_get]
  refine preflightLoop_spec _ ?_ (.start h) hw
  rw [hw, List.length_nil]
  omega

/-- What a plan begins with is the source. -/
theorem Pending.top (h : Pending expansions t place plan []) :
    ∃ top, plan.head? = some top ∧ match top.kind with
      | .directory => t.lookup place = some (.directory top.permissions)
      | .file => ∃ contents, t.lookup place = some (.file contents top.permissions) := by
  have hfirst := h.first
  rw [List.map_nil, List.append_nil, List.head?_map] at hfirst
  obtain ⟨top, htop, hroot⟩ := Option.map_eq_some_iff.mp hfirst
  have hitem := (h.planned top (List.mem_of_mem_head? htop)).2
  rw [hroot, List.append_nil] at hitem
  exact ⟨top, htop, hitem⟩

theorem Pending.isSome (h : Pending expansions t place plan []) :
    (t.lookup place).isSome = true := by
  obtain ⟨top, -, hitem⟩ := h.top
  split at hitem
  · rw [hitem]; rfl
  · obtain ⟨contents, hcontents⟩ := hitem
    rw [hcontents]; rfl

/-- What was planned can be copied. -/
theorem Pending.copyable (h : Pending expansions t place plan [])
    (rest : List OsStr) (item : WorkspaceItem) (hitem : t.lookup (place ++ rest) = some item) :
    item.Copyable := by
  obtain ⟨e, he, rfl⟩ := (h.complete rest (by rw [hitem]; rfl)).resolve_right
    fun ⟨_, hp, _⟩ => absurd hp List.not_mem_nil
  have hplanned := (h.planned e he).2
  split at hplanned
  · obtain rfl := Option.some.inj (hitem.symm.trans hplanned)
    trivial
  · obtain ⟨contents, hcontents⟩ := hplanned
    obtain rfl := Option.some.inj (hitem.symm.trans hcontents)
    trivial

end Pending

end Operating

end Strukt.Fs
