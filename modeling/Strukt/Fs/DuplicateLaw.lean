import Strukt.Fs.DuplicatePlan

/-!
# A duplicate is all or nothing

* **Staging** (`Staged`): what differs is below the staging directory, so removing it restores the
  tree (`removeStaging_spec`).
* **The replay** (`executeCopyPlan_spec`): the plan is copied, then the permissions of the
  directories are set.
* **Publication** (`Published`): the copy is at the destination, where nothing was.
* **The law** (`duplicate_law`): a duplicate adds a copy of the source and nothing else, or it fails
  and the tree is as it was. Only where the permissions of a published directory cannot be set, the
  duplicate fails and the directory stays.
-/

namespace Strukt.Fs

open Strukt.Language (OsStr)

namespace Operating

open Method

variable {w : Workspace} {place destination : List OsStr} {item : WorkspaceItem}
  {permissions : Permissions} {expansions : Nat} {path : List OsStr}

/-! ## The replay -/

/-- Only what is below `staging` differs from `t`, and nothing was there. -/
structure Staged (staging : List OsStr) (t t' : WorkspaceTree) : Prop where
  absent : t.lookup staging = none
  outside : ∀ p, ¬staging <+: p → t'.lookup p = t.lookup p

section Replay

variable {t t' t'' : WorkspaceTree} {staging : List OsStr} {plan : List CopyEntry}
  {entry : CopyEntry}

theorem Staged.extends (h : Staged staging t t') : t.Extends t' := by
  intro p i hp
  rw [h.outside p, hp]
  intro hstaging
  rw [PathTree.lookup_none_below h.absent hstaging] at hp
  cases hp

theorem Staged.set {p : List OsStr} {item : Option WorkspaceItem} (h : Staged staging t t')
    (hp : staging <+: p) (ht : ∀ q, t''.lookup q = if q = p then item else t'.lookup q) :
    Staged staging t t'' := by
  refine ⟨h.absent, fun q hq => ?_⟩
  rw [ht q, if_neg, h.outside q hq]
  rintro rfl
  exact hq hp

theorem openRegularSource_spec : wp (openRegularSource expansions path)
    (fun contents w' => w'.tree = w.tree ∧ ∃ place permissions,
      w.tree.locate expansions path = some place ∧
        w.tree.lookup place = some (.file contents permissions))
    (fun _ w' => w'.tree = w.tree) False w := by
  simp only [openRegularSource, wp_bind, wp_get, wp_okOr]
  refine wp_mono io_spec ?_ (fun _ _ h => h) id
  intro _ w₁ h₁
  refine ⟨fun item hitem => ?_, fun _ => h₁⟩
  rw [h₁] at hitem
  obtain ⟨place, hplace, hlookup⟩ := Option.bind_eq_some_iff.mp hitem
  refine wp_mono io_spec ?_ (fun _ _ h => h.trans h₁) id
  intro _ w₂ h₂
  replace h₂ := h₂.trans h₁
  cases item with
  | file contents permissions =>
    simp only [wp_bind, wp_pure]
    refine wp_mono checkedCopyMetadata_spec ?_ (fun _ _ h => h.trans h₂) id
    rintro _ w₃ ⟨h₃, -⟩
    exact ⟨h₃.trans h₂, place, permissions, hplace, hlookup⟩
  | directory permissions => exact h₂
  | link target => exact h₂
  | special => exact h₂

/-- An item before its permissions are set. -/
def fresh : WorkspaceItem → WorkspaceItem
  | .directory _ => newDirectory
  | item => item

theorem copyEntry_spec (hentry : Planned expansions t place entry)
    (hstaged : Staged staging t w.tree) (hdest : staging <+: destination) :
    wp (copyEntry expansions destination entry)
      (fun _ w' => Staged staging t w'.tree ∧ ∀ p, w'.tree.lookup p =
        if p = destination ++ entry.relative then (t.lookup (place ++ entry.relative)).map fresh
        else w.tree.lookup p)
      (fun _ w' => Staged staging t w'.tree) False w := by
  have htarget : staging <+: destination ++ entry.relative :=
    hdest.trans (List.prefix_append _ _)
  obtain ⟨hlocated, hitem⟩ := hentry
  unfold copyEntry
  cases hkind : entry.kind with
  | directory =>
    rw [hkind] at hitem
    refine wp_mono createAt_spec ?_ (fun _ _ h => h ▸ hstaged) id
    rintro _ w₁ ⟨-, h₁⟩
    rw [hitem]
    exact ⟨hstaged.set htarget h₁, h₁⟩
  | file =>
    rw [hkind] at hitem
    obtain ⟨contents, hcontents⟩ := hitem
    simp only [wp_bind]
    refine wp_mono openRegularSource_spec ?_ (fun _ _ h => h ▸ hstaged) id
    rintro contents' w₁ ⟨h₁, place', permissions', hplace', hcontents'⟩
    obtain rfl : place ++ entry.relative = place' := Option.some.inj
      ((WorkspaceTree.locate_extends hstaged.extends hlocated).symm.trans hplace')
    obtain ⟨rfl, -⟩ := WorkspaceItem.file.inj (Option.some.inj
      ((hstaged.extends _ _ hcontents).symm.trans hcontents'))
    rw [← h₁] at hstaged
    refine wp_mono createAt_spec ?_ (fun _ _ h => h ▸ hstaged) id
    rintro _ w₂ ⟨-, h₂⟩
    have hstaged₂ := hstaged.set htarget h₂
    refine wp_mono io_spec ?_ (fun _ _ h => h ▸ hstaged₂) id
    intro _ w₃ h₃
    rw [← h₃] at h₂ hstaged₂
    refine wp_mono replaceAt_spec ?_ (fun _ _ h => h ▸ hstaged₂) id
    intro _ w₄ h₄
    have hstaged₄ := hstaged₂.set htarget h₄
    refine wp_mono setPermissions_spec ?_ (fun _ _ h => h ▸ hstaged₄) id
    intro _ w₅ h₅
    have hstaged₅ := hstaged₄.set htarget h₅
    refine wp_mono io_spec ?_ (fun _ _ h => h ▸ hstaged₅) id
    intro _ w₆ h₆
    rw [h₆]
    refine ⟨hstaged₅, fun p => ?_⟩
    rw [h₅ p]
    split
    · rw [h₄, if_pos rfl, hcontents]
      rfl
    · rename_i hp
      rw [h₄, if_neg hp, h₂, if_neg hp, h₁]

theorem copyEntries_spec (hplan : ∀ e ∈ plan, Planned expansions t place e)
    (hstaged : Staged staging t w.tree) (hdest : staging <+: destination) :
    wp (copyEntries expansions destination plan)
      (fun _ w' => Staged staging t w'.tree ∧ ∀ rest, w'.tree.lookup (destination ++ rest) =
        if ∃ e ∈ plan, e.relative = rest then (t.lookup (place ++ rest)).map fresh
        else w.tree.lookup (destination ++ rest))
      (fun _ w' => Staged staging t w'.tree) False w := by
  induction plan generalizing w with
  | nil =>
    refine ⟨hstaged, fun rest => ?_⟩
    rw [if_neg fun ⟨e, he, _⟩ => absurd he List.not_mem_nil]
  | cons entry plan ih =>
    simp only [copyEntries, wp_bind]
    refine wp_mono (copyEntry_spec (hplan entry List.mem_cons_self) hstaged hdest) ?_
      (fun _ _ h => h) id
    rintro _ w₁ ⟨hstaged₁, h₁⟩
    refine wp_mono (ih (fun e he => hplan e (List.mem_cons_of_mem _ he)) hstaged₁) ?_
      (fun _ _ h => h) id
    rintro _ w₂ ⟨hstaged₂, h₂⟩
    refine ⟨hstaged₂, fun rest => ?_⟩
    rw [h₂ rest, h₁]
    simp only [List.exists_mem_cons_iff, List.append_cancel_left_eq]
    by_cases hrest : ∃ e ∈ plan, e.relative = rest
    · rw [if_pos hrest, if_pos (.inr hrest)]
    · rw [if_neg hrest]
      by_cases hentry : rest = entry.relative
      · rw [if_pos hentry, if_pos (.inl hentry.symm), hentry]
      · rw [if_neg hentry, if_neg (not_or.mpr ⟨Ne.symm hentry, hrest⟩)]

theorem finishDirectories_spec (hplan : ∀ e ∈ plan, Planned expansions t place e)
    (hdirs : ∀ e ∈ plan, e.kind = .directory → ∃ permissions,
      w.tree.lookup (destination ++ e.relative) = some (.directory permissions))
    (hstaged : Staged staging t w.tree) (hdest : staging <+: destination) :
    wp (finishDirectories destination plan)
      (fun _ w' => Staged staging t w'.tree ∧ ∀ rest, w'.tree.lookup (destination ++ rest) =
        if ∃ e ∈ plan, (e.kind = .directory ∧ e.relative ≠ []) ∧ e.relative = rest then
          t.lookup (place ++ rest)
        else w.tree.lookup (destination ++ rest))
      (fun _ w' => Staged staging t w'.tree) False w := by
  induction plan generalizing w with
  | nil =>
    refine ⟨hstaged, fun rest => ?_⟩
    rw [if_neg fun ⟨e, he, _⟩ => absurd he List.not_mem_nil]
  | cons entry plan ih =>
    have hrest : ∀ e ∈ plan, Planned expansions t place e :=
      fun e he => hplan e (List.mem_cons_of_mem _ he)
    unfold finishDirectories
    rw [wp_ite]
    refine ⟨fun hdir => ?_, fun hother => ?_⟩
    · rw [wp_bind]
      refine wp_mono setPermissions_spec ?_ (fun _ _ h => h ▸ hstaged) id
      intro _ w₁ h₁
      have hitem := (hplan entry List.mem_cons_self).2
      obtain ⟨permissions, hold⟩ := hdirs entry List.mem_cons_self hdir.1
      rw [hdir.1] at hitem
      rw [hold, Option.map_some] at h₁
      have hstaged₁ := hstaged.set (hdest.trans (List.prefix_append _ _)) h₁
      have hdirs₁ : ∀ e ∈ plan, e.kind = .directory → ∃ permissions,
          w₁.tree.lookup (destination ++ e.relative) = some (.directory permissions) := by
        intro e he hkind
        rw [h₁]
        split
        · exact ⟨entry.permissions, rfl⟩
        · exact hdirs e (List.mem_cons_of_mem _ he) hkind
      refine wp_mono (ih hrest hdirs₁ hstaged₁) ?_ (fun _ _ h => h) id
      rintro _ w₂ ⟨hstaged₂, h₂⟩
      refine ⟨hstaged₂, fun rest => ?_⟩
      rw [h₂ rest, h₁]
      simp only [List.exists_mem_cons_iff, List.append_cancel_left_eq]
      by_cases hrest : ∃ e ∈ plan, (e.kind = .directory ∧ e.relative ≠ []) ∧ e.relative = rest
      · rw [if_pos hrest, if_pos (.inr hrest)]
      · rw [if_neg hrest]
        by_cases hentry : rest = entry.relative
        · rw [if_pos hentry, if_pos (.inl ⟨hdir, hentry.symm⟩), hentry]
          exact hitem.symm
        · rw [if_neg hentry, if_neg (not_or.mpr ⟨fun h => hentry h.2.symm, hrest⟩)]
    · refine wp_mono (ih hrest (fun e he => hdirs e (List.mem_cons_of_mem _ he)) hstaged) ?_
        (fun _ _ h => h) id
      rintro _ w₁ ⟨hstaged₁, h₁⟩
      refine ⟨hstaged₁, fun rest => ?_⟩
      rw [h₁ rest]
      simp only [List.exists_mem_cons_iff, hother, false_and, false_or]

/-- The published item, before its permissions are set. -/
def restricted : WorkspaceItem → WorkspaceItem
  | .directory _ => .directory restrictive
  | item => item

theorem executeCopyPlan_spec (hplan : Pending expansions t place plan [])
    (hstaged : Staged staging t w.tree) (hdest : staging <+: destination)
    (hempty : ∀ rest, w.tree.lookup (destination ++ rest) = none) :
    wp (executeCopyPlan expansions destination plan)
      (fun _ w' => Staged staging t w'.tree ∧ ∀ rest, w'.tree.lookup (destination ++ rest) =
        if rest = [] then (t.lookup place).map restricted else t.lookup (place ++ rest))
      (fun _ w' => Staged staging t w'.tree) False w := by
  obtain ⟨top, htop, hitem⟩ := hplan.top
  have hcomplete : ∀ rest, (t.lookup (place ++ rest)).isSome = true →
      ∃ e ∈ plan, e.relative = rest := fun rest hrest =>
    (hplan.complete rest hrest).resolve_right fun ⟨_, hp, _⟩ => absurd hp List.not_mem_nil
  unfold executeCopyPlan
  rw [wp_ite]
  refine ⟨fun _ => ?_, fun _ => ?_⟩
  · rw [wp_bind, wp_throw]
    exact hstaged
  simp only [wp_bind]
  refine wp_mono (copyEntries_spec hplan.planned hstaged hdest) ?_ (fun _ _ h => h) id
  rintro _ w₁ ⟨hstaged₁, hcopied⟩
  -- All entries are there, the directories among them with the permissions of new ones.
  have h₁ : ∀ rest,
      w₁.tree.lookup (destination ++ rest) = (t.lookup (place ++ rest)).map fresh := by
    intro rest
    rw [hcopied rest]
    split
    · rfl
    · rename_i hno
      rw [hempty rest]
      cases hrest : t.lookup (place ++ rest) with
      | none => rfl
      | some item => exact absurd (hcomplete rest (by rw [hrest]; rfl)) hno
  have hdirs : ∀ e ∈ plan.reverse, e.kind = .directory → ∃ permissions,
      w₁.tree.lookup (destination ++ e.relative) = some (.directory permissions) := by
    intro e he hkind
    have hitem := (hplan.planned e (List.mem_reverse.mp he)).2
    rw [hkind] at hitem
    rw [h₁, hitem]
    exact ⟨_, rfl⟩
  refine wp_mono (finishDirectories_spec (fun e he => hplan.planned e (List.mem_reverse.mp he))
    hdirs hstaged₁ hdest) ?_ (fun _ _ h => h) id
  rintro _ w₂ ⟨hstaged₂, hfinished⟩
  have h₂ : ∀ rest, w₂.tree.lookup (destination ++ rest) =
      if rest = [] then (t.lookup place).map fresh else t.lookup (place ++ rest) := by
    intro rest
    rw [hfinished rest]
    split
    · rename_i hdir
      obtain ⟨e, -, ⟨-, hne⟩, rfl⟩ := hdir
      rw [if_neg hne]
    · rename_i hno
      rw [h₁]
      split
      · rename_i hnil
        rw [hnil, List.append_nil]
      · rename_i hne
        -- What is no directory had its permissions when it was copied.
        cases hrest : t.lookup (place ++ rest) with
        | none => rfl
        | some item =>
          obtain ⟨e, he, rfl⟩ := hcomplete rest (by rw [hrest]; rfl)
          have hitem := (hplan.planned e he).2
          cases hkind : e.kind with
          | directory => exact absurd ⟨e, List.mem_reverse.mpr he, ⟨hkind, hne⟩, rfl⟩ hno
          | file =>
            rw [hkind] at hitem
            obtain ⟨contents, hcontents⟩ := hitem
            rw [hrest] at hcontents
            obtain rfl := Option.some.inj hcontents
            rfl
  have hplace := h₂ []
  rw [if_pos rfl, List.append_nil] at hplace
  unfold setRestrictiveStagingRoot
  rw [wp_ite, htop, Option.map_some]
  refine ⟨fun hdir => ?_, fun hfile => ?_⟩
  · rw [Option.some.inj hdir] at hitem
    refine wp_mono setPermissions_spec ?_ (fun _ _ h => h ▸ hstaged₂) id
    intro _ w₃ h₃
    refine ⟨hstaged₂.set hdest h₃, fun rest => ?_⟩
    rw [h₃, h₂, hplace, hitem]
    simp only [List.append_right_eq_self]
    split
    · rfl
    · rfl
  · rw [wp_pure]
    refine ⟨hstaged₂, fun rest => ?_⟩
    rw [h₂]
    cases hkind : top.kind with
    | directory => exact absurd (congrArg some hkind) hfile
    | file =>
      rw [hkind] at hitem
      obtain ⟨contents, hcontents⟩ := hitem
      rw [hcontents]
      rfl

end Replay

/-! ## The duplicate -/

section Duplicate

variable {t t' : WorkspaceTree} {staging parent : List OsStr} {processId : Nat}

/-- A staging directory is removed, and all is as before. -/
theorem removeStaging_spec (hstaged : Staged staging t w.tree) (hne : staging ≠ []) :
    wp (removeDirAll staging) (fun _ w' => ∀ p, w'.tree.lookup p = t.lookup p)
      (fun _ _ => False) False w := by
  refine wp_mono (removeDirAll_spec hne) ?_ (fun _ _ h => h) id
  intro _ w₁ h₁ p
  rw [h₁ p]
  split
  · rename_i hp
    exact (PathTree.lookup_none_below hstaged.absent hp).symm
  · rename_i hp
    exact hstaged.outside p hp

theorem createStaging_spec (attempts : Nat) (hw : w.tree = t) :
    wp (createStaging processId parent attempts)
      (fun staging w' => Staged staging t w'.tree ∧ (∃ name, staging = parent ++ [name]) ∧
        ∀ rest, rest ≠ [] → w'.tree.lookup (staging ++ rest) = none)
      (fun _ w' => ∀ p, w'.tree.lookup p = t.lookup p) False w := by
  induction attempts generalizing w with
  | zero => exact fun p => by rw [hw]
  | succ attempts ih =>
    simp only [createStaging, wp_bind, wp_get, wp_modify, wp_attempt]
    refine wp_mono createAt_spec ?_ ?_ id
    · rintro _ w₁ ⟨habsent, h₁⟩
      rw [show ({ w with nextStagingId := w.nextStagingId + 1 } : Workspace).tree = t from hw]
        at habsent h₁
      have hne : parent ++ [stagingName processId w.nextStagingId] ≠ [] := by simp
      generalize hstaging : parent ++ [stagingName processId w.nextStagingId] = staging at *
      have hstaged₁ : Staged staging t w₁.tree := by
        refine ⟨habsent, fun p hp => ?_⟩
        rw [h₁, if_neg]
        rintro rfl
        exact hp List.prefix_rfl
      have hremove : ∀ e w', Staged staging t w'.tree → wp (removeDirAll staging)
          (fun _ s' => wp (throw e : Operating (List OsStr)) (fun staging w' =>
            Staged staging t w'.tree ∧ (∃ name, staging = parent ++ [name]) ∧
              ∀ rest, rest ≠ [] → w'.tree.lookup (staging ++ rest) = none)
            (fun _ w' => ∀ p, w'.tree.lookup p = t.lookup p) False s')
          (fun _ w' => ∀ p, w'.tree.lookup p = t.lookup p) False w' := fun e w' h =>
        wp_mono (removeStaging_spec h hne) (fun _ _ h => h) (fun _ _ h => h.elim) id
      refine wp_mono setPermissions_spec ?_ (fun e w' h => hremove e w' (h ▸ hstaged₁)) id
      intro _ w₂ h₂
      have hstaged₂ := hstaged₁.set List.prefix_rfl h₂
      refine wp_mono io_spec ?_ (fun e w' h => hremove e w' (h ▸ hstaged₂)) id
      intro _ w₃ h₃
      rw [wp_pure, h₃]
      refine ⟨hstaged₂, ⟨_, hstaging.symm⟩, fun rest hrest => ?_⟩
      · have hbelow : staging ++ rest ≠ staging := fun h => hrest (List.append_right_eq_self.mp h)
        rw [h₂, if_neg hbelow, h₁, if_neg hbelow]
        exact PathTree.lookup_append_none habsent rest
    · intro e w₁ h₁
      replace h₁ : w₁.tree = t := h₁.trans hw
      split
      · rename_i heq
        exact ih h₁
      · exact fun p => by rw [h₁]
      · rename_i heq
        cases heq

/-- What is published, with what stands for the top of the source. -/
structure Copied (t : WorkspaceTree) (place destination : List OsStr)
    (top : WorkspaceItem → WorkspaceItem) (t' : WorkspaceTree) : Prop where
  copy : ∀ rest, t'.lookup (destination ++ rest) =
    if rest = [] then (t.lookup place).map top else t.lookup (place ++ rest)
  others : ∀ p, ¬destination <+: p → t'.lookup p = t.lookup p

theorem Copied.lookup {top : WorkspaceItem → WorkspaceItem}
    (h : Copied t place destination top t') (p : List OsStr) : t'.lookup p =
      if p = destination then (t.lookup place).map top
      else if destination <+: p then t.lookup (place ++ p.drop destination.length)
      else t.lookup p := by
  by_cases hp : destination <+: p
  · obtain ⟨rest, rfl⟩ := hp
    rw [h.copy, if_pos (List.prefix_append _ _), List.drop_left]
    simp only [List.append_right_eq_self]
  · rw [h.others p hp, if_neg hp, if_neg]
    rintro rfl
    exact hp List.prefix_rfl

/-- The copy is published, and the staging directory is still there. -/
structure Published (t : WorkspaceTree) (staging place destination : List OsStr)
    (top : WorkspaceItem → WorkspaceItem) (t' : WorkspaceTree) : Prop where
  absent : t.lookup destination = none
  unstaged : t.lookup staging = none
  apart : ∀ rest, ¬staging <+: destination ++ rest
  copy : ∀ rest, t'.lookup (destination ++ rest) =
    if rest = [] then (t.lookup place).map top else t.lookup (place ++ rest)
  others : ∀ p, ¬destination <+: p → ¬staging <+: p → t'.lookup p = t.lookup p

theorem publishCopy_spec {plan : List CopyEntry} {name : OsStr}
    (hplan : Pending expansions t place plan []) (hstaged : Staged staging t w.tree)
    (hstaging : ∃ name, staging = parent ++ [name])
    (hempty : ∀ rest, rest ≠ [] → w.tree.lookup (staging ++ rest) = none) :
    wp (publishCopy expansions staging (parent ++ [name]) plan)
      (fun _ w' => Published t staging place (parent ++ [name]) restricted w'.tree)
      (fun _ w' => Staged staging t w'.tree) False w := by
  simp only [publishCopy, wp_bind]
  have hpayload : ∀ rest, w.tree.lookup (staging ++ [stagingPayload] ++ rest) = none := by
    intro rest
    rw [List.append_assoc]
    exact hempty _ (by simp)
  refine wp_mono (executeCopyPlan_spec hplan hstaged (List.prefix_append _ _) hpayload) ?_
    (fun _ _ h => h) id
  rintro _ w₁ ⟨hstaged₁, h₁⟩
  refine wp_mono atomicRenameNoreplace_spec ?_ (fun _ _ h => h ▸ hstaged₁) id
  rintro _ w₂ ⟨habsent, h₂⟩
  -- The staging directory is there, so it is not the destination.
  have hopen : (w₁.tree.lookup staging).isSome = true := by
    have hroot := h₁ []
    rw [if_pos rfl, List.append_nil] at hroot
    refine PathTree.isSome_of_isBranch (w₁.tree.below staging stagingPayload ?_)
    rw [hroot, Option.isSome_map]
    exact hplan.isSome
  have hapart : ∀ rest, ¬staging <+: parent ++ [name] ++ rest := by
    intro rest hprefix
    obtain ⟨name', rfl⟩ := hstaging
    have heq := (List.prefix_of_prefix_length_le hprefix (List.prefix_append _ rest)
      (by simp)).eq_of_length (by simp)
    rw [heq, habsent] at hopen
    cases hopen
  refine ⟨?_, hstaged.absent, hapart, fun rest => ?_, fun p hp hp' => ?_⟩
  · rw [← hstaged₁.outside _ (List.append_nil (parent ++ [name]) ▸ hapart []), habsent]
  · rw [h₂, if_pos (List.prefix_append _ _), List.drop_left, h₁]
  · rw [h₂, if_neg hp, if_neg fun h => hp' ((List.prefix_append _ _).trans h),
      hstaged₁.outside p hp']

/-- The permissions of the published directory are those of the source. -/
theorem Published.setPermissions {t'' : WorkspaceTree}
    (h : Published t staging place destination restricted t')
    (hplace : t.lookup place = some (.directory permissions))
    (ht : ∀ p, t''.lookup p =
      if p = destination then (t'.lookup destination).map (·.withPermissions permissions)
      else t'.lookup p) :
    Published t staging place destination id t'' := by
  have htarget := h.copy []
  rw [List.append_nil, if_pos rfl, hplace] at htarget
  refine ⟨h.absent, h.unstaged, h.apart, fun rest => ?_, fun p hp hp' => ?_⟩
  · rw [ht, h.copy, htarget, hplace]
    simp only [List.append_right_eq_self]
    split
    · rfl
    · rfl
  · rw [ht, if_neg, h.others p hp hp']
    rintro rfl
    exact hp List.prefix_rfl

theorem removePublished_spec {top : WorkspaceItem → WorkspaceItem} (hne : staging ≠ [])
    (h : Published t staging place destination top w.tree) :
    wp (removeDirAll staging) (fun _ w' => Copied t place destination top w'.tree)
      (fun _ _ => False) False w := by
  refine wp_mono (removeDirAll_spec hne) ?_ (fun _ _ h => h) id
  intro _ w₁ h₁
  refine ⟨fun rest => ?_, fun p hp => ?_⟩
  · rw [h₁, if_neg (h.apart rest), h.copy]
  · rw [h₁]
    split
    · rename_i hstaging
      exact (PathTree.lookup_none_below h.unstaged hstaging).symm
    · rename_i hstaging
      exact h.others p hp hstaging

/-- What a duplicate asks of the tree. -/
structure Duplicable (expansions : Nat) (t : WorkspaceTree)
    (source destination place target : List OsStr) : Prop where
  source : t.locate expansions source = some place
  destination : t.locate expansions destination = some target
  absent : t.lookup target = none
  outside : ¬place <+: target
  copyable : ∀ rest item, t.lookup (place ++ rest) = some item → item.Copyable

theorem destinationParts_ok {front : List OsStr} {name : OsStr}
    (h : destinationParts destination = .ok (front, name)) : destination = front ++ [name] := by
  unfold destinationParts at h
  split at h
  · rename_i last hlast
    obtain ⟨rfl, rfl⟩ := Prod.mk.inj (Except.ok.inj h)
    exact (List.dropLast_append_getLast? last hlast).symm
  · cases h

/-- A directory has an entry in itself only where it was refused, and nothing else has one. -/
theorem not_prefix_target {source front : List OsStr} {name : OsStr} {item : WorkspaceItem}
    (hplace : t.locate expansions source = some place) (hitem : t.lookup place = some item)
    (hparts : destinationParts destination = .ok (front, name))
    (hparent : t.resolve expansions front = some parent) (hbranch : t.isBranch parent = true)
    (habsent : t.lookup (parent ++ [name]) = none)
    (hreject : item.isDir = true → ∃ place front name parent,
      t.resolve expansions source = some place ∧ destinationParts destination = .ok (front, name) ∧
        t.resolve expansions front = some parent ∧ ¬place <+: parent ++ [name]) :
    ¬place <+: parent ++ [name] := by
  intro hprefix
  have hdir : t.isBranch place = true := by
    rcases List.prefix_concat_iff.mp hprefix with heq | ⟨rest, rfl⟩
    · rw [heq, habsent] at hitem
      cases hitem
    · cases rest with
      | nil => rwa [List.append_nil] at hbranch
      | cons n rest => exact PathTree.isBranch_of_cons (PathTree.isSome_of_isBranch hbranch)
  have hisDir : item.isDir = true := by rwa [PathTree.isBranch, hitem] at hdir
  obtain ⟨place', front', name', parent', hplace', hparts', hparent', hno⟩ := hreject hisDir
  obtain rfl := Option.some.inj
    ((WorkspaceTree.resolve_of_locate hplace hdir).symm.trans hplace')
  obtain ⟨rfl, rfl⟩ := Prod.mk.inj (Except.ok.inj (hparts.symm.trans hparts'))
  obtain rfl := Option.some.inj (hparent.symm.trans hparent')
  exact hno hprefix

theorem duplicate_spec {source : List OsStr} (hw : w.tree = t) :
    wp (duplicate expansions processId source destination)
      (fun _ w' => ∃ place target, Duplicable expansions t source destination place target ∧
        Copied t place target id w'.tree)
      (fun e w' => (∀ p, w'.tree.lookup p = t.lookup p) ∨
        ∃ place target error permissions,
          Duplicable expansions t source destination place target ∧ e = .published error ∧
            t.lookup place = some (.directory permissions) ∧
            Copied t place target restricted w'.tree) False w := by
  have hsame : ∀ w' : Workspace, w'.tree = t → ∀ p, w'.tree.lookup p = t.lookup p :=
    fun w' h p => by rw [h]
  simp only [duplicate, wp_bind]
  refine wp_mono checkedCopyMetadata_spec ?_ (fun _ _ h => .inl (hsame _ (h.trans hw))) id
  rintro item w₁ ⟨h₁, -, place, hplace, hitem⟩
  rw [hw] at h₁ hplace hitem
  refine wp_mono rejectResolvedDescendant_spec ?_ (fun _ _ h => .inl (hsame _ (h.trans h₁))) id
  rintro _ w₂ ⟨h₂, hreject⟩
  rw [h₁] at h₂ hreject
  refine wp_mono (preflightCopy_spec hplace h₂) ?_ (fun _ _ h => .inl (hsame _ h)) id
  rintro plan w₃ ⟨h₃, hplan⟩
  rw [wp_ofExcept]
  refine ⟨?_, fun _ _ => .inl (hsame _ h₃)⟩
  rintro ⟨front, name⟩ hparts
  refine wp_mono openDir_spec ?_ (fun _ _ h => .inl (hsame _ (h.trans h₃))) id
  rintro parent w₄ ⟨h₄, hparent, hbranch⟩
  rw [h₃] at h₄ hparent hbranch
  refine wp_mono (createStaging_spec stagingAttempts h₄) ?_ (fun _ _ h => .inl h) id
  rintro staging w₅ ⟨hstaged, hstaging, hempty⟩
  have hne : staging ≠ [] := by
    obtain ⟨name, rfl⟩ := hstaging
    simp
  rw [wp_attempt]
  refine wp_mono (publishCopy_spec hplan hstaged hstaging hempty) ?_ ?_ id
  · intro _ w₆ hpub
    have hduplicable : Duplicable expansions t source destination place (parent ++ [name]) :=
      { source := hplace
        destination := WorkspaceTree.locate_eq_some.mpr
          ⟨front, name, parent, destinationParts_ok hparts, hparent, hbranch, rfl⟩
        absent := hpub.absent
        outside := not_prefix_target hplace hitem hparts hparent hbranch hpub.absent hreject
        copyable := hplan.copyable }
    obtain ⟨top, htop, htopItem⟩ := hplan.top
    cases hkind : top.kind with
    | file =>
      have hnone : topDirectoryPermissions plan = none := by
        rw [topDirectoryPermissions, htop, Option.bind_some, hkind]
        rfl
      rw [hkind] at htopItem
      obtain ⟨contents, hcontents⟩ := htopItem
      rw [hnone]
      refine wp_mono (removePublished_spec hne hpub) (fun _ w₇ h₇ => ?_) (fun _ _ h => h.elim) id
      refine ⟨place, _, hduplicable, fun rest => ?_, h₇.others⟩
      rw [h₇.copy, hcontents]
      rfl
    | directory =>
      have hsome : topDirectoryPermissions plan = some top.permissions := by
        rw [topDirectoryPermissions, htop, Option.bind_some, hkind]
        rfl
      rw [hkind] at htopItem
      rw [hsome]
      simp only [wp_bind, wp_attempt, wp_throw]
      refine wp_mono setPermissions_spec ?_ ?_ id
      · intro _ w₇ h₇
        have hpub₇ := hpub.setPermissions htopItem h₇
        refine wp_mono (removePublished_spec hne hpub₇) (fun _ w₈ h₈ => ?_) (fun _ _ h => h.elim) id
        exact ⟨place, _, hduplicable, h₈⟩
      · intro e w₇ h₇
        rw [← h₇] at hpub
        refine wp_mono (removePublished_spec hne hpub) (fun _ w₈ h₈ => ?_) (fun _ _ h => h.elim) id
        exact .inr ⟨place, _, e, top.permissions, hduplicable, rfl, htopItem, h₈⟩
  · intro e w₆ h₆
    simp only [wp_bind, wp_throw]
    exact wp_mono (removeStaging_spec h₆ hne) (fun _ _ h => .inl h) (fun _ _ h => h.elim) id

end Duplicate

/-- What a duplicate leaves. -/
def Outcome (expansions : Nat) (t : WorkspaceTree) (source destination : List Component)
    (result : Except OperationError Unit) (t' : WorkspaceTree) : Prop :=
  (∃ e, result = .error e) ∧ (∀ p, t'.lookup p = t.lookup p) ∨
    ∃ source' destination' place target,
      scopedPath source = .ok source' ∧ scopedPath destination = .ok destination' ∧
      Duplicable expansions t source' destination' place target ∧
      (result = .ok () ∧ Copied t place target id t' ∨
        (∃ error permissions, result = .error (.published error) ∧
          t.lookup place = some (.directory permissions)) ∧ Copied t place target restricted t')

theorem applyDuplicate_spec {expansions processId : Nat} {t : WorkspaceTree}
    {source destination : List Component} (hw : w.tree = t) :
    wp (applyDuplicate expansions processId source destination)
      (fun _ w' => Outcome expansions t source destination (.ok ()) w'.tree)
      (fun e w' => Outcome expansions t source destination (.error e) w'.tree) False w := by
  have hsame : ∀ e, ∀ w' : Workspace, w'.tree = t →
      Outcome expansions t source destination (.error e) w'.tree :=
    fun e w' h => .inl ⟨⟨e, rfl⟩, fun p => by rw [h]⟩
  simp only [applyDuplicate, wp_bind, wp_attempt, wp_throw]
  refine wp_mono io_spec ?_ (fun _ _ h => hsame _ _ (h.trans hw)) id
  intro _ w₁ h₁
  replace h₁ := h₁.trans hw
  refine wp_mono io_spec ?_ (fun _ _ h => hsame _ _ (h.trans h₁)) id
  intro _ w₂ h₂
  replace h₂ := h₂.trans h₁
  rw [wp_ofExcept]
  refine ⟨fun source' hsource => ?_, fun _ _ => hsame _ _ h₂⟩
  rw [wp_ofExcept]
  refine ⟨fun destination' hdestination => ?_, fun _ _ => hsame _ _ h₂⟩
  refine wp_mono (duplicate_spec h₂) ?_ ?_ id
  · rintro _ w₃ ⟨place, target, hd, hcopied⟩
    exact .inr ⟨source', destination', place, target, hsource, hdestination, hd,
      .inl ⟨rfl, hcopied⟩⟩
  · rintro e w₃ (h | ⟨place, target, error, permissions, hd, rfl, hplace, hcopied⟩)
    · exact .inl ⟨⟨e, rfl⟩, h⟩
    · exact .inr ⟨source', destination', place, target, hsource, hdestination, hd,
        .inr ⟨⟨error, permissions, rfl, hplace⟩, hcopied⟩⟩

/-- A duplicate that succeeds adds a copy of the source, and one that fails leaves the tree, unless
it is the permissions of a published directory that were not set. Where the destination exists or
is in the source, or the source has something that is not copied, it always fails. -/
theorem duplicate_law (expansions processId : Nat) (t : WorkspaceTree)
    (fails : List (Option StepError)) (nextStagingId : Nat) (source destination : List Component) :
    ∃ result w, (applyDuplicate expansions processId source destination).exec
        ⟨t, fails, nextStagingId⟩ = some (result, w) ∧
      (result = .ok () → ∃ source' destination' place target,
        scopedPath source = .ok source' ∧ scopedPath destination = .ok destination' ∧
        Duplicable expansions t source' destination' place target ∧
        ∀ p, w.tree.lookup p = if target <+: p then t.lookup (place ++ p.drop target.length)
          else t.lookup p) ∧
      (∀ e, result = .error e → (∀ p, w.tree.lookup p = t.lookup p) ∨
        ∃ error source' destination' place target permissions, e = .published error ∧
          scopedPath source = .ok source' ∧ scopedPath destination = .ok destination' ∧
          Duplicable expansions t source' destination' place target ∧
          t.lookup place = some (.directory permissions) ∧
          ∀ p, w.tree.lookup p = if p = target then some (.directory restrictive)
            else if target <+: p then t.lookup (place ++ p.drop target.length)
            else t.lookup p) ∧
      ∀ source' destination' place target, scopedPath source = .ok source' →
        scopedPath destination = .ok destination' →
        t.locate expansions source' = some place →
        t.locate expansions destination' = some target →
        ((t.lookup target).isSome = true ∨ place <+: target ∨
          ∃ rest item, t.lookup (place ++ rest) = some item ∧ ¬item.Copyable) →
        (∃ e, result = .error e) ∧ ∀ p, w.tree.lookup p = t.lookup p := by
  have hspec := @applyDuplicate_spec ⟨t, fails, nextStagingId⟩ expansions processId t source
    destination rfl
  obtain ⟨result, w, hx⟩ := hspec.ends
  have houtcome : Outcome expansions t source destination result w.tree := by
    cases result with
    | ok u => exact hspec.of_ok hx
    | error e => exact hspec.of_error hx
  refine ⟨result, w, hx, fun hok => ?_, fun e he => ?_, ?_⟩
  · subst hok
    obtain ⟨⟨_, he⟩, -⟩ | ⟨source', destination', place, target, hs, hd, hduplicable,
      ⟨-, hcopied⟩ | ⟨⟨_, _, he, -⟩, -⟩⟩ := houtcome
    · cases he
    · refine ⟨source', destination', place, target, hs, hd, hduplicable, fun p => ?_⟩
      rw [hcopied.lookup p]
      split
      · rename_i hp
        rw [hp, if_pos List.prefix_rfl, List.drop_length, List.append_nil, Option.map_id, id]
      · rfl
    · cases he
  · subst he
    obtain ⟨-, hsame⟩ | ⟨source', destination', place, target, hs, hd, hduplicable,
      ⟨he, -⟩ | ⟨⟨error, permissions, he, hplace⟩, hcopied⟩⟩ := houtcome
    · exact .inl hsame
    · cases he
    · refine .inr ⟨error, source', destination', place, target, permissions, Except.error.inj he,
        hs, hd, hduplicable, hplace, fun p => ?_⟩
      rw [hcopied.lookup p, hplace]
      rfl
  · intro source' destination' place target hs hd hplace htarget hrefused
    obtain h | ⟨source'', destination'', place', target', hs', hd', hduplicable, -⟩ := houtcome
    · exact h
    · obtain rfl := Except.ok.inj (hs.symm.trans hs')
      obtain rfl := Except.ok.inj (hd.symm.trans hd')
      obtain rfl := Option.some.inj (hplace.symm.trans hduplicable.source)
      obtain rfl := Option.some.inj (htarget.symm.trans hduplicable.destination)
      rcases hrefused with h | h | ⟨rest, item, hitem, hno⟩
      · rw [hduplicable.absent] at h
        cases h
      · exact absurd h hduplicable.outside
      · exact absurd (hduplicable.copyable rest item hitem) hno

/-- With no failure, the copy has the permissions of its source. -/
example : observe (applyDuplicate 40 1 [.normal [97]] [.normal [98]])
    ⟨WorkspaceTree.ofDirectory [97] ⟨0o755⟩, [], 0⟩
    (fun _ w => (true, w.tree.lookup [[98]])) (fun _ w => (false, w.tree.lookup [[98]])) =
      some (true, some (.directory ⟨0o755⟩)) := by decide +kernel

/-- The last step fails, which sets the permissions of a directory that was published. -/
theorem published_stays :
    observe (applyDuplicate 40 1 [.normal [97]] [.normal [98]])
        ⟨WorkspaceTree.ofDirectory [97] ⟨0o755⟩, List.replicate 19 none ++ [some .other], 0⟩
        (fun _ w => (true, w.tree.lookup [[98]])) (fun _ w => (false, w.tree.lookup [[98]])) =
      some (false, some (.directory ⟨0o700⟩)) ∧
    (WorkspaceTree.ofDirectory [97] ⟨0o755⟩).lookup [[98]] = none := by
  decide +kernel

end Operating

end Strukt.Fs
