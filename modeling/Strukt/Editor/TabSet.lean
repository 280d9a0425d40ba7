import Strukt.Editor.TabsSpec

/-!
# The tabs of a workspace

`viewState` is what the shell draws: a tab for each open document, pinned unless the document is
the preview.

* **Tab sets** (`TabSet`): the documents have different identifiers and different paths, the
  active one is open and there is one while a document is, and the preview is open.
* **Spared tabs** (`SparesTabs`): an operation leaves the tabs of the documents that it does not
  name pinned, or not pinned, as they were.
* **The law** (`tab_law`): every workspace is a tab set, and the tabs are spared exactly where no
  other path is opened pinned beside a preview. That one is then shown as pinned.
-/

namespace Strukt

open Method

/-! ## The view -/

structure EditorTabView where
  id : DocumentId
  path : RelativeDocumentPath
  pinned : Bool
  active : Bool
  recoverable : Bool
  deriving DecidableEq

structure EditorViewState where
  tabs : List EditorTabView
  active : Option DocumentId
  deriving DecidableEq

def EditorWorkspace.viewState (w : EditorWorkspace) : EditorViewState where
  tabs := w.documents.map fun d =>
    { id := d.id
      path := d.path
      pinned := w.preview ≠ some d.id
      active := w.active = some d.id
      recoverable := d.isRecoverable }
  active := w.active

/-- The open document that the operation is about. -/
def EditorOp.names (w : EditorWorkspace) : EditorOp → Option DocumentId
  | .openDocument path _ _ _ _ => (w.documents.find? (·.path = path)).map (·.id)
  | .edit id _ _ _ _ _ | .undo id | .redo id | .completeSave id _ _ | .select id
  | .pinDocument id | .markRecovered id | .observeDiskChange id _ _ _ | .observeMissing id _
  | .reloadFromDisk id | .keepEditing id | .restoreRecovery id _ | .requestClose id
  | .resolveClose id _ => some id
  | .elsewhere => none

namespace EditorWorkspace

variable {w w' : EditorWorkspace} {op : EditorOp} {dop : DocumentOp} {id : DocumentId}
  {d d' : Document}

structure TabSet (w : EditorWorkspace) : Prop where
  ids : (w.documents.map (·.id)).Nodup
  paths : (w.documents.map (·.path)).Nodup
  active_open : ∀ id, w.active = some id → id ∈ w.documents.map (·.id)
  active_none : w.active = none ↔ w.documents = []
  preview_open : ∀ id, w.preview = some id → id ∈ w.documents.map (·.id)

/-- The tabs of the documents that stay open and are not named are shown as they were. -/
def SparesTabs (w : EditorWorkspace) (op : EditorOp) : Prop :=
  ∀ w' ∈ w.step op, ∀ t ∈ w.viewState.tabs, ∀ t' ∈ w'.viewState.tabs,
    t'.id = t.id → op.names w ≠ some t.id → t'.pinned = t.pinned

/-- Another path is opened pinned beside a preview. -/
def Unpreviews (w : EditorWorkspace) : EditorOp → Prop
  | .openDocument path _ _ _ disposition =>
    disposition = .pinned ∧ w.documents.find? (·.path = path) = none ∧ w.preview ≠ none
  | _ => False

instance (w : EditorWorkspace) (op : EditorOp) : Decidable (w.SparesTabs op) :=
  inferInstanceAs (Decidable (∀ w' ∈ w.step op, ∀ t ∈ w.viewState.tabs,
    ∀ t' ∈ w'.viewState.tabs, t'.id = t.id → op.names w ≠ some t.id → t'.pinned = t.pinned))

theorem mem_tabs {t : EditorTabView} (h : t ∈ w.viewState.tabs) :
    t.id ∈ w.documents.map (·.id) ∧ t.pinned = decide (w.preview ≠ some t.id) := by
  obtain ⟨d, hd, rfl⟩ := List.mem_map.mp h
  exact ⟨List.mem_map_of_mem hd, rfl⟩

theorem tab_of_id (h : id ∈ w.documents.map (·.id)) : ∃ t ∈ w.viewState.tabs, t.id = id := by
  obtain ⟨d, hd, rfl⟩ := List.mem_map.mp h
  exact ⟨_, List.mem_map_of_mem hd, rfl⟩

/-! ## What an operation does to the tabs -/

/-- The preview has nothing to recover, so the next one can replace it. -/
structure Tidy (w : EditorWorkspace) : Prop where
  valid : w.Valid
  tabSet : w.TabSet
  replaceable : ∀ id d, w.preview = some id → w.document id = some d → d.isRecoverable = false

/-- A method of one document, which may be focused or pinned after it. -/
structure Acted (w : EditorWorkspace) (id : DocumentId) (w' : EditorWorkspace) : Prop where
  ids : w'.documents.map (·.id) = w.documents.map (·.id)
  paths : w'.documents.map (·.path) = w.documents.map (·.path)
  others : ∀ i, i ≠ id → w'.document i = w.document i
  active : w'.active = w.active ∨ w'.active = some id ∧ id ∈ w.documents.map (·.id)
  preview : w'.preview = w.preview ∨ w.preview = some id ∧ w'.preview = none
  replaceable : w'.preview = some id → ∀ d', w'.document id = some d' → d'.isRecoverable = false

/-- What stays open where a document is opened. -/
def base (w : EditorWorkspace) (disposition : OpenDisposition) : EditorWorkspace :=
  if disposition = .preview then w.clearReplaceablePreview else w

/-- The workspace with a new document behind the others. -/
def pushed (w : EditorWorkspace) (path : RelativeDocumentPath) (text : String)
    (diskRevision : DiskRevision) (readOnly : Bool) (disposition : OpenDisposition) :
    EditorWorkspace :=
  { documents := w.documents ++ [.new ⟨w.nextDocumentId⟩ path text diskRevision readOnly]
    active := some ⟨w.nextDocumentId⟩
    preview := if disposition = .preview then some ⟨w.nextDocumentId⟩ else none
    nextDocumentId := w.nextDocumentId + 1 }

/-- What an operation makes of a workspace. -/
inductive Moved (w : EditorWorkspace) (op : EditorOp) : EditorWorkspace → Prop where
  | acted {id : DocumentId} {w' : EditorWorkspace} (hn : op.names w = some id)
      (h : w.Acted id w') : Moved w op w'
  | stays : Moved w op w
  | closed {id : DocumentId} (hn : op.names w = some id) : Moved w op (w.remove id)
  | opened (path : RelativeDocumentPath) (text : String) (diskRevision : DiskRevision)
      (readOnly : Bool) (disposition : OpenDisposition)
      (hop : op = .openDocument path text diskRevision readOnly disposition)
      (hnew : w.documents.find? (·.path = path) = none) :
      Moved w op (pushed (w.base disposition) path text diskRevision readOnly disposition)
  | counted (hop : op = .elsewhere) :
      Moved w op { w with nextDocumentId := w.nextDocumentId + 1 }

theorem effect_path (h : dop.Effect d d') : d'.path = d.path := by
  cases dop with
  | upgradeReadOnly text diskRevision =>
    subst h
    split <;> rfl
  | edit expected replacements kind cursorBefore cursorAfter =>
    obtain ⟨-, t, a, b', -, -, -, rfl⟩ := h
    exact Document.refreshed_path
  | undo | redo =>
    obtain ⟨t, h', a, b', -, -, rfl⟩ := h
    exact Document.refreshed_path
  | completeSave expected diskRevision =>
    obtain ⟨-, rfl⟩ := h
    rfl
  | observeDiskChange expected diskRevision diskText =>
    obtain ⟨-, h⟩ := h
    split at h
    · obtain ⟨a, b', -, rfl⟩ := h
      rfl
    · subst h
      rfl
  | observeMissing expected =>
    obtain ⟨-, rfl⟩ := h
    rfl
  | reloadFromDisk =>
    obtain ⟨diskRevision, diskText, -, a, b', -, rfl⟩ := h
    rfl
  | keepEditing =>
    obtain ⟨-, rfl⟩ := h
    rfl
  | markRecovered =>
    subst h
    rfl
  | restoreRecovery text =>
    simp only [DocumentOp.Effect] at h
    split at h
    · subst h
      rfl
    · obtain ⟨a, b', -, rfl⟩ := h
      rfl

theorem map_path_replaceDocument {ds : List Document} (hd : ds.find? (·.id = id) = some d)
    (h : d'.path = d.path) : (replaceDocument id d' ds).map (·.path) = ds.map (·.path) := by
  induction ds with
  | nil => cases hd
  | cons d₀ ds ih =>
    rw [replaceDocument]
    split
    · rename_i hid
      rw [List.find?_cons_of_pos (by simpa using hid)] at hd
      cases hd
      rw [List.map_cons, List.map_cons, h]
    · rename_i hid
      rw [List.find?_cons_of_neg (by simpa using hid)] at hd
      rw [List.map_cons, List.map_cons, ih hd]

/-- The method of a document, and what it leaves of the workspace. -/
theorem Valid.method (hv : w.Valid) (dop : DocumentOp) :
    wp (EditorWorkspace.onDocument id dop.run)
      (fun _ w' => ∃ d d', w.document id = some d ∧ dop.Effect d d' ∧ d'.id = id ∧
        d'.path = d.path ∧ w' = { w with documents := replaceDocument id d' w.documents })
      (fun _ w' => w' = w ∨ ∃ d d', w.document id = some d ∧ d'.id = id ∧ d'.path = d.path ∧
        d'.isRecoverable = d.isRecoverable ∧
        w' = { w with documents := replaceDocument id d' w.documents }) True w := by
  rw [wp_onDocument]
  refine ⟨fun d hd => ?_, fun _ => .inl rfl⟩
  obtain ⟨hmem, hid⟩ := mem_of_document hd
  refine wp_mono (d.run_spec (hv.apart d hmem) dop) (fun _ d' he => ?_) (fun _ d' hr => ?_)
    fun _ => trivial
  · exact ⟨d, d', hd, he, (effect_id he).trans hid, effect_path he, rfl⟩
  · obtain ⟨h', rfl⟩ := Document.refused_eq hr
    exact .inr ⟨d, { d with history := h' }, hd, hid, rfl, rfl, rfl⟩

section Acts

variable {active preview : Option DocumentId}
  (hactive : active = w.active ∨ active = some id ∧ id ∈ w.documents.map (·.id))
  (hpreview : preview = w.preview ∨ w.preview = some id ∧ preview = none)

include hactive hpreview

/-- One document is replaced, and focused or pinned or not. -/
theorem acted_replace (hd : w.document id = some d) (hid : d'.id = id) (hpath : d'.path = d.path)
    (hrep : preview = some id → d'.isRecoverable = false) :
    w.Acted id { w with
      documents := replaceDocument id d' w.documents
      active := active
      preview := preview } where
  ids := map_id_replaceDocument hid
  paths := map_path_replaceDocument hd hpath
  others _ hi := find?_replaceDocument_other hid hi
  active := hactive
  preview := hpreview
  replaceable hp e he := by
    unfold document at hd he
    rw [find?_replaceDocument_self hid hd] at he
    cases he
    exact hrep hp

theorem Tidy.acted (ht : w.Tidy) :
    w.Acted id { w with active := active, preview := preview } where
  ids := rfl
  paths := rfl
  others _ _ := rfl
  active := hactive
  preview := hpreview
  replaceable hp d hd := by
    dsimp only at hp
    refine ht.replaceable id d ?_ hd
    rcases hpreview with h | ⟨h, -⟩
    · exact h ▸ hp
    · exact h

end Acts

theorem Tidy.refused (ht : w.Tidy) (hd : w.document id = some d) (hid : d'.id = id)
    (hpath : d'.path = d.path) (hrec : d'.isRecoverable = d.isRecoverable) :
    w.Acted id { w with documents := replaceDocument id d' w.documents } :=
  acted_replace (.inl rfl) (.inl rfl) hd hid hpath fun hp => hrec.trans (ht.replaceable id d hp hd)

/-- What `pin` leaves of the preview. -/
def unpinned (id : DocumentId) (preview : Option DocumentId) : Option DocumentId :=
  if preview = some id then none else preview

theorem unpinned_ne : unpinned id w.preview ≠ some id := by
  unfold unpinned
  split
  · rintro ⟨⟩
  · assumption

theorem unpinned_preview :
    unpinned id w.preview = w.preview ∨ w.preview = some id ∧ unpinned id w.preview = none := by
  unfold unpinned
  split
  · exact .inr ⟨‹_›, rfl⟩
  · exact .inl rfl

theorem wp_pin {Q : Unit → EditorWorkspace → Prop} {E : EditorWorkspaceError → EditorWorkspace → Prop}
    {P : Prop} : wp (pin id) (fun u => Q u) E P w ↔
      (∀ d, w.document id = some d → Q () { w with preview := unpinned id w.preview }) ∧
      (w.document id = none → E (.documentNotFound id) w) := by
  simp only [pin, wp_bind, wp_get, wp_discard, wp_okOr, wp_modify, unpinned]

/-- A method of a document, then its tab is pinned. -/
theorem Tidy.pinned (ht : w.Tidy) (dop : DocumentOp) (hn : op.names w = some id) :
    wp (do EditorWorkspace.onDocument id dop.run; EditorWorkspace.pin id) (fun _ => Moved w op)
      (fun _ => Moved w op) True w := by
  rw [wp_bind]
  refine wp_mono (ht.valid.method dop) ?_ ?_ fun _ => trivial
  · rintro - - ⟨d, d', hd, -, hid, hpath, rfl⟩
    refine wp_pin.mpr ⟨fun e _ => ?_, fun hnone => ?_⟩
    · exact .acted hn (acted_replace (.inl rfl) unpinned_preview hd hid hpath fun hp =>
        absurd hp unpinned_ne)
    · -- The method does not close the document.
      unfold document at hd hnone
      rw [find?_replaceDocument_self hid hd] at hnone
      cases hnone
  · rintro - - (rfl | ⟨d, d', hd, hid, hpath, hrec, rfl⟩)
    · exact .stays
    · exact .acted hn (ht.refused hd hid hpath hrec)

theorem Tidy.completed (ht : w.Tidy) (expected : Revision) (diskRevision : DiskRevision) :
    wp (completeSave id expected diskRevision)
      (fun _ => Moved w (.completeSave id expected diskRevision))
      (fun _ => Moved w (.completeSave id expected diskRevision)) True w := by
  refine wp_mono (ht.valid.method (.completeSave expected diskRevision)) ?_ ?_ fun _ => trivial
  · rintro - - ⟨d, d', hd, he, hid, hpath, rfl⟩
    refine .acted rfl (acted_replace (.inl rfl) (.inl rfl) hd hid hpath fun _ => ?_)
    obtain ⟨-, rfl⟩ := he
    rfl
  · rintro - - (rfl | ⟨d, d', hd, hid, hpath, hrec, rfl⟩)
    · exact .stays
    · exact .acted rfl (ht.refused hd hid hpath hrec)

theorem Tidy.observed (ht : w.Tidy) (expected : Revision) (diskRevision : DiskRevision)
    (text : String) :
    wp (observeDiskChange id expected diskRevision text)
      (fun _ => Moved w (.observeDiskChange id expected diskRevision text))
      (fun _ => Moved w (.observeDiskChange id expected diskRevision text)) True w := by
  simp only [observeDiskChange, wp_bind, wp_get, wp_ite, wp_pure]
  refine wp_mono (ht.valid.method (.observeDiskChange expected diskRevision text)) ?_ ?_
    fun _ => trivial
  · rintro - - ⟨d, d', hd, -, hid, hpath, rfl⟩
    have hd' : ({ w with documents := replaceDocument id d' w.documents } :
        EditorWorkspace).document id = some d' := find?_replaceDocument_self hid hd
    rw [hd']
    refine ⟨fun _ => wp_pin.mpr ⟨fun _ _ => ?_, fun hnone => ?_⟩, fun hclean => ?_⟩
    · exact .acted rfl (acted_replace (.inl rfl) unpinned_preview hd hid hpath fun hp =>
        absurd hp unpinned_ne)
    · rw [hd'] at hnone
      cases hnone
    · exact .acted rfl (acted_replace (.inl rfl) (.inl rfl) hd hid hpath fun _ => by
        simpa using hclean)
  · rintro - - (rfl | ⟨d, d', hd, hid, hpath, hrec, rfl⟩)
    · exact .stays
    · exact .acted rfl (ht.refused hd hid hpath hrec)

theorem mem_ids (hd : w.document id = some d) : id ∈ w.documents.map (·.id) := by
  obtain ⟨hmem, rfl⟩ := mem_of_document hd
  exact List.mem_map_of_mem hmem

theorem Tidy.opened (ht : w.Tidy) (path : RelativeDocumentPath) (text : String)
    (diskRevision : DiskRevision) (readOnly : Bool) (disposition : OpenDisposition) :
    wp (openDocument path text diskRevision readOnly disposition)
      (fun _ => Moved w (.openDocument path text diskRevision readOnly disposition))
      (fun _ => Moved w (.openDocument path text diskRevision readOnly disposition)) True w := by
  simp only [openDocument, wp_bind, wp_get]
  cases hfind : w.documents.find? (·.path = path) with
  | none =>
    simp only [Option.map_none, wp_bind, wp_ite, wp_modify, wp_get, wp_pure]
    refine ⟨fun hp => ?_, fun hp => ?_⟩
    · have hmoved := Moved.opened path text diskRevision readOnly disposition rfl hfind
      rw [base, if_pos hp] at hmoved
      exact hmoved
    · have hmoved := Moved.opened path text diskRevision readOnly disposition rfl hfind
      rw [base, if_neg hp] at hmoved
      exact hmoved
  | some d =>
    have hn : (EditorOp.openDocument path text diskRevision readOnly disposition).names w =
        some d.id := by
      rw [EditorOp.names, hfind]
      rfl
    have hmem : d.id ∈ w.documents.map (·.id) :=
      List.mem_map_of_mem (List.mem_of_find?_eq_some hfind)
    simp only [Option.map_some, wp_bind, wp_ite, wp_modify, wp_pure, wp_pin]
    refine ⟨fun _ => ?_, fun _ => ⟨fun _ => ⟨fun _ _ => ?_, fun _ => ?_⟩, fun _ => ?_⟩⟩
    · refine wp_mono (ht.valid.method (.upgradeReadOnly text diskRevision)) ?_ ?_ fun _ => trivial
      · rintro - - ⟨e, e', he, heffect, hid, hpath, rfl⟩
        -- A document that becomes editable has no more to recover than before.
        have hrep : w.preview = some d.id → e'.isRecoverable = false := fun hp => by
          have hclean := ht.replaceable d.id e hp he
          subst heffect
          split
          · exact hclean
          · unfold Document.isRecoverable at hclean ⊢
            simp only [decide_eq_false_iff_not, not_or, Bool.not_eq_true] at hclean ⊢
            exact ⟨hclean.1, not_not.mpr rfl⟩
        refine ⟨fun _ => ⟨fun _ _ => ?_, fun _ => ?_⟩, fun _ => ?_⟩
        · exact .acted hn (acted_replace (.inr ⟨rfl, hmem⟩) unpinned_preview he hid hpath fun hp =>
            absurd hp unpinned_ne)
        · exact .acted hn (acted_replace (.inr ⟨rfl, hmem⟩) (.inl rfl) he hid hpath hrep)
        · exact .acted hn (acted_replace (.inr ⟨rfl, hmem⟩) (.inl rfl) he hid hpath hrep)
      · rintro - - (rfl | ⟨e, e', he, hid, hpath, hrec, rfl⟩)
        · exact .stays
        · exact .acted hn (ht.refused he hid hpath hrec)
    · exact .acted hn (ht.acted (.inr ⟨rfl, hmem⟩) unpinned_preview)
    · exact .acted hn (ht.acted (.inr ⟨rfl, hmem⟩) (.inl rfl))
    · exact .acted hn (ht.acted (.inr ⟨rfl, hmem⟩) (.inl rfl))

theorem Tidy.run (ht : w.Tidy) (op : EditorOp) :
    wp op.run (fun _ => Moved w op) (fun _ => Moved w op) True w := by
  cases op with
  | openDocument path text diskRevision readOnly disposition =>
    simp only [EditorOp.run, wp_discard]
    exact ht.opened path text diskRevision readOnly disposition
  | edit id expected replacements kind cursorBefore cursorAfter =>
    simp only [EditorOp.run, wp_bind, wp_ofExcept]
    refine ⟨fun t ht' => ?_, fun _ _ => .stays⟩
    have hn : (EditorOp.edit id expected replacements kind cursorBefore cursorAfter).names w =
        some id := rfl
    have hpinned := ht.pinned (.edit expected replacements kind cursorBefore cursorAfter) hn
    rw [EditorOp.run_edit ht'] at hpinned
    exact hpinned
  | undo id => exact ht.pinned .undo rfl
  | redo id => exact ht.pinned .redo rfl
  | completeSave id expected diskRevision => exact ht.completed expected diskRevision
  | select id =>
    simp only [EditorOp.run, select, wp_bind, wp_get, wp_discard, wp_okOr, wp_modify]
    exact ⟨fun d hd => .acted rfl (ht.acted (.inr ⟨rfl, mem_ids hd⟩) (.inl rfl)), fun _ => .stays⟩
  | pinDocument id =>
    exact wp_pin.mpr
      ⟨fun _ _ => .acted rfl (ht.acted (.inl rfl) unpinned_preview), fun _ => .stays⟩
  | markRecovered id => exact ht.pinned .markRecovered rfl
  | observeDiskChange id expected diskRevision text =>
    exact ht.observed expected diskRevision text
  | observeMissing id expected => exact ht.pinned (.observeMissing expected) rfl
  | reloadFromDisk id => exact ht.pinned .reloadFromDisk rfl
  | keepEditing id => exact ht.pinned .keepEditing rfl
  | restoreRecovery id text => exact ht.pinned (.restoreRecovery text) rfl
  | requestClose id =>
    simp only [EditorOp.run, requestClose, wp_bind, wp_get, wp_discard, wp_okOr, wp_ite,
      wp_modify, wp_pure]
    exact ⟨fun _ _ => ⟨fun _ => .stays, fun _ => .closed rfl⟩, fun _ => .stays⟩
  | resolveClose id decision =>
    simp only [EditorOp.run, resolveClose, wp_bind, wp_get, wp_discard, wp_okOr]
    refine ⟨fun _ _ => ?_, fun _ => .stays⟩
    cases decision with
    | save => exact .stays
    | cancel => exact .stays
    | discard => exact .closed rfl
  | elsewhere => exact .counted rfl

/-! ## What it keeps -/

theorem Acted.tabSet (h : w.Acted id w') (ht : w.TabSet) : w'.TabSet where
  ids := h.ids ▸ ht.ids
  paths := h.paths ▸ ht.paths
  active_open i hi := by
    rw [h.ids]
    rcases h.active with ha | ⟨ha, hid⟩
    · exact ht.active_open i (ha ▸ hi)
    · obtain rfl := Option.some.inj (ha.symm.trans hi)
      exact hid
  active_none := by
    have hnil : w'.documents = [] ↔ w.documents = [] := by
      rw [← List.map_eq_nil_iff (f := (·.id)), h.ids, List.map_eq_nil_iff]
    rw [hnil]
    rcases h.active with ha | ⟨ha, hid⟩
    · rw [ha]
      exact ht.active_none
    · rw [ha]
      refine ⟨fun h => (by cases h), fun hempty => ?_⟩
      rw [hempty] at hid
      cases hid
  preview_open i hi := by
    rw [h.ids]
    rcases h.preview with hp | ⟨-, hp⟩
    · exact ht.preview_open i (hp ▸ hi)
    · rw [hp] at hi
      cases hi

theorem Acted.replaceable_all (h : w.Acted id w') (ht : w.Tidy) (i : DocumentId) (d : Document)
    (hp : w'.preview = some i) (hd : w'.document i = some d) : d.isRecoverable = false := by
  by_cases hi : i = id
  · subst hi
    exact h.replaceable hp d hd
  · rw [h.others i hi] at hd
    rcases h.preview with hp' | ⟨-, hp'⟩
    · exact ht.replaceable i d (hp' ▸ hp) hd
    · rw [hp'] at hp
      cases hp

/-- The active document after the one at `index` has gone. -/
theorem next_active (ds : List Document) (index : Nat) (hindex : index ≤ ds.length) :
    (∀ i, (ds[index - 1]? <|> ds[index]?).map (·.id) = some i → i ∈ ds.map (·.id)) ∧
      ((ds[index - 1]? <|> ds[index]?).map (·.id) = none ↔ ds = []) := by
  rw [Option.orElse_eq_orElse, Option.orElse_eq_or]
  constructor
  · intro i hi
    obtain ⟨d, hd, rfl⟩ := Option.map_eq_some_iff.mp hi
    refine List.mem_map_of_mem ?_
    rcases Option.or_eq_some_iff.mp hd with hd | ⟨-, hd⟩
    · exact List.mem_of_getElem? hd
    · exact List.mem_of_getElem? hd
  · rw [Option.map_eq_none_iff, Option.or_eq_none_iff, List.getElem?_eq_none_iff,
      List.getElem?_eq_none_iff, ← List.length_eq_zero_iff]
    omega

theorem remove_none (hindex : w.documents.findIdx? (·.id = id) = none) : w.remove id = w := by
  unfold remove
  rw [hindex]

theorem remove_some {index : Nat} (hindex : w.documents.findIdx? (·.id = id) = some index) :
    w.remove id =
      { w with
        documents := w.documents.eraseIdx index
        preview := unpinned id w.preview
        active :=
          if w.active = some id then
            ((w.documents.eraseIdx index)[index - 1]? <|>
              (w.documents.eraseIdx index)[index]?).map (·.id)
          else w.active } := by
  unfold remove
  rw [hindex]
  rfl

/-- The documents that do not go stay open. -/
theorem mem_ids_eraseIdx {ds : List Document} {index : Nat} {i : DocumentId}
    (hindex : ds.findIdx? (·.id = id) = some index) (hne : i ≠ id)
    (hi : i ∈ ds.map (·.id)) : i ∈ (ds.eraseIdx index).map (·.id) := by
  obtain ⟨d, hd, rfl⟩ := List.mem_map.mp hi
  have hsome : (ds.find? (·.id = d.id)).isSome := by
    rw [List.find?_isSome]
    exact ⟨d, hd, by simp⟩
  rw [← find?_eraseIdx_other hindex hne] at hsome
  obtain ⟨e, he⟩ := Option.isSome_iff_exists.mp hsome
  have hid : e.id = d.id := by simpa using List.find?_some he
  exact hid ▸ List.mem_map_of_mem (List.mem_of_find?_eq_some he)

theorem TabSet.remove (ht : w.TabSet) (id : DocumentId) : (w.remove id).TabSet := by
  cases hindex : w.documents.findIdx? (·.id = id) with
  | none =>
    rw [remove_none hindex]
    exact ht
  | some index =>
    have hsub : (w.documents.eraseIdx index).Sublist w.documents := List.eraseIdx_sublist _ _
    have hlt : index < w.documents.length := (List.findIdx?_eq_some_iff_findIdx_eq.mp hindex).1
    have hnext := next_active (w.documents.eraseIdx index) index (by
      rw [List.length_eraseIdx_of_lt hlt]
      omega)
    rw [remove_some hindex]
    refine ⟨(hsub.map _).nodup ht.ids, (hsub.map _).nodup ht.paths, fun i hi => ?_, ?_,
      fun i hi => ?_⟩
    · dsimp only at hi ⊢
      split at hi
      · exact hnext.1 i hi
      · rename_i hne
        exact mem_ids_eraseIdx hindex (fun h => hne (h ▸ hi)) (ht.active_open i hi)
    · dsimp only
      split
      · exact hnext.2
      · rename_i hne
        constructor
        · intro hnone
          rw [ht.active_none.mp hnone]
          rfl
        · intro hempty
          -- An active document that stays would be among those that are left.
          cases ha : w.active with
          | none => rfl
          | some i =>
            have hi := mem_ids_eraseIdx hindex (fun h => hne (h ▸ ha)) (ht.active_open i ha)
            rw [hempty] at hi
            cases hi
    · dsimp only [unpinned] at hi ⊢
      split at hi
      · cases hi
      · rename_i hne
        exact mem_ids_eraseIdx hindex (fun h => hne (h ▸ hi)) (ht.preview_open i hi)

theorem Tidy.remove_replaceable (ht : w.Tidy) (id i : DocumentId) (d : Document)
    (hp : (w.remove id).preview = some i) (hd : (w.remove id).document i = some d) :
    d.isRecoverable = false := by
  cases hindex : w.documents.findIdx? (·.id = id) with
  | none =>
    rw [remove_none hindex] at hp hd
    exact ht.replaceable i d hp hd
  | some index =>
    rw [remove_some hindex] at hp hd
    dsimp only [unpinned] at hp
    split at hp
    · cases hp
    · rename_i hne
      have hi : i ≠ id := fun h => hne (h ▸ hp)
      unfold document at hd
      rw [find?_eraseIdx_other hindex hi] at hd
      exact ht.replaceable i d hp hd

/-- The preview goes where the next one comes. -/
theorem Tidy.cleared (ht : w.Tidy) (hp : w.preview = some id) :
    w.clearReplaceablePreview = w.remove id := by
  obtain ⟨d, hd⟩ : ∃ d, w.document id = some d := by
    obtain ⟨d, hmem, hid⟩ := List.mem_map.mp (ht.tabSet.preview_open id hp)
    refine Option.isSome_iff_exists.mp ?_
    rw [document, List.find?_isSome]
    exact ⟨d, hmem, by simpa using hid⟩
  have hclean := ht.replaceable id d hp hd
  have hd' : ({ w with preview := none } : EditorWorkspace).document id = some d := hd
  unfold clearReplaceablePreview
  rw [hp]
  dsimp only
  rw [hd', Option.any_some, Document.isPreviewReplaceable, hclean, Bool.not_false, if_pos rfl]
  unfold remove
  dsimp only
  rw [hp]
  cases hindex : w.documents.findIdx? (·.id = id) with
  | none =>
    -- The preview is open.
    rw [List.findIdx?_eq_none_iff] at hindex
    exact absurd (hindex d (mem_of_document hd).1) (by simp [(mem_of_document hd).2])
  | some index => simp only [reduceCtorEq, if_false, if_true]

theorem remove_sublist (w : EditorWorkspace) (id : DocumentId) :
    (w.remove id).documents.Sublist w.documents := by
  cases hindex : w.documents.findIdx? (·.id = id) with
  | none => rw [remove_none hindex]
  | some index =>
    rw [remove_some hindex]
    exact List.eraseIdx_sublist _ _

theorem Tidy.base (ht : w.Tidy) (disposition : OpenDisposition) :
    (w.base disposition).TabSet ∧ (w.base disposition).documents.Sublist w.documents ∧
      (w.base disposition).nextDocumentId = w.nextDocumentId := by
  unfold EditorWorkspace.base
  split
  · refine ⟨?_, ?_, w.clearReplaceablePreview_next⟩
    · cases hp : w.preview with
      | none =>
        rw [clearReplaceablePreview, hp]
        exact ht.tabSet
      | some id =>
        rw [ht.cleared hp]
        exact ht.tabSet.remove id
    · cases hp : w.preview with
      | none => rw [clearReplaceablePreview, hp]
      | some id =>
        rw [ht.cleared hp]
        exact w.remove_sublist id
  · exact ⟨ht.tabSet, List.Sublist.refl _, rfl⟩

section Pushed

variable {path : RelativeDocumentPath} {text : String} {diskRevision : DiskRevision}
  {readOnly : Bool} {disposition : OpenDisposition}

theorem fresh_of_counted (hcounted : ∀ d ∈ w.documents, d.id.value < w.nextDocumentId) :
    ⟨w.nextDocumentId⟩ ∉ w.documents.map (·.id) := by
  intro h
  obtain ⟨d, hd, hid⟩ := List.mem_map.mp h
  have hlt := hcounted d hd
  rw [hid] at hlt
  exact absurd hlt (lt_irrefl _)

theorem ids_pushed : (pushed w path text diskRevision readOnly disposition).documents.map (·.id) =
    w.documents.map (·.id) ++ [⟨w.nextDocumentId⟩] := by
  rw [pushed, List.map_append]
  rfl

theorem TabSet.pushed (ht : w.TabSet)
    (hcounted : ∀ d ∈ w.documents, d.id.value < w.nextDocumentId)
    (hnew : ∀ d ∈ w.documents, d.path ≠ path) :
    (pushed w path text diskRevision readOnly disposition).TabSet where
  ids := by
    rw [ids_pushed, List.nodup_append]
    refine ⟨ht.ids, List.nodup_singleton _, fun i hi j hj heq => ?_⟩
    rw [heq, List.mem_singleton.mp hj] at hi
    exact fresh_of_counted hcounted hi
  paths := by
    rw [EditorWorkspace.pushed, List.map_append, List.nodup_append]
    refine ⟨ht.paths, List.nodup_singleton _, fun i hi j hj heq => ?_⟩
    obtain ⟨d, hd, rfl⟩ := List.mem_map.mp hi
    exact hnew d hd (heq.trans (List.mem_singleton.mp hj))
  active_open i hi := by
    obtain rfl := Option.some.inj hi
    rw [ids_pushed]
    exact List.mem_append_right _ List.mem_cons_self
  active_none := by
    simp only [EditorWorkspace.pushed, reduceCtorEq, List.append_eq_nil_iff, List.cons_ne_nil,
      and_false]
  preview_open i hi := by
    rw [ids_pushed]
    refine List.mem_append_right _ ?_
    unfold EditorWorkspace.pushed at hi
    dsimp only at hi
    split at hi
    · cases hi
      exact List.mem_cons_self
    · cases hi

theorem pushed_replaceable (hcounted : ∀ d ∈ w.documents, d.id.value < w.nextDocumentId)
    (i : DocumentId)
    (hp : (pushed w path text diskRevision readOnly disposition).preview = some i)
    (hd : (pushed w path text diskRevision readOnly disposition).document i = some d) :
    d.isRecoverable = false := by
  unfold pushed document at hd
  unfold pushed at hp
  dsimp only at hp hd
  split at hp
  · cases hp
    have hnone : w.documents.find? (·.id = ⟨w.nextDocumentId⟩) = none :=
      List.find?_eq_none.mpr fun e he heq =>
        fresh_of_counted hcounted (List.mem_map.mpr ⟨e, he, by simpa using heq⟩)
    rw [List.find?_append, hnone, Option.none_or, List.find?_cons_of_pos (by simp [Document.new])]
      at hd
    cases hd
    rfl
  · cases hp

end Pushed

theorem Tidy.moved (ht : w.Tidy) (hs : w.Stepped op w') (hm : Moved w op w') : w'.Tidy := by
  refine ⟨hs.valid, ?_, ?_⟩
  · cases hm with
    | acted hn h => exact h.tabSet ht.tabSet
    | stays => exact ht.tabSet
    | closed hn => exact ht.tabSet.remove _
    | opened path text diskRevision readOnly disposition hop hnew =>
      obtain ⟨hbase, hsub, hnext⟩ := ht.base disposition
      refine hbase.pushed (fun d hd => ?_) fun d hd => ?_
      · rw [hnext]
        exact ht.valid.counted d (hsub.mem hd)
      · simpa using List.find?_eq_none.mp hnew d (hsub.mem hd)
    | counted hop => exact ⟨ht.tabSet.ids, ht.tabSet.paths, ht.tabSet.active_open,
        ht.tabSet.active_none, ht.tabSet.preview_open⟩
  · intro i d hp hd
    cases hm with
    | acted hn h => exact h.replaceable_all ht i d hp hd
    | stays => exact ht.replaceable i d hp hd
    | closed hn => exact ht.remove_replaceable _ i d hp hd
    | opened path text diskRevision readOnly disposition hop hnew =>
      obtain ⟨-, hsub, hnext⟩ := ht.base disposition
      refine pushed_replaceable (fun e he => ?_) i hp hd
      rw [hnext]
      exact ht.valid.counted e (hsub.mem he)
    | counted hop => exact ht.replaceable i d hp hd

theorem Tidy.step (ht : w.Tidy) (hs : w.step op = some w') : w'.Tidy ∧ Moved w op w' := by
  have hmoved : Moved w op w' := by
    obtain ⟨⟨r, w''⟩, hx, rfl⟩ := Option.map_eq_some_iff.mp hs
    exact (ht.run op).state hx
  exact ⟨ht.moved (ht.valid.step hs) hmoved, hmoved⟩

theorem tidy_new (n : Nat) : (new n).Tidy where
  valid := valid_new n
  tabSet :=
    { ids := List.nodup_nil
      paths := List.nodup_nil
      active_open := fun _ h => by cases h
      active_none := Iff.intro (fun _ => rfl) fun _ => rfl
      preview_open := fun _ h => by cases h }
  replaceable _ _ h := by cases h

/-! ## The law -/

theorem unpinned_iff {i : DocumentId} (hne : i ≠ id) {preview : Option DocumentId} :
    unpinned i preview = some id ↔ preview = some id := by
  unfold unpinned
  split
  · rename_i hp
    rw [hp]
    exact ⟨fun h => (by cases h), fun h => absurd (Option.some.inj h) hne⟩
  · exact Iff.rfl

theorem remove_preview {i : DocumentId} (hne : i ≠ id) :
    (w.remove i).preview = some id ↔ w.preview = some id := by
  cases hindex : w.documents.findIdx? (·.id = i) with
  | none => rw [remove_none hindex]
  | some index =>
    rw [remove_some hindex]
    exact unpinned_iff hne

theorem TabSet.not_mem_remove (ht : w.TabSet) : id ∉ (w.remove id).documents.map (·.id) := by
  intro h
  obtain ⟨d, hd, hid⟩ := List.mem_map.mp h
  cases hindex : w.documents.findIdx? (·.id = id) with
  | none =>
    rw [remove_none hindex] at hd
    exact absurd (List.findIdx?_eq_none_iff.mp hindex d hd) (by simp [hid])
  | some index =>
    rw [remove_some hindex] at hd
    exact absurd (List.find?_eq_none.mp (find?_eraseIdx_self ht.ids hindex) d hd) (by simp [hid])

/-- The tab of a document that stays, and is not named, stays the preview or not. -/
theorem Moved.spares (ht : w.Tidy) (hm : Moved w op w') (hop : ¬w.Unpreviews op)
    (hid : id ∈ w.documents.map (·.id)) (hid' : id ∈ w'.documents.map (·.id))
    (hn : op.names w ≠ some id) : w'.preview = some id ↔ w.preview = some id := by
  cases hm with
  | acted hn' h =>
    rcases h.preview with hp | ⟨hp, hp'⟩
    · rw [hp]
    · rw [hp, hp']
      exact ⟨fun h => (by cases h), fun h => absurd (hn'.trans h) hn⟩
  | stays => exact Iff.rfl
  | closed hn' => exact remove_preview fun h => hn (hn'.trans (congrArg some h))
  | opened path text diskRevision readOnly disposition hop' hnew =>
    have hfresh : id ≠ ⟨w.nextDocumentId⟩ := fun h => fresh_of_counted ht.valid.counted (h ▸ hid)
    rw [ids_pushed, (ht.base disposition).2.2] at hid'
    have hbase : id ∈ (w.base disposition).documents.map (·.id) :=
      (List.mem_append.mp hid').resolve_right fun h => hfresh (List.mem_singleton.mp h)
    cases disposition with
    | preview =>
      constructor
      · intro hp
        have hnext : (⟨(w.base .preview).nextDocumentId⟩ : DocumentId) = id := Option.some.inj hp
        rw [(ht.base .preview).2.2] at hnext
        exact absurd hnext.symm hfresh
      · intro hp
        -- The preview has gone, so it is none of the tabs that stay.
        have hcleared : w.base .preview = w.remove id := ht.cleared hp
        rw [hcleared] at hbase
        exact absurd hbase ht.tabSet.not_mem_remove
    | pinned =>
      have hp : w.preview = none := by
        by_contra hp
        exact hop (hop' ▸ ⟨rfl, hnew, hp⟩)
      rw [hp]
      exact ⟨fun h => (by cases h), fun h => (by cases h)⟩
  | counted hop' => exact Iff.rfl

/-- A document that is opened pinned leaves no preview. -/
theorem step_unpreviews (hop : w.Unpreviews op) : ∃ w', w.step op = some w' ∧
    w'.preview = none ∧ op.names w = none ∧ ∀ d ∈ w.documents, d ∈ w'.documents := by
  cases op with
  | openDocument path text diskRevision readOnly disposition =>
    obtain ⟨rfl, hnew, -⟩ := hop
    have hrun : wp (EditorOp.openDocument path text diskRevision readOnly .pinned).run
        (fun _ w' => w' = w.pushed path text diskRevision readOnly .pinned) (fun _ _ => False)
        False w := by
      simp only [EditorOp.run, openDocument, wp_discard, wp_bind, wp_get, hnew, Option.map_none,
        wp_modify, wp_pure, reduceCtorEq, if_false]
      rfl
    obtain ⟨r, w', hx⟩ := hrun.ends
    have hw' := (wp_mono hrun (fun _ _ h => h) (fun _ _ h => h.elim) id).state hx
    refine ⟨w', by rw [step, hx]; rfl, by rw [hw']; rfl, by rw [EditorOp.names, hnew]; rfl,
      fun d hd => ?_⟩
    rw [hw', pushed]
    exact List.mem_append_left _ hd
  | edit | undo | redo | completeSave | select | pinDocument | markRecovered | observeDiskChange
  | observeMissing | reloadFromDisk | keepEditing | restoreRecovery | requestClose | resolveClose
  | elsewhere => exact hop.elim

theorem Tidy.spares_iff (ht : w.Tidy) : w.SparesTabs op ↔ ¬w.Unpreviews op := by
  constructor
  · intro hspares hop
    obtain ⟨w', hs, hp', hn, hsub⟩ := step_unpreviews hop
    have hp : w.preview ≠ none := by
      cases op with
      | openDocument path text diskRevision readOnly disposition => exact hop.2.2
      | edit | undo | redo | completeSave | select | pinDocument | markRecovered
      | observeDiskChange | observeMissing | reloadFromDisk | keepEditing | restoreRecovery
      | requestClose | resolveClose | elsewhere => exact hop.elim
    obtain ⟨id, hid⟩ := Option.ne_none_iff_exists'.mp hp
    obtain ⟨d, hd, rfl⟩ := List.mem_map.mp (ht.tabSet.preview_open id hid)
    obtain ⟨t, hmem, htid⟩ := tab_of_id (List.mem_map_of_mem hd)
    obtain ⟨t', hmem', htid'⟩ := tab_of_id (List.mem_map_of_mem (hsub d hd))
    have heq := hspares w' hs t hmem t' hmem' (htid'.trans htid.symm) (by rw [hn]; rintro ⟨⟩)
    -- The preview was not shown as pinned, and now it is.
    rw [(mem_tabs hmem).2, (mem_tabs hmem').2, htid, htid', hid, hp'] at heq
    simp at heq
  · intro hop w' hs t hmem t' hmem' hid hn
    obtain ⟨htid, htp⟩ := mem_tabs hmem
    obtain ⟨htid', htp'⟩ := mem_tabs hmem'
    rw [hid] at htid' htp'
    have hpreview := (ht.step hs).2.spares ht hop htid htid' hn
    rw [htp, htp', decide_eq_decide]
    exact not_congr hpreview

/-- Every workspace is a tab set, and its operations spare the other tabs exactly where no other
path is opened pinned beside a preview. -/
theorem tab_law (n : Nat) (ops : List EditorOp) :
    (∀ w, ops.foldlM step (new n) = some w → w.TabSet) ∧
      (Along step SparesTabs ops (new n) ↔ Along step (fun w op => ¬w.Unpreviews op) ops (new n)) := by
  refine ⟨fun w hr => ?_, ?_⟩
  · have htidy : w.Tidy := foldlM_keeps (tidy_new n) (fun _ _ _ _ ht hs => (ht.step hs).1) hr
    exact htidy.tabSet
  · exact along_iff (tidy_new n) (fun _ _ ht => ht.spares_iff) fun _ _ _ ht _ hs => (ht.step hs).1

/-- A preview is shown as pinned once another path is opened pinned. -/
theorem preview_unpreviewed : ¬Along step SparesTabs
    [.openDocument ⟨"a"⟩ "one" ⟨"1"⟩ false .preview, .openDocument ⟨"b"⟩ "two" ⟨"2"⟩ false .pinned]
    (new 0) := by
  decide

end EditorWorkspace
end Strukt
