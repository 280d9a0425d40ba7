import Strukt.Editor.Tabs
import Strukt.Lib.Runs

/-!
# What an operation of a workspace does to each document

`Fate` is what can become of one document in a step: it stays, an operation is called on it, it is
closed, or it is opened. `run_fate` derives it from the operations, so that a law about documents
is a case analysis of fates.

* **Valid** workspaces have documents with different identifiers, all counted already. An
  identifier does not come back.
-/

namespace Strukt

open Method EditTransaction

/-- What the application calls. -/
inductive EditorOp where
  | openDocument (path : RelativeDocumentPath) (text : String) (diskRevision : DiskRevision)
      (readOnly : Bool) (disposition : OpenDisposition)
  | edit (id : DocumentId) (expected : Revision) (replacements : List Replacement)
      (kind : EditKind) (cursorBefore cursorAfter : Nat)
  | undo (id : DocumentId)
  | redo (id : DocumentId)
  | completeSave (id : DocumentId) (expected : Revision) (diskRevision : DiskRevision)
  | select (id : DocumentId)
  | pinDocument (id : DocumentId)
  | markRecovered (id : DocumentId)
  | observeDiskChange (id : DocumentId) (expected : Revision) (diskRevision : DiskRevision)
      (text : String)
  | observeMissing (id : DocumentId) (expected : Revision)
  | reloadFromDisk (id : DocumentId)
  | keepEditing (id : DocumentId)
  | restoreRecovery (id : DocumentId) (text : String)
  | requestClose (id : DocumentId)
  | resolveClose (id : DocumentId) (decision : CloseDecision)
  /-- Another workspace of the process opens a document. -/
  | elsewhere
  deriving DecidableEq

namespace EditorOp

def run : EditorOp → EditorM Unit
  | .openDocument path text diskRevision readOnly disposition =>
    discard (EditorWorkspace.openDocument path text diskRevision readOnly disposition)
  | .edit id expected replacements kind cursorBefore cursorAfter => do
    let transaction ← ofExcept ((EditTransaction.new expected replacements).mapError
      fun e => EditorWorkspaceError.document (.transaction e))
    EditorWorkspace.edit id transaction kind cursorBefore cursorAfter
  | .undo id => EditorWorkspace.undo id
  | .redo id => EditorWorkspace.redo id
  | .completeSave id expected diskRevision => EditorWorkspace.completeSave id expected diskRevision
  | .select id => EditorWorkspace.select id
  | .pinDocument id => EditorWorkspace.pinDocument id
  | .markRecovered id => EditorWorkspace.markRecovered id
  | .observeDiskChange id expected diskRevision text =>
    EditorWorkspace.observeDiskChange id expected diskRevision text
  | .observeMissing id expected => EditorWorkspace.observeMissing id expected
  | .reloadFromDisk id => EditorWorkspace.reloadFromDisk id
  | .keepEditing id => EditorWorkspace.keepEditing id
  | .restoreRecovery id text => EditorWorkspace.restoreRecovery id text
  | .requestClose id => discard (EditorWorkspace.requestClose id)
  | .resolveClose id decision => discard (EditorWorkspace.resolveClose id decision)
  | .elsewhere => modify fun w => { w with nextDocumentId := w.nextDocumentId + 1 }

/-- The document that the operation calls a method of, and the method. -/
def target (w : EditorWorkspace) : EditorOp → Option (DocumentId × DocumentOp)
  | .openDocument path text diskRevision readOnly _ =>
    if readOnly then none
    else (w.documents.find? (·.path = path)).map fun d => (d.id, .upgradeReadOnly text diskRevision)
  | .edit id expected replacements kind cursorBefore cursorAfter =>
    some (id, .edit expected replacements kind cursorBefore cursorAfter)
  | .undo id => some (id, .undo)
  | .redo id => some (id, .redo)
  | .completeSave id expected diskRevision => some (id, .completeSave expected diskRevision)
  | .markRecovered id => some (id, .markRecovered)
  | .observeDiskChange id expected diskRevision text =>
    some (id, .observeDiskChange expected diskRevision text)
  | .observeMissing id expected => some (id, .observeMissing expected)
  | .reloadFromDisk id => some (id, .reloadFromDisk)
  | .keepEditing id => some (id, .keepEditing)
  | .restoreRecovery id text => some (id, .restoreRecovery text)
  | .select _ | .pinDocument _ | .requestClose _ | .resolveClose _ _ | .elsewhere => none

/-- A transaction that is accepted is the one that the document edits with. -/
theorem run_edit {expected : Revision} {replacements : List Replacement} {t : EditTransaction}
    {kind : EditKind} {cursorBefore cursorAfter : Nat}
    (ht : (EditTransaction.new expected replacements).mapError
      (fun e => EditorWorkspaceError.document (.transaction e)) = .ok t) :
    (DocumentOp.edit expected replacements kind cursorBefore cursorAfter).run =
      Document.edit t kind cursorBefore cursorAfter := by
  cases hx : EditTransaction.new expected replacements with
  | ok t' =>
    rw [hx] at ht
    cases ht
    simp only [DocumentOp.run, hx]
    rfl
  | error e => rw [hx] at ht; cases ht

end EditorOp

/-! ## Lists of documents -/

section Documents

variable {ds : List Document} {d d' : Document} {id i : DocumentId}

theorem map_id_replaceDocument (h : d'.id = id) :
    (replaceDocument id d' ds).map (·.id) = ds.map (·.id) := by
  induction ds with
  | nil => rfl
  | cons d ds ih =>
    rw [replaceDocument]
    split
    · rw [List.map_cons, List.map_cons, h, ‹d.id = id›]
    · rw [List.map_cons, List.map_cons, ih]

theorem mem_replaceDocument (h : d ∈ replaceDocument id d' ds) : d = d' ∨ d ∈ ds := by
  induction ds with
  | nil => cases h
  | cons d₀ ds ih =>
    rw [replaceDocument] at h
    split at h
    · rcases List.mem_cons.mp h with rfl | h
      · exact .inl rfl
      · exact .inr (List.mem_cons_of_mem _ h)
    · rcases List.mem_cons.mp h with rfl | h
      · exact .inr List.mem_cons_self
      · exact (ih h).imp_right (List.mem_cons_of_mem _)

theorem find?_replaceDocument_self (h : d'.id = id) (hd : ds.find? (·.id = id) = some d) :
    (replaceDocument id d' ds).find? (·.id = id) = some d' := by
  induction ds with
  | nil => cases hd
  | cons d₀ ds ih =>
    rw [replaceDocument]
    split
    · rw [List.find?_cons_of_pos (by simpa using h)]
    · rename_i hne
      rw [List.find?_cons_of_neg (by simpa using hne)] at hd ⊢
      exact ih hd

theorem find?_replaceDocument_other (h : d'.id = id) (hne : i ≠ id) :
    (replaceDocument id d' ds).find? (·.id = i) = ds.find? (·.id = i) := by
  induction ds with
  | nil => rfl
  | cons d₀ ds ih =>
    rw [replaceDocument]
    split
    · rename_i hid
      rw [List.find?_cons_of_neg (by simpa [h] using hne.symm),
        List.find?_cons_of_neg (by simpa [hid] using hne.symm)]
    · rw [List.find?_cons, List.find?_cons, ih]

/-- Without the first document under `id`, there is none where no two have the same. -/
theorem find?_eraseIdx_self {index : Nat} (hnodup : (ds.map (·.id)).Nodup)
    (hindex : ds.findIdx? (·.id = id) = some index) :
    (ds.eraseIdx index).find? (·.id = id) = none := by
  induction ds generalizing index with
  | nil => cases hindex
  | cons d₀ ds ih =>
    rw [List.map_cons, List.nodup_cons] at hnodup
    rw [List.findIdx?_cons] at hindex
    split at hindex
    · cases hindex
      rw [List.eraseIdx_cons_zero, List.find?_eq_none]
      intro d hd hid
      have h₀ : d₀.id = id := by simpa using ‹decide (d₀.id = id) = true›
      have hd' : d.id = id := by simpa using hid
      exact hnodup.1 (h₀ ▸ hd' ▸ List.mem_map_of_mem hd)
    · obtain ⟨j, hj, rfl⟩ := Option.map_eq_some_iff.mp hindex
      have h₀ : d₀.id ≠ id := by simpa using ‹¬decide (d₀.id = id) = true›
      rw [List.eraseIdx_cons_succ, List.find?_cons_of_neg (by simpa using h₀)]
      exact ih hnodup.2 hj

theorem find?_eraseIdx_other {index : Nat} (hindex : ds.findIdx? (·.id = id) = some index)
    (hne : i ≠ id) : (ds.eraseIdx index).find? (·.id = i) = ds.find? (·.id = i) := by
  induction ds generalizing index with
  | nil => cases hindex
  | cons d₀ ds ih =>
    rw [List.findIdx?_cons] at hindex
    split at hindex
    · cases hindex
      have h₀ : d₀.id = id := by simpa using ‹decide (d₀.id = id) = true›
      rw [List.eraseIdx_cons_zero, List.find?_cons_of_neg (by simpa [h₀] using hne.symm)]
    · obtain ⟨j, hj, rfl⟩ := Option.map_eq_some_iff.mp hindex
      rw [List.eraseIdx_cons_succ, List.find?_cons, List.find?_cons, ih hj]

end Documents

/-! ## Fates -/

structure EditorWorkspace.Valid (w : EditorWorkspace) : Prop where
  nodup : (w.documents.map (·.id)).Nodup
  counted : ∀ d ∈ w.documents, d.id.value < w.nextDocumentId
  apart : ∀ d ∈ w.documents, d.history.Apart

/-- What is under an identifier before and after a step. -/
inductive Fate (w : EditorWorkspace) (op : EditorOp) (id : DocumentId) :
    Option Document → Option Document → Prop where
  | stays (o : Option Document) : Fate w op id o o
  | done {dop : DocumentOp} {d d' : Document} (ht : op.target w = some (id, dop))
      (he : dop.Effect d d') : Fate w op id (some d) (some d')
  | refused {dop : DocumentOp} {d d' : Document} (ht : op.target w = some (id, dop))
      (hr : dop.Refused d d') : Fate w op id (some d) (some d')
  | closed {d : Document} (h : op = .resolveClose id .discard ∨ d.isRecoverable = false) :
      Fate w op id (some d) none
  | opened (path : RelativeDocumentPath) (text : String) (diskRevision : DiskRevision)
      (readOnly : Bool) (h : id.value = w.nextDocumentId) :
      Fate w op id none (some (.new id path text diskRevision readOnly))

/-- A step from `w` to `w'` by the operation. -/
structure EditorWorkspace.Stepped (w : EditorWorkspace) (op : EditorOp) (w' : EditorWorkspace) :
    Prop where
  valid : w'.Valid
  counted : w.nextDocumentId ≤ w'.nextDocumentId
  fates : ∀ id, Fate w op id (w.document id) (w'.document id)

namespace EditorWorkspace

variable {w w' w'' : EditorWorkspace} {op : EditorOp} {dop : DocumentOp} {id : DocumentId}
  {d d' : Document}

theorem valid_new (n : Nat) : (new n).Valid := ⟨List.nodup_nil, nofun, nofun⟩

theorem mem_of_document (h : w.document id = some d) : d ∈ w.documents ∧ d.id = id :=
  ⟨List.mem_of_find?_eq_some h, by simpa using List.find?_some h⟩

/-- The active document and the preview do not matter. -/
theorem Stepped.congr (h : w.Stepped op w') (hd : w''.documents = w'.documents)
    (hn : w''.nextDocumentId = w'.nextDocumentId) : w.Stepped op w'' where
  valid := ⟨hd ▸ h.valid.nodup, hd ▸ hn ▸ h.valid.counted, hd ▸ h.valid.apart⟩
  counted := hn ▸ h.counted
  fates id := by
    unfold document
    rw [hd]
    exact h.fates id

theorem Valid.stepped (hv : w.Valid) : w.Stepped op w := ⟨hv, le_rfl, fun _ => .stays _⟩

theorem effect_id (h : dop.Effect d d') : d'.id = d.id := by
  cases dop with
  | upgradeReadOnly text diskRevision =>
    subst h
    split <;> rfl
  | edit expected replacements kind cursorBefore cursorAfter =>
    obtain ⟨-, t, a, b', -, -, -, rfl⟩ := h
    rw [Document.refreshed_id]
  | undo | redo =>
    obtain ⟨t, h', a, b', -, -, rfl⟩ := h
    rw [Document.refreshed_id]
  | completeSave expected diskRevision =>
    obtain ⟨-, rfl⟩ := h
    rfl
  | observeDiskChange expected diskRevision diskText =>
    obtain ⟨-, h⟩ := h
    split at h
    · obtain ⟨a, b', -, rfl⟩ := h
      rfl
    · subst h
      rfl
  | observeMissing expected =>
    obtain ⟨-, rfl⟩ := h
    rfl
  | reloadFromDisk =>
    obtain ⟨diskRevision, diskText, -, a, b', -, rfl⟩ := h
    rfl
  | keepEditing =>
    obtain ⟨-, rfl⟩ := h
    rfl
  | markRecovered =>
    subst h
    rfl
  | restoreRecovery text =>
    simp only [DocumentOp.Effect] at h
    split at h
    · subst h
      rfl
    · obtain ⟨a, b', -, rfl⟩ := h
      rfl

/-- One document is replaced by what an operation leaves of it. -/
theorem Valid.acted (hv : w.Valid) (ht : op.target w = some (id, dop))
    (hd : w.document id = some d) (h : dop.Effect d d' ∨ dop.Refused d d') :
    w.Stepped op { w with documents := replaceDocument id d' w.documents } := by
  obtain ⟨hmem, rfl⟩ := mem_of_document hd
  have hid : d'.id = d.id := by
    rcases h with he | hr
    · exact effect_id he
    · obtain ⟨h', rfl⟩ := Document.refused_eq hr
      rfl
  have hapart : d'.history.Apart := by
    rcases h with he | hr
    · exact Document.apart_of_effect (hv.apart d hmem) he
    · exact Document.apart_of_refused (hv.apart d hmem) hr
  refine ⟨⟨?_, fun e he => ?_, fun e he => ?_⟩, le_rfl, fun i => ?_⟩
  · dsimp only
    rw [map_id_replaceDocument hid]
    exact hv.nodup
  · rcases mem_replaceDocument he with rfl | he
    · exact hid ▸ hv.counted d hmem
    · exact hv.counted e he
  · rcases mem_replaceDocument he with rfl | he
    · exact hapart
    · exact hv.apart e he
  · by_cases hi : i = d.id
    · subst hi
      unfold document at hd ⊢
      rw [hd, find?_replaceDocument_self hid hd]
      rcases h with he | hr
      · exact .done ht he
      · exact .refused ht hr
    · unfold document
      rw [find?_replaceDocument_other hid hi]
      exact .stays _

/-- A document is closed. -/
theorem Valid.removed (hv : w.Valid)
    (h : ∀ d, w.document id = some d →
      op = .resolveClose id .discard ∨ d.isRecoverable = false) :
    w.Stepped op (w.remove id) := by
  unfold remove
  cases hx : w.documents.findIdx? (·.id = id) with
  | none => exact hv.stepped
  | some index =>
    have hsub : (w.documents.eraseIdx index).Sublist w.documents :=
      List.eraseIdx_sublist _ _
    refine ⟨⟨(hsub.map _).nodup hv.nodup, fun e he => hv.counted e (hsub.mem he),
      fun e he => hv.apart e (hsub.mem he)⟩, le_rfl, fun i => ?_⟩
    unfold document at h ⊢
    dsimp only
    by_cases hi : i = id
    · subst hi
      rw [find?_eraseIdx_self hv.nodup hx]
      cases hd : w.documents.find? (·.id = i) with
      | none => exact .stays _
      | some d => exact .closed (h d hd)
    · rw [find?_eraseIdx_other hx hi]
      exact .stays _

theorem Valid.cleared (hv : w.Valid) : w.Stepped op w.clearReplaceablePreview := by
  unfold clearReplaceablePreview
  cases hp : w.preview with
  | none => exact hv.stepped
  | some id =>
    dsimp only
    split
    · rename_i hany
      have hremoved : w.Stepped op (w.remove id) := by
        refine hv.removed fun d hd => .inr ?_
        unfold document at hany hd
        rw [hd] at hany
        simpa [Document.isPreviewReplaceable] using hany
      unfold remove at hremoved ⊢
      dsimp only at hremoved ⊢
      cases hx : w.documents.findIdx? (·.id = id) with
      | none => exact hv.stepped.congr rfl rfl
      | some index =>
        rw [hx] at hremoved
        exact hremoved.congr rfl rfl
    · exact hv.stepped.congr rfl rfl

theorem clearReplaceablePreview_next (w : EditorWorkspace) :
    w.clearReplaceablePreview.nextDocumentId = w.nextDocumentId := by
  unfold clearReplaceablePreview remove
  split
  · rfl
  · dsimp only
    split
    · split <;> rfl
    · rfl

/-- A document is opened behind the others, after the preview has gone or not. -/
theorem Stepped.pushed (h : w.Stepped op w') (hv : w.Valid)
    (hn : w'.nextDocumentId = w.nextDocumentId) (path : RelativeDocumentPath) (text : String)
    (diskRevision : DiskRevision) (readOnly : Bool) {active preview : Option DocumentId} :
    w.Stepped op
      { documents := w'.documents ++
          [.new ⟨w'.nextDocumentId⟩ path text diskRevision readOnly]
        active := active
        preview := preview
        nextDocumentId := w'.nextDocumentId + 1 } := by
  have hfresh : ∀ d ∈ w'.documents, d.id ≠ ⟨w'.nextDocumentId⟩ := fun d hd heq => by
    have := h.valid.counted d hd
    rw [heq] at this
    exact absurd this (lt_irrefl _)
  refine ⟨⟨?_, fun d hd => ?_, fun d hd => ?_⟩, h.counted.trans (Nat.le_succ _), fun id => ?_⟩
  · rw [List.map_append, List.nodup_append]
    refine ⟨h.valid.nodup, List.nodup_singleton _, fun i hi j hj heq => ?_⟩
    obtain ⟨d, hd, rfl⟩ := List.mem_map.mp hi
    exact hfresh d hd (heq.trans (List.mem_singleton.mp hj))
  · rcases List.mem_append.mp hd with hd | hd
    · exact (h.valid.counted d hd).trans (Nat.lt_succ_self _)
    · rw [List.mem_singleton.mp hd]
      exact Nat.lt_succ_self _
  · rcases List.mem_append.mp hd with hd | hd
    · exact h.valid.apart d hd
    · rw [List.mem_singleton.mp hd]
      exact History.apart_standard
  · have hfate := h.fates id
    unfold document at hfate ⊢
    dsimp only
    rw [List.find?_append]
    by_cases hid : id = ⟨w'.nextDocumentId⟩
    · subst hid
      have hnone : w'.documents.find? (·.id = ⟨w'.nextDocumentId⟩) = none :=
        List.find?_eq_none.mpr fun d hd heq => hfresh d hd (by simpa using heq)
      have hnone' : w.documents.find? (·.id = ⟨w'.nextDocumentId⟩) = none :=
        List.find?_eq_none.mpr fun d hd heq => by
          have := hv.counted d hd
          rw [show d.id = ⟨w'.nextDocumentId⟩ by simpa using heq, hn] at this
          exact absurd this (lt_irrefl _)
      rw [hnone, hnone', Option.none_or, List.find?_cons_of_pos (by simp [Document.new])]
      exact .opened path text diskRevision readOnly hn
    · rw [List.find?_cons_of_neg (by
        rw [decide_eq_true_eq]
        exact Ne.symm hid), List.find?_nil,
        Option.or_none]
      exact hfate

/-! ## The operations -/

section Operations

variable {α : Type} {x : DocumentM α}

theorem wp_onDocument {Q : α → EditorWorkspace → Prop}
    {E : EditorWorkspaceError → EditorWorkspace → Prop} {P : Prop} :
    wp (onDocument id x) Q E P w ↔
      (∀ d, w.document id = some d → wp x
        (fun a d' => Q a { w with documents := replaceDocument id d' w.documents })
        (fun e d' => E (.document e) { w with documents := replaceDocument id d' w.documents })
        P d) ∧ (w.document id = none → E (.documentNotFound id) w) := by
  simp only [onDocument, wp_bind, wp_get, wp_okOr, wp_focus]

theorem Valid.onDocument (hv : w.Valid) (dop : DocumentOp) (ht : op.target w = some (id, dop)) :
    wp (onDocument id dop.run) (fun _ => w.Stepped op) (fun _ => w.Stepped op) True w := by
  rw [wp_onDocument]
  refine ⟨fun d hd => ?_, fun _ => hv.stepped⟩
  have hapart := hv.apart d (mem_of_document hd).1
  exact wp_mono (d.run_spec hapart dop) (fun _ _ he => hv.acted ht hd (.inl he))
    (fun _ _ hr => hv.acted ht hd (.inr hr)) fun _ => trivial

theorem Stepped.pin (h : w.Stepped op w') :
    wp (pin id) (fun _ => w.Stepped op) (fun _ => w.Stepped op) True w' := by
  simp only [EditorWorkspace.pin, wp_bind, wp_get, wp_discard, wp_okOr, wp_modify]
  exact ⟨fun _ _ => h.congr rfl rfl, fun _ => h⟩

/-- A method of a document, then its tab is pinned. -/
theorem Valid.pinned (hv : w.Valid) (dop : DocumentOp) (ht : op.target w = some (id, dop)) :
    wp (do EditorWorkspace.onDocument id dop.run; EditorWorkspace.pin id)
      (fun _ => w.Stepped op) (fun _ => w.Stepped op) True w := by
  rw [wp_bind]
  exact wp_mono (hv.onDocument dop ht) (fun _ _ h => h.pin) (fun _ _ h => h) fun _ => trivial

theorem Valid.openDocument (hv : w.Valid) (path : RelativeDocumentPath) (text : String)
    (diskRevision : DiskRevision) (readOnly : Bool) (disposition : OpenDisposition) :
    wp (EditorWorkspace.openDocument path text diskRevision readOnly disposition)
      (fun _ => w.Stepped (.openDocument path text diskRevision readOnly disposition))
      (fun _ => w.Stepped (.openDocument path text diskRevision readOnly disposition)) True w := by
  simp only [EditorWorkspace.openDocument, wp_bind, wp_get]
  cases hd : w.documents.find? (·.path = path) with
  | some d =>
    simp only [Option.map_some, wp_bind, wp_ite, wp_modify, wp_pure]
    refine ⟨fun hro => ?_, fun _ => ⟨fun _ => Stepped.pin ?_, fun _ => ?_⟩⟩
    · have ht : EditorOp.target w (.openDocument path text diskRevision readOnly disposition) =
          some (d.id, .upgradeReadOnly text diskRevision) := by
        simp only [EditorOp.target, hro, hd, Bool.false_eq_true, if_false, Option.map_some]
      have hupgraded := hv.onDocument _ ht
      rw [DocumentOp.run] at hupgraded
      refine wp_mono hupgraded (fun _ w' h => ?_) (fun _ _ h => h) fun _ => trivial
      exact ⟨fun _ => Stepped.pin (h.congr rfl rfl), fun _ => h.congr rfl rfl⟩
    · exact hv.stepped.congr rfl rfl
    · exact hv.stepped.congr rfl rfl
  | none =>
    simp only [Option.map_none, wp_bind, wp_ite, wp_modify, wp_get, wp_pure]
    exact ⟨fun _ => hv.cleared.pushed hv w.clearReplaceablePreview_next path text diskRevision
      readOnly, fun _ => hv.stepped.pushed hv rfl path text diskRevision readOnly⟩

/-- Every outcome of an operation is a step. -/
theorem Valid.run (hv : w.Valid) (op : EditorOp) :
    wp op.run (fun _ => w.Stepped op) (fun _ => w.Stepped op) True w := by
  cases op with
  | openDocument path text diskRevision readOnly disposition =>
    simp only [EditorOp.run, wp_discard]
    exact hv.openDocument path text diskRevision readOnly disposition
  | edit id expected replacements kind cursorBefore cursorAfter =>
    simp only [EditorOp.run, wp_bind, wp_ofExcept]
    refine ⟨fun t ht => ?_, fun _ _ => hv.stepped⟩
    have htarget : (EditorOp.edit id expected replacements kind cursorBefore cursorAfter).target w =
        some (id, .edit expected replacements kind cursorBefore cursorAfter) := rfl
    have hpinned := hv.pinned _ htarget
    rw [EditorOp.run_edit ht] at hpinned
    exact hpinned
  | undo id => exact hv.pinned .undo rfl
  | redo id => exact hv.pinned .redo rfl
  | completeSave id expected diskRevision =>
    exact hv.onDocument (.completeSave expected diskRevision) rfl
  | select id =>
    simp only [EditorOp.run, EditorWorkspace.select, wp_bind, wp_get, wp_discard, wp_okOr,
      wp_modify]
    exact ⟨fun _ _ => hv.stepped.congr rfl rfl, fun _ => hv.stepped⟩
  | pinDocument id => exact hv.stepped.pin
  | markRecovered id => exact hv.pinned .markRecovered rfl
  | observeDiskChange id expected diskRevision text =>
    simp only [EditorOp.run, EditorWorkspace.observeDiskChange, wp_bind, wp_get, wp_ite, wp_pure]
    refine wp_mono (hv.onDocument (.observeDiskChange expected diskRevision text) rfl)
      (fun _ w' h => ⟨fun _ => h.pin, fun _ => h⟩) (fun _ _ h => h) fun _ => trivial
  | observeMissing id expected => exact hv.pinned (.observeMissing expected) rfl
  | reloadFromDisk id => exact hv.pinned .reloadFromDisk rfl
  | keepEditing id => exact hv.pinned .keepEditing rfl
  | restoreRecovery id text => exact hv.pinned (.restoreRecovery text) rfl
  | requestClose id =>
    simp only [EditorOp.run, EditorWorkspace.requestClose, wp_bind, wp_get, wp_discard, wp_okOr,
      wp_ite, wp_modify, wp_pure]
    refine ⟨fun d hd => ⟨fun _ => hv.stepped, fun hrec => hv.removed fun d' hd' => .inr ?_⟩,
      fun _ => hv.stepped⟩
    obtain rfl := Option.some.inj (hd.symm.trans hd')
    exact Bool.eq_false_iff.mpr hrec
  | resolveClose id decision =>
    simp only [EditorOp.run, EditorWorkspace.resolveClose, wp_bind, wp_get, wp_discard, wp_okOr]
    refine ⟨fun d hd => ?_, fun _ => hv.stepped⟩
    cases decision with
    | save => exact hv.stepped
    | cancel => exact hv.stepped
    | discard => exact hv.removed fun _ _ => .inl rfl
  | elsewhere =>
    exact ⟨⟨hv.nodup, fun d hd => (hv.counted d hd).trans (Nat.lt_succ_self _), hv.apart⟩,
      Nat.le_succ _, fun _ => .stays _⟩

end Operations

/-- A workspace after an operation, whether it succeeded or not. -/
def step (w : EditorWorkspace) (op : EditorOp) : Option EditorWorkspace :=
  (op.run.exec w).map (·.2)

theorem Valid.step (hv : w.Valid) (hs : w.step op = some w') : w.Stepped op w' := by
  obtain ⟨⟨r, w''⟩, hx, rfl⟩ := Option.map_eq_some_iff.mp hs
  exact (hv.run op).state hx

end EditorWorkspace
end Strukt
