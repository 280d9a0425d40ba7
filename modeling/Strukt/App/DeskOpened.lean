import Strukt.App.DeskSpec

/-!
# What a document that is opened leaves, and that the editor stays valid

* **Openings** (`opening`): what `DocumentOpened` has the editor open, if anything: a text, or the
  placeholder of a restored tab that could not be read.
* **Views** (`opened_move`): the message never fails. The surface and the binding of the document
  are those that `Shown` states; the others are left as they are, also where a preview has gone.
* **Validity** (`update_valid`): every message keeps the editor valid.
-/

namespace Strukt.App

open Strukt.Fs Method

namespace EditorDesk

variable {env : DeskEnv} {s s' : EditorDesk} {u : DeskUpdate} {m : EditorMessage}
  {id i : DocumentId} {op : EditorOp} {dop : DocumentOp} {next : EditorDesk → DeskUpdate}

/-! ## Documents that are opened -/

/-- What a message has the editor open. -/
structure Opening where
  path : RelativeDocumentPath
  text : String
  diskRevision : DiskRevision
  readOnly : Bool
  disposition : OpenDisposition
  /-- A restored tab that could not be read. -/
  placeholder : Bool
  deriving DecidableEq

def opening (env : DeskEnv) (s : EditorDesk) : EditorMessage → Option Opening
  | .documentOpened workspaceRoot path disposition result =>
    if workspaceRoot ≠ s.workspaceRoot then none
    else
      match result with
      | .ok opened =>
        match opened.kind, opened.text with
        | .text readOnly _, some text =>
          (RelativeDocumentPath.new (env.pathString path)).map
            (⟨·, text, opened.diskRevision, readOnly, disposition, false⟩)
        | _, _ => none
      | .error _ =>
        match (s.restoreTabs.get? (env.pathString path)).bind (·.diskRevision) with
        | some baseline =>
          (RelativeDocumentPath.new (env.pathString path)).map
            (⟨·, "", ⟨baseline⟩, false, disposition, true⟩)
        | none => none
  | _ => none

/-- The same documents, surfaces and coordinator. -/
structure Alike (s s' : EditorDesk) : Prop where
  documents : s'.editor.documents = s.editor.documents
  counted : s'.editor.nextDocumentId = s.editor.nextDocumentId
  surfaces : s'.surfaces = s.surfaces
  language : s'.language = s.language

theorem Alike.trans {f : EditorDesk} (h : Alike s f) (h' : Alike f s') : Alike s s' :=
  ⟨h'.documents.trans h.documents, h'.counted.trans h.counted, h'.surfaces.trans h.surfaces,
    h'.language.trans h.language⟩

theorem Alike.valid (h : Alike s s') (hv : s.editor.Valid) : s'.editor.Valid :=
  ⟨h.documents ▸ hv.nodup, h.documents ▸ h.counted ▸ hv.counted, h.documents ▸ hv.apart⟩

theorem Alike.buffer (h : Alike s s') (i : DocumentId) : s'.buffer i = s.buffer i := by
  unfold EditorDesk.buffer
  rw [EditorWorkspace.document_congr h.documents]

theorem Alike.sameAt (h : Alike s s') (i : DocumentId) : SameAt s s' i :=
  ⟨h.buffer i, by rw [h.surfaces], by rw [h.language]⟩

theorem alike_settleRestore (s : EditorDesk) : Alike s s.settleRestore := by
  unfold settleRestore
  split <;> exact ⟨rfl, rfl, rfl, rfl⟩

theorem alike_restoreOverride (s : EditorDesk) (pathString : String) (id : DocumentId) :
    Alike s (s.restoreOverride pathString id) := by
  unfold restoreOverride
  split <;> exact ⟨rfl, rfl, rfl, rfl⟩

theorem alike_activateRestored (s : EditorDesk) (wasRestore : Bool) :
    Alike s (s.activateRestored wasRestore) := by
  unfold activateRestored
  split
  · split <;> exact ⟨rfl, rfl, rfl, rfl⟩
  · exact ⟨rfl, rfl, rfl, rfl⟩

/-- The views after a document was opened under `id`, with the editor as `w'`. -/
structure Shown (s : EditorDesk) (o : Opening) (id : DocumentId) (w' : EditorWorkspace)
    (s' : EditorDesk) : Prop where
  valid : s'.editor.Valid
  buffer : ∀ i, s'.buffer i = (w'.document i).map (·.buffer)
  surface : ∀ i, s'.surfaces.get? i =
    if i = id then some (if o.placeholder then [] else ((s'.buffer id).map (·.text)).getD [])
    else s.surfaces.get? i
  others : ∀ i, i ≠ id → s'.language.documents.get? i = s.language.documents.get? i
  kept : o.placeholder = true → s'.language.documents.get? id = s.language.documents.get? id
  bound : o.placeholder = false → ∃ b, s'.language.documents.get? id = some b ∧
    (b.eligible → ∀ t, s'.buffer id = some t →
      b.revision = t.revision.value ∧ b.text = String.ofList t.text)

/-- Nothing is opened, or the views follow. -/
def OpenMove (env : DeskEnv) (s : EditorDesk) (m : EditorMessage) (s' : EditorDesk) : Prop :=
  (s.opening env m = none ∧ s'.editor.Valid ∧ ∀ i, SameAt s s' i) ∨
    ∃ o id w', s.opening env m = some o ∧
      s.editor.Opened o.path o.text o.diskRevision o.readOnly o.disposition id w' ∧
        s.Shown o id w' s'

section Opened

variable {path : PathBuf} {wasRestore : Bool} {disposition : OpenDisposition} {text : String}
  {diskRevision : DiskRevision} {readOnly truncated : Bool} {relative : RelativeDocumentPath}
  {w' : EditorWorkspace}

/-- The document that is opened is open then. -/
theorem document_opened
    (h : s.editor.Opened relative text diskRevision readOnly disposition id w') : ∃ d, w'.document id = some d := by
  cases h with
  | again d _ _ hd _ => exact ⟨_, hd⟩
  | new _ _ hd _ => exact ⟨_, hd⟩

/-- A document is opened in any valid workspace. -/
theorem openDocument_taken (hv : s.editor.Valid) (relative : RelativeDocumentPath) (text : String)
    (diskRevision : DiskRevision) (readOnly : Bool) (disposition : OpenDisposition) :
    ∃ id w', (EditorWorkspace.openDocument relative text diskRevision readOnly disposition).exec
        s.editor = some (.ok id, w') ∧
      s.editor.Opened relative text diskRevision readOnly disposition id w' ∧ w'.Valid := by
  have hopened := hv.opened relative text diskRevision readOnly disposition
  have hstep := hv.openDocument relative text diskRevision readOnly disposition
  cases hx : (EditorWorkspace.openDocument relative text diskRevision readOnly disposition).exec
      s.editor with
  | none => exact (hopened.of_none hx).elim
  | some p =>
    obtain ⟨r, w'⟩ := p
    cases r with
    | error e => exact (hopened.of_error hx).elim
    | ok id => exact ⟨id, w', rfl, hopened.of_ok hx, (hstep.of_ok hx).valid⟩

/-- A document was opened, and the coordinator is told of its text or of none. -/
theorem shown_bound {f : EditorDesk} {d : Document} (hd : w'.document id = some d)
    (hv : w'.Valid)
    (h : Alike { s with editor := w', surfaces := s.surfaces.insert id d.buffer.text } f)
    {c : LanguageCoordinator} {languageOverride : Option String} (truncated : Bool)
    (hc : c = (f.language.openDocument env.language id path languageOverride
      d.buffer.revision.value
      (if truncated then none else some (String.ofList d.buffer.text))).1) {o : Opening}
    (ho : o.placeholder = false) : s.Shown o id w' { f with language := c } := by
  have hself : (f.buffer id) = some d.buffer := by
    rw [h.buffer]
    exact congrArg (Option.map (·.buffer)) hd
  have hbindings : ∀ i, c.documents.get? i = if i = id then
      some (LanguageCoordinator.binding env.language path languageOverride d.buffer.revision.value
        (if truncated then none else some (String.ofList d.buffer.text)))
      else f.language.documents.get? i := fun i => by
    rw [hc]
    exact LanguageCoordinator.get?_openDocument
  refine ⟨h.valid hv, h.buffer, fun i => ?_, fun i hi => ?_, fun hp => ?_, fun _ => ?_⟩
  · show f.surfaces.get? i =
      if i = id then some (if o.placeholder then [] else ((f.buffer id).map (·.text)).getD [])
      else s.surfaces.get? i
    rw [h.surfaces, hself, ho]
    by_cases hi : i = id
    · rw [if_pos hi]
      exact SortedMap.get?_insert.trans (if_pos hi)
    · rw [if_neg hi]
      exact SortedMap.get?_insert.trans (if_neg hi)
  · show c.documents.get? i = _
    rw [hbindings i, if_neg hi, h.language]
  · rw [ho] at hp
    cases hp
  · refine ⟨_, (hbindings id).trans (if_pos rfl), fun he t ht => ?_⟩
    obtain rfl := Option.some.inj (hself.symm.trans ht)
    cases truncated with
    | true => cases he
    | false => exact ⟨rfl, rfl⟩

theorem textOpened_shown (hv : s.editor.Valid) (wasRestore : Bool)
    (disposition : OpenDisposition) (text : String) (diskRevision : DiskRevision)
    (readOnly truncated : Bool)
    (hpath : RelativeDocumentPath.new (env.pathString path) = some relative) :
    ∃ u id w', s.textOpened env path wasRestore disposition text diskRevision readOnly truncated =
        some u ∧ s.editor.Opened relative text diskRevision readOnly disposition id w' ∧
      s.Shown ⟨relative, text, diskRevision, readOnly, disposition, false⟩ id w' u.1 := by
  obtain ⟨id, w', hx, hopened, hv'⟩ :=
    openDocument_taken hv relative text diskRevision readOnly disposition
  obtain ⟨d, hd⟩ := document_opened hopened
  refine ⟨s.textShown env path wasRestore truncated id w', id, w', ?_, hopened, ?_⟩
  · unfold textOpened
    simp only [hpath, hx]
  · have halike := ((alike_restoreOverride
      { s with editor := w', surfaces := s.surfaces.insert id d.buffer.text }
        (env.pathString path) id).trans (alike_activateRestored _ wasRestore)).trans
          (alike_settleRestore _)
    unfold textShown
    simp only [hd, Option.map_some, Option.getD_some]
    exact shown_bound hd hv' halike truncated rfl rfl

/-- A document that is found missing keeps its buffer. -/
theorem observeMissing_buffers {w : EditorWorkspace} {d : Document} (hv : w.Valid)
    (hd : w.document id = some d) :
    wp (EditorWorkspace.observeMissing id d.buffer.revision)
      (fun _ w' => ∀ i, (w'.document i).map (·.buffer) = (w.document i).map (·.buffer))
      (fun _ _ => False) False w := by
  have hspec : wp (EditorWorkspace.observeMissing id d.buffer.revision)
      (fun _ => w.Touched (fun d d' => d'.buffer = d.buffer) id)
      (fun _ => w.Failed (fun _ _ => False) id) False w := by
    refine hv.touched_pinned (.observeMissing d.buffer.revision) fun d₁ hd₁ _ => ?_
    obtain rfl := Option.some.inj (hd.symm.trans hd₁)
    simp [DocumentOp.run, Document.observeMissing, Document.ensureRevision]
  refine wp_mono hspec (fun _ w' ht i => ?_) (fun _ w' hf => ?_) fun hp => hp
  · obtain ⟨⟨d₁, d', hd₁, hd', hb⟩, ho⟩ := ht
    by_cases hi : i = id
    · rw [hi, hd₁, hd']
      exact congrArg some hb
    · rw [ho i hi]
  · obtain ⟨⟨d₁, d', -, -, hfalse⟩, -⟩ | ⟨hnone, -⟩ := hf
    · exact hfalse
    · rw [hd] at hnone
      cases hnone

theorem placeholderOpened_shown (hv : s.editor.Valid) (disposition : OpenDisposition)
    (diskRevision : DiskRevision)
    (hpath : RelativeDocumentPath.new (env.pathString path) = some relative) :
    ∃ u id w', s.placeholderOpened env path disposition diskRevision = some u ∧
      s.editor.Opened relative "" diskRevision false disposition id w' ∧
        s.Shown ⟨relative, "", diskRevision, false, disposition, true⟩ id w' u.1 := by
  obtain ⟨id, w', hx, hopened, hv'⟩ :=
    openDocument_taken hv relative "" diskRevision false disposition
  obtain ⟨d, hd⟩ := document_opened hopened
  have hmissing := observeMissing_buffers hv' hd
  have hvalid := hv'.run (.observeMissing id d.buffer.revision)
  obtain ⟨w₂, hx₂, hv₂, hbuffers⟩ : ∃ w₂,
      (EditorWorkspace.observeMissing id d.buffer.revision).exec w' = some (.ok (), w₂) ∧
        w₂.Valid ∧ ∀ i, (w₂.document i).map (·.buffer) = (w'.document i).map (·.buffer) := by
    cases hx₂ : (EditorWorkspace.observeMissing id d.buffer.revision).exec w' with
    | none => exact (hmissing.of_none hx₂).elim
    | some p =>
      obtain ⟨r, w₂⟩ := p
      cases r with
      | error e => exact (hmissing.of_error hx₂).elim
      | ok a => exact ⟨w₂, rfl, (hvalid.of_ok hx₂).valid, hmissing.of_ok hx₂⟩
  refine ⟨s.placeholderShown env path id w₂, id, w', ?_, hopened, ?_⟩
  · unfold placeholderOpened
    simp only [hpath, hx, hd, hx₂, Option.map_some, Option.getD_some]
  · have halike := (alike_restoreOverride
      { s with editor := w₂, surfaces := s.surfaces.insert id [] } (env.pathString path) id).trans
        (alike_settleRestore _)
    unfold placeholderShown
    refine ⟨halike.valid hv₂, fun i => (halike.buffer i).trans (hbuffers i), fun i => ?_,
      fun i _ => ?_, fun _ => ?_, fun h => by cases h⟩
    · rw [halike.surfaces]
      by_cases hi : i = id
      · rw [if_pos hi]
        exact SortedMap.get?_insert.trans (if_pos hi)
      · rw [if_neg hi]
        exact SortedMap.get?_insert.trans (if_neg hi)
    · rw [halike.language]
    · rw [halike.language]

theorem Shown.of_alike {f : EditorDesk} {o : Opening} (hf : Alike s f) (h : f.Shown o id w' s') :
    s.Shown o id w' s' := by
  refine ⟨h.valid, h.buffer, fun i => ?_, fun i hi => ?_, fun hp => ?_, h.bound⟩
  · rw [h.surface i, hf.surfaces]
  · rw [h.others i hi, hf.language]
  · rw [h.kept hp, hf.language]

theorem textOpened_pathless (hpath : RelativeDocumentPath.new (env.pathString path) = none) :
    s.textOpened env path wasRestore disposition text diskRevision readOnly truncated =
      some (s.settleRestore, []) := by
  unfold textOpened
  rw [hpath]

theorem placeholderOpened_pathless
    (hpath : RelativeDocumentPath.new (env.pathString path) = none) :
    s.placeholderOpened env path disposition diskRevision = some (s.settleRestore, []) := by
  unfold placeholderOpened
  rw [hpath]

/-- What `DocumentOpened` leaves. -/
theorem opened_move (hv : s.editor.Valid) (env : DeskEnv) (workspaceRoot path : PathBuf)
    (disposition : OpenDisposition) (result : Except DocumentIoError DocumentRead) :
    ∃ u, s.update env (.documentOpened workspaceRoot path disposition result) = some u ∧
      s.OpenMove env (.documentOpened workspaceRoot path disposition result) u.1 := by
  have still {f : EditorDesk} (h : Alike s f)
      (hm : s.opening env (.documentOpened workspaceRoot path disposition result) = none) :
      s.OpenMove env (.documentOpened workspaceRoot path disposition result) f :=
    .inl ⟨hm, h.valid hv, h.sameAt⟩
  simp only [update, documentOpened]
  by_cases hroot : workspaceRoot ≠ s.workspaceRoot
  · simp only [if_pos hroot]
    exact ⟨_, rfl, still ⟨rfl, rfl, rfl, rfl⟩ (if_pos hroot)⟩
  · simp only [if_neg hroot]
    generalize hf : ({ s with
      restorePending := s.restorePending.filter (· ≠ env.pathString path) } : EditorDesk) = f
    have hsame : Alike s f := hf ▸ ⟨rfl, rfl, rfl, rfl⟩
    have he : f.editor = s.editor := hf ▸ rfl
    have hvf : f.editor.Valid := hsame.valid hv
    have hsettled : Alike s f.settleRestore := hsame.trans (alike_settleRestore f)
    cases result with
    | error e =>
      cases hb : (s.restoreTabs.get? (env.pathString path)).bind (·.diskRevision) with
      | none =>
        refine ⟨_, rfl, still hsettled ?_⟩
        simp only [opening, if_neg hroot, hb]
      | some baseline =>
        cases hpath : RelativeDocumentPath.new (env.pathString path) with
        | none =>
          refine ⟨_, placeholderOpened_pathless hpath, still hsettled ?_⟩
          simp only [opening, if_neg hroot, hb, hpath, Option.map_none]
        | some relative =>
          obtain ⟨u, id, w', hu, ho, hshown⟩ :=
            placeholderOpened_shown hvf disposition ⟨baseline⟩ hpath
          refine ⟨u, hu, .inr ⟨_, id, w', ?_, he ▸ ho, hshown.of_alike hsame⟩⟩
          simp only [opening, if_neg hroot, hb, hpath, Option.map_some]
    | ok opened =>
      cases hk : opened.kind with
      | binary =>
        refine ⟨(f.settleRestore, []), ?_, still hsettled ?_⟩
        · simp only [hk]
        · simp only [opening, if_neg hroot, hk]
      | invalidUtf8 =>
        refine ⟨(f.settleRestore, []), ?_, still hsettled ?_⟩
        · simp only [hk]
        · simp only [opening, if_neg hroot, hk]
      | text readOnly truncated =>
        cases ht : opened.text with
        | none =>
          refine ⟨(f, []), ?_, still hsame ?_⟩
          · simp only [hk, ht]
          · simp only [opening, if_neg hroot, hk, ht]
        | some text =>
          simp only [hk, ht]
          cases hpath : RelativeDocumentPath.new (env.pathString path) with
          | none =>
            refine ⟨_, textOpened_pathless hpath, still hsettled ?_⟩
            simp only [opening, if_neg hroot, hk, ht, hpath, Option.map_none]
          | some relative =>
            obtain ⟨u, id, w', hu, ho, hshown⟩ :=
              textOpened_shown hvf (s.restorePending.contains (env.pathString path)) disposition
                text opened.diskRevision readOnly truncated hpath
            refine ⟨u, hu, .inr ⟨_, id, w', ?_, he ▸ ho, hshown.of_alike hsame⟩⟩
            simp only [opening, if_neg hroot, hk, ht, hpath, Option.map_some]

end Opened

/-! ## The editor stays valid -/

section Valid

theorem operate_valid (hv : s.editor.Valid) (hnext : ∀ f, (next f).1.editor = f.editor)
    (h : s.operate op next = some u) : u.1.editor.Valid := by
  obtain ⟨w', ⟨e, hx, rfl⟩ | ⟨hx, rfl⟩⟩ := operate_eq_some h
  · exact ((hv.run op).of_error hx).valid
  · rw [hnext]
    exact ((hv.run op).of_ok hx).valid

theorem operateAndRebuild_valid (hv : s.editor.Valid) (hnext : ∀ f, (next f).1.editor = f.editor)
    (h : s.operateAndRebuild op id next = some u) : u.1.editor.Valid :=
  operate_valid hv (fun _ => (hnext _).trans editor_rebuild) h

theorem forgetClosed_editor : (s.forgetClosed id).editor = s.editor := by
  unfold forgetClosed
  split <;> rfl

theorem closeLanguage_editor : (s.closeLanguage id).editor = s.editor := by
  unfold closeLanguage
  split <;> rfl

theorem editor_documentChanged (f : EditorDesk) : (f.documentChanged id).1.editor = f.editor :=
  (documentChanged_fields f id).1

theorem documentSaved_valid (hv : s.editor.Valid) {workspaceRoot : PathBuf}
    {expectedRevision : Revision} {result : Except DocumentIoError SaveOutcome}
    (h : s.documentSaved env workspaceRoot id expectedRevision result = some u) :
    u.1.editor.Valid := by
  unfold documentSaved at h
  split at h
  · cases h
    exact hv
  · cases result with
    | error e =>
      cases h
      show (s.closeLanguage id).editor.Valid
      rw [closeLanguage_editor]
      exact hv
    | ok saved =>
      dsimp only at h
      split at h
      · cases h
      · next w' hx =>
        cases h
        rw [closeLanguage_editor]
        exact (completeSave_still hv hx).1
      · next w' hx =>
        have hv' := (completeSave_still hv hx).1
        obtain ⟨g, hg, rfl⟩ := Option.map_eq_some_iff.mp h
        rw [closeLanguage_editor]
        obtain ⟨he, -, -⟩ | ⟨he, -, -⟩ := closeSaved_cases hg
        · rw [he]
          exact hv'
        · rw [he]
          exact EditorWorkspace.Valid.remove hv' id

theorem closeDocument_valid (hv : s.editor.Valid) (h : s.closeDocument id = some u) :
    u.1.editor.Valid := by
  unfold closeDocument at h
  rw [EditorWorkspace.exec_requestClose] at h
  cases h
  rw [forgetClosed_editor]
  cases s.editor.document id with
  | none => exact hv
  | some d =>
    by_cases hr : d.isRecoverable
    · simp only [hr, if_true]
      exact hv
    · simp only [hr, Bool.false_eq_true, if_false]
      exact EditorWorkspace.Valid.remove hv id

theorem resolveDocumentClose_valid (hv : s.editor.Valid) {decision : CloseDecision}
    (h : s.resolveDocumentClose env id decision = some u) : u.1.editor.Valid := by
  unfold resolveDocumentClose at h
  split at h
  · cases h
    exact hv
  · rw [EditorWorkspace.exec_resolveClose] at h
    cases h
    rw [forgetClosed_editor]
    cases s.editor.document id with
    | none => exact hv
    | some d =>
      cases decision with
      | cancel => exact hv
      | save => exact hv
      | discard => exact EditorWorkspace.Valid.remove hv id

theorem update_valid (hv : s.editor.Valid) (h : s.update env m = some u) : u.1.editor.Valid := by
  cases m with
  | workspaceOpened root workspaceId restored tabs active =>
    cases h
    exact EditorWorkspace.valid_new _
  | documentOpened workspaceRoot path disposition result =>
    obtain ⟨u', hu', hmove⟩ := opened_move hv env workspaceRoot path disposition result
    obtain rfl := Option.some.inj (hu'.symm.trans h)
    obtain ⟨-, hv', -⟩ | ⟨o, id, w', -, -, hshown⟩ := hmove
    · exact hv'
    · exact hshown.valid
  | editorAction id action =>
    cases action with
    | view =>
      cases h
      exact hv
    | edit edit =>
      simp only [update, editorAction] at h
      split at h
      · refine operate_valid hv (fun f => ?_) h
        rw [editor_documentChanged]
        split
        · exact editor_rebuild
        · rfl
      · cases h
        exact hv
  | selectDocument id =>
    have ho : s.operate (.select id) (fun s => (s, [])) = some u := h
    exact operate_valid hv (fun _ => rfl) ho
  | pinDocument id =>
    have ho : s.operate (.pinDocument id) (fun s => (s, [])) = some u := h
    exact operate_valid hv (fun _ => rfl) ho
  | undoDocument id => exact operateAndRebuild_valid hv editor_documentChanged h
  | redoDocument id => exact operateAndRebuild_valid hv editor_documentChanged h
  | applyCompletion index target placed =>
    simp only [update, applyCompletion] at h
    split at h
    · cases h
      exact hv
    · refine operateAndRebuild_valid hv (fun f => ?_) h
      split
      · exact editor_documentChanged _
      · rfl
  | replaceAll id replacements =>
    simp only [update, replaceAll] at h
    split at h
    · exact operateAndRebuild_valid hv editor_documentChanged h
    · cases h
      exact hv
  | closeDocument id => exact closeDocument_valid hv h
  | resolveDocumentClose id decision => exact resolveDocumentClose_valid hv h
  | documentSaved workspaceRoot id expectedRevision result => exact documentSaved_valid hv h
  | documentDiskObserved workspaceRoot id expectedRevision result =>
    simp only [update, documentDiskObserved] at h
    split at h
    · cases h
      exact hv
    · split at h
      · cases h
        exact hv
      · split at h
        · cases h
          exact hv
        · let f : EditorDesk :=
            { s with recentSaveRevisions := s.recentSaveRevisions.remove id }
          refine operate_valid (s := f) hv (fun g => ?_) h
          dsimp only
          split
          · exact editor_rebuild
          · rfl
  | reloadDocumentFromDisk id =>
    have ho : s.operateAndRebuild (.reloadFromDisk id) id (fun s => (s, [])) = some u := h
    exact operateAndRebuild_valid hv (fun _ => rfl) ho
  | keepEditingDocument id =>
    have ho : s.operate (.keepEditing id) (fun s => (s, [])) = some u := h
    exact operate_valid hv (fun _ => rfl) ho
  | recoveryLoaded workspaceRoot id expectedRevision result =>
    simp only [update, recoveryLoaded] at h
    split at h
    · cases h
      exact hv
    · split at h
      · split at h
        · cases h
          exact hv
        · exact operateAndRebuild_valid hv (fun _ => rfl) h
      · cases h
        exact hv
  | saveDocument id mode =>
    cases h
    exact hv
  | recoveryDue workspaceRoot id expectedRevision generation =>
    cases h
    unfold recoveryDue
    split <;> exact hv
  | recoverySaved workspaceRoot id generation =>
    cases h
    exact hv
  | recoveryDeleted workspaceRoot id =>
    cases h
    unfold recoveryDeleted
    split <;> exact hv
  | setLanguageOverride id language =>
    cases h
    unfold setLanguageOverride
    dsimp only
    split <;> exact hv
  | language op =>
    simp only [update] at h
    split at h
    · cases h
      exact hv
    · cases h

end Valid

end EditorDesk
end Strukt.App
