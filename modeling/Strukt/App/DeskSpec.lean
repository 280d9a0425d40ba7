import Strukt.App.CoordinatorSpec
import Strukt.App.EditorDesk
import Strukt.Editor.Outcomes

/-!
# What a message does to a document, its surface and its binding

`Move` is what one message can do to the three: nothing that they show, an operation of one document
with or without a word to the coordinator, a document that is closed or opened again, another
workspace. `update_move` derives it from the handlers; `opened_move` is the same for
`DocumentOpened`. The laws about surfaces and about the language view are case analyses of moves.
-/

namespace Strukt.App

open Strukt.Fs Method

namespace EditorDesk

variable {env : DeskEnv} {s s' : EditorDesk} {u : DeskUpdate} {m : EditorMessage} {id : DocumentId}
  {op : EditorOp} {dop : DocumentOp} {next : EditorDesk → DeskUpdate}

/-- What the document has of the buffer. -/
def buffer (s : EditorDesk) (id : DocumentId) : Option TextBuffer :=
  (s.editor.document id).map (·.buffer)

/-- The buffer of the document, its surface and its binding are what they were. -/
structure SameAt (s s' : EditorDesk) (id : DocumentId) : Prop where
  buffer : s'.buffer id = s.buffer id
  surface : s'.surfaces.get? id = s.surfaces.get? id
  binding : s'.language.documents.get? id = s.language.documents.get? id

theorem SameAt.refl (s : EditorDesk) (id : DocumentId) : SameAt s s id := ⟨rfl, rfl, rfl⟩

theorem SameAt.trans {f : EditorDesk} (h : SameAt s f id) (h' : SameAt f s' id) : SameAt s s' id :=
  ⟨h'.buffer.trans h.buffer, h'.surface.trans h.surface, h'.binding.trans h.binding⟩

/-- The binding after `edit_document` with the document's buffer. -/
def told (d : Document) (binding : DocumentBinding) : DocumentBinding :=
  { binding with revision := d.buffer.revision.value, text := String.ofList d.buffer.text }

/-- What `open_document` makes of a binding that is opened again. -/
def rebound (binding binding' : DocumentBinding) : Prop :=
  binding'.revision = binding.revision ∧
    (binding'.eligible → binding.eligible ∧ binding'.text = binding.text)

/-- What one message leaves. -/
inductive Move (s : EditorDesk) (unheard : Option (DocumentId × DocumentOp)) (s' : EditorDesk) :
    Prop where
  | still (h : ∀ i, SameAt s s' i)
  /-- The document is changed, its surface follows, and the coordinator is told. -/
  | heard (id : DocumentId) (d d' : Document) (hd : s.editor.document id = some d)
      (hd' : s'.editor.document id = some d')
      (hs : s.surfaces.get? id = some d.buffer.text → s'.surfaces.get? id = some d'.buffer.text)
      (hb : s'.language.documents.get? id = (s.language.documents.get? id).map (told d'))
      (others : ∀ i, i ≠ id → SameAt s s' i)
  /-- The document is changed, its surface follows, and the coordinator is not told. -/
  | unheard (id : DocumentId) (dop : DocumentOp) (d d' : Document) (hm : unheard = some (id, dop))
      (hd : s.editor.document id = some d) (hd' : s'.editor.document id = some d')
      (hs : s.surfaces.get? id = some d.buffer.text → s'.surfaces.get? id = some d'.buffer.text)
      (hr : d.Rewritten dop d') (hb : s'.language.documents.get? id = s.language.documents.get? id)
      (others : ∀ i, i ≠ id → SameAt s s' i)
  | closed (id : DocumentId) (hd : s'.editor.document id = none)
      (hs : s'.surfaces.get? id = none ∨ s.editor.document id = none ∧
        s'.surfaces.get? id = s.surfaces.get? id)
      (hb : s'.language.documents.get? id = none) (others : ∀ i, i ≠ id → SameAt s s' i)
  | rebound (id : DocumentId) (binding binding' : DocumentBinding)
      (hd : s'.buffer id = s.buffer id) (hs : s'.surfaces.get? id = s.surfaces.get? id)
      (hb : s.language.documents.get? id = some binding)
      (hb' : s'.language.documents.get? id = some binding') (h : rebound binding binding')
      (others : ∀ i, i ≠ id → SameAt s s' i)
  | restarted (hd : ∀ i, s'.editor.document i = none) (hs : ∀ i, s'.surfaces.get? i = none)
      (hb : ∀ i, s'.language.documents.get? i = none)

/-- The operation that the message has the document make without a word to the coordinator. -/
def unheard (s : EditorDesk) : EditorMessage → Option (DocumentId × DocumentOp)
  | .documentDiskObserved workspaceRoot id expected result =>
    if workspaceRoot = s.workspaceRoot ∧ s.isRecentSave id result = false then
      (DiskObservation.operation id expected result).bind (·.target s.editor)
    else none
  | .reloadDocumentFromDisk id => some (id, .reloadFromDisk)
  | .recoveryLoaded workspaceRoot id expected (.ok (some payload)) =>
    if workspaceRoot = s.workspaceRoot ∧
        (s.editor.document id).map (·.buffer.revision) = some expected then
      some (id, .restoreRecovery payload.text)
    else none
  | .applyCompletion index target false =>
    (s.completionEdit index target).bind (·.2.target s.editor)
  | _ => none

end EditorDesk

/-! ## Bindings -/

namespace LanguageCoordinator

variable {c : LanguageCoordinator} {id i : DocumentId}

theorem documents_of_foreign {op : CoordinatorOp} (h : op.isForeign = true) (env : LanguageEnv) :
    (op.run env c).1.documents = c.documents := by
  cases op with
  | openDocument | editDocument | closeDocument | setOverride => cases h
  | saveDocument _ | beginFeature _ _ _ | expireFeature _ | dismissFeatures | setProblemFilter _
  | toggleProblems => rfl
  | discovered workspaceId languageId generation result =>
    change (c.discovered workspaceId languageId generation result).documents = _
    obtain h | ⟨server, pending, -, -, -, h⟩ :=
      discovered_cases c workspaceId languageId generation result
    · rw [h]
    · rw [h]; rfl
  | approve languageId =>
    change (c.approve languageId).1.documents = _
    obtain h | ⟨server, state, -, -, -, hrest, -⟩ := approve_cases c languageId
    · rw [h]
    · exact hrest.documents
  | deny languageId =>
    change (c.deny languageId).documents = _
    obtain h | ⟨server, -, -, hrest, -⟩ := deny_cases c languageId
    · rw [h]
    · exact hrest.documents
  | retry languageId =>
    change (c.retry languageId).1.documents = _
    obtain ⟨-, h⟩ | ⟨server, -, -, h⟩ := retry_cases c languageId
    · rw [h]
    · rw [h]; rfl
  | disableLanguage languageId =>
    change (c.disableLanguage env languageId).1.documents = _
    obtain ⟨-, h⟩ | ⟨selection, -, -, -, h⟩ := disableLanguage_cases env c languageId
    · rw [h]
    · rw [h]; rfl
  | enableLanguage languageId =>
    change (c.enableLanguage env languageId).1.documents = _
    obtain ⟨-, h⟩ | ⟨selection, -, -, ⟨-, h⟩ | ⟨-, h⟩⟩ := enableLanguage_cases env c languageId
    · rw [h]
    · rw [h]; rfl
    · rw [h]
      by_cases hd : c.hasDocument languageId = true
      · rw [if_pos hd]
        exact (rest_ensure _ _).documents
      · rw [if_neg hd]
        rfl
  | restartLanguage languageId =>
    change (c.restartLanguage languageId).1.documents = _
    obtain h | ⟨server, -, -, -, h⟩ := restartLanguage_cases c languageId
    · rw [h]
    · rw [h]; rfl
  | markReady order languageId generation positionEncoding =>
    change (c.markReady order languageId generation positionEncoding).1.documents = _
    obtain h | ⟨server, -, -, -, h⟩ :=
      markReady_cases c order languageId generation positionEncoding
    · rw [h]
    · rw [h]; rfl
  | markStopped languageId generation =>
    change (c.markStopped languageId generation).1.documents = _
    obtain ⟨-, h⟩ | ⟨server, -, -, h⟩ := markStopped_cases c languageId generation
    · rw [h]
    · rw [h]
      by_cases hd : (c.selectionEnabled languageId && c.hasDocument languageId) = true
      · rw [if_pos hd]
        exact (rest_ensure _ _).documents
      · rw [if_neg hd]
        rfl
  | failWithMessage languageId generation message =>
    change (c.failWithMessage languageId generation message).documents = _
    obtain ⟨-, h⟩ | ⟨server, -, -, h⟩ := failWithMessage_cases c languageId generation message
    · rw [h]
    · rw [h]; rfl
  | publishDiagnostics order languageId generation path version diagnostics =>
    change (c.publishDiagnostics order languageId generation path version diagnostics).documents = _
    unfold publishDiagnostics
    split
    · rfl
    · split
      · rfl
      · split
        · rfl
        · dsimp only
          split <;> rfl
  | acceptFeatureResponse generation request result =>
    exact (rest_acceptFeature c generation request result).documents

theorem get?_openDocument {env : LanguageEnv} {path : PathBuf} {languageOverride : Option String}
    {revision : UInt64} {text : Option String} :
    (c.openDocument env id path languageOverride revision text).1.documents.get? i =
      if i = id then some (binding env path languageOverride revision text)
      else c.documents.get? i := by
  unfold openDocument
  rw [(rest_openBinding c id _).documents]
  unfold withDocument
  by_cases hi : i = id
  · rw [SortedMap.get?_insert, if_pos hi, if_pos hi]
  · rw [SortedMap.get?_insert, if_neg hi, if_neg hi]

theorem get?_closeDocument :
    (c.closeDocument id).1.documents.get? i = if i = id then none else c.documents.get? i := by
  rw [(closeDocument_fields c id).1, SortedMap.get?_remove]
  by_cases hi : i = id
  · rw [if_pos hi, if_pos hi]
  · rw [if_neg hi, if_neg hi]

end LanguageCoordinator

namespace EditorDesk

variable {env : DeskEnv} {s s' : EditorDesk} {u : DeskUpdate} {m : EditorMessage} {id : DocumentId}
  {op : EditorOp} {dop : DocumentOp} {next : EditorDesk → DeskUpdate}

/-! ## Parts of the handlers -/

theorem operate_eq_some (h : s.operate op next = some u) : ∃ w',
    (∃ e, op.run.exec s.editor = some (.error e, w') ∧ u = ({ s with editor := w' }, [])) ∨
      op.run.exec s.editor = some (.ok (), w') ∧ u = next { s with editor := w' } := by
  unfold operate at h
  split at h
  · cases h
  · next e w' hx => exact ⟨w', .inl ⟨e, hx, (Option.some.inj h).symm⟩⟩
  · next w' hx => exact ⟨w', .inr ⟨hx, (Option.some.inj h).symm⟩⟩

theorem surface_rebuild (i : DocumentId) : (s.rebuild id).surfaces.get? i =
    if i = id then ((s.editor.document id).map (·.buffer.text)).or (s.surfaces.get? i)
    else s.surfaces.get? i := by
  unfold rebuild
  cases s.editor.document id with
  | none => simp
  | some d => simp [SortedMap.get?_insert]

theorem editor_rebuild : (s.rebuild id).editor = s.editor := by
  unfold rebuild
  cases s.editor.document id <;> rfl

theorem language_rebuild : (s.rebuild id).language = s.language := by
  unfold rebuild
  cases s.editor.document id <;> rfl

theorem scheduleRecovery_fields (s : EditorDesk) (id : DocumentId) :
    (s.scheduleRecovery id).1.editor = s.editor ∧ (s.scheduleRecovery id).1.surfaces = s.surfaces ∧
      (s.scheduleRecovery id).1.language = s.language := by
  unfold scheduleRecovery
  split <;> exact ⟨rfl, rfl, rfl⟩

/-- The coordinator is told of the document, and nothing else changes of the three. -/
theorem documentChanged_fields (s : EditorDesk) (id : DocumentId) :
    (s.documentChanged id).1.editor = s.editor ∧
    (s.documentChanged id).1.surfaces = s.surfaces ∧
      ∀ d, s.editor.document id = some d → ∀ i,
        (s.documentChanged id).1.language.documents.get? i =
          if i = id then (s.language.documents.get? id).map (told d)
          else s.language.documents.get? i := by
  unfold documentChanged
  obtain ⟨he, hs, hl⟩ := scheduleRecovery_fields (s.languageDocumentChanged id) id
  rw [he, hs, hl]
  unfold languageDocumentChanged
  cases hd : s.editor.document id with
  | none => exact ⟨rfl, rfl, fun d h => by cases h⟩
  | some d =>
    refine ⟨rfl, rfl, ?_⟩
    rintro _ ⟨⟩ i
    exact LanguageCoordinator.documents_editDocument

/-! ## Operations of one document -/

section Operations

variable {R : Document → Document → Prop} {w' : EditorWorkspace} {f : EditorDesk}
  {o : Option (DocumentId × DocumentOp)}

theorem sameAt_of_document (h : w'.document id = s.editor.document id) :
    SameAt s { s with editor := w' } id := by
  refine ⟨?_, rfl, rfl⟩
  unfold buffer
  rw [h]

/-- A failure shows nowhere. -/
theorem still_of_failed (h : s.editor.Failed dop.Refused id w') (i : DocumentId) :
    SameAt s { s with editor := w' } i := by
  obtain ⟨⟨d, d', hd, hd', hr⟩, ho⟩ | ⟨-, rfl⟩ := h
  · by_cases hi : i = id
    · subst hi
      obtain ⟨h', rfl⟩ := Document.refused_eq hr
      refine ⟨?_, rfl, rfl⟩
      unfold buffer
      rw [hd, hd']
      rfl
    · exact sameAt_of_document (ho i hi)
  · exact .refl s i

/-- A document was changed, and the coordinator is told. -/
theorem heard_of_touched (h : s.editor.Touched R id w') (he : f.editor = w')
    (hl : f.language.documents = s.language.documents)
    (hso : ∀ i, i ≠ id → f.surfaces.get? i = s.surfaces.get? i)
    (hs : ∀ d d', s.editor.document id = some d → w'.document id = some d' → R d d' →
      s.surfaces.get? id = some d.buffer.text → f.surfaces.get? id = some d'.buffer.text) :
    s.Move o (f.documentChanged id).1 := by
  obtain ⟨⟨d, d', hd, hd', hR⟩, ho⟩ := h
  obtain ⟨hce, hcs, hcl⟩ := documentChanged_fields f id
  have hd'f : f.editor.document id = some d' := by rw [he]; exact hd'
  refine .heard id d d' hd ?_ ?_ ?_ fun i hi => ⟨?_, ?_, ?_⟩
  · rw [hce]
    exact hd'f
  · rw [hcs]
    exact hs d d' hd hd' hR
  · rw [hcl d' hd'f, if_pos rfl, hl]
  · unfold buffer
    rw [hce, he, ho i hi]
  · rw [hcs, hso i hi]
  · rw [hcl d' hd'f, if_neg hi, hl]

/-- A document was changed, and the coordinator is not told. -/
theorem unheard_of_touched (h : s.editor.Touched (Document.Rewritten dop) id w')
    (he : f.editor = w') (hl : f.language.documents = s.language.documents)
    (hso : ∀ i, i ≠ id → f.surfaces.get? i = s.surfaces.get? i)
    (hs : ∀ d d', s.editor.document id = some d → w'.document id = some d' →
      d.Rewritten dop d' → s.surfaces.get? id = some d.buffer.text →
        f.surfaces.get? id = some d'.buffer.text) :
    s.Move (some (id, dop)) f := by
  obtain ⟨⟨d, d', hd, hd', hR⟩, ho⟩ := h
  refine .unheard id dop d d' rfl hd ?_ (hs d d' hd hd' hR) hR ?_ fun i hi => ⟨?_, hso i hi, ?_⟩
  · rw [he]
    exact hd'
  · rw [hl]
  · unfold buffer
    rw [he, ho i hi]
  · rw [hl]

/-- The surface that is built anew has the document's text. -/
theorem rebuild_follows {d' : Document} (hd' : s.editor.document id = some d') :
    (s.rebuild id).surfaces.get? id = some d'.buffer.text := by
  rw [surface_rebuild, if_pos rfl, hd']
  rfl

theorem rebuild_others (i : DocumentId) (hi : i ≠ id) :
    (s.rebuild id).surfaces.get? i = s.surfaces.get? i := by
  rw [surface_rebuild, if_neg hi]

/-- The outcomes of an operation of one document. -/
theorem operate_outcome (hv : s.editor.Valid) (ht : op.target s.editor = some (id, dop))
    (hop : op.opens = false)
    (hR : ∀ d : Document, d.history.Apart →
      wp dop.run (fun _ => R d) (fun _ => dop.Refused d) True d)
    (h : s.operate op next = some u) : (∀ i, SameAt s u.1 i) ∨
      ∃ w', s.editor.Touched R id w' ∧ u = next { s with editor := w' } := by
  have hspec := hv.run_touched ht hop fun d _ ha => hR d ha
  obtain ⟨w', ⟨e, hx, rfl⟩ | ⟨hx, rfl⟩⟩ := operate_eq_some h
  · exact .inl (still_of_failed (hspec.of_error hx))
  · exact .inr ⟨w', hspec.of_ok hx, rfl⟩

/-- An operation with the surface built anew, of which the coordinator is told. -/
theorem rebuilt_heard (hv : s.editor.Valid) (ht : op.target s.editor = some (id, dop))
    (hop : op.opens = false)
    (h : s.operateAndRebuild op id (·.documentChanged id) = some u) : s.Move o u.1 := by
  have hR : ∀ d : Document, d.history.Apart →
      wp dop.run (fun _ _ => True) (fun _ => dop.Refused d) True d := fun d ha =>
    wp_mono (d.run_spec ha dop) (fun _ _ _ => trivial) (fun _ _ hr => hr) fun _ => trivial
  obtain hstill | ⟨w', htouched, rfl⟩ := operate_outcome hv ht hop hR h
  · exact .still hstill
  · exact heard_of_touched htouched editor_rebuild (congrArg _ language_rebuild) rebuild_others
      fun d d' _ hd' _ _ => rebuild_follows (s := { s with editor := w' }) hd'

theorem direct_spec (hd : dop.isDirect = true) (d : Document) (ha : d.history.Apart) :
    wp dop.run (fun _ => d.Rewritten dop) (fun _ => dop.Refused d) True d :=
  wp_mono (wp_and (Document.run_rewritten ha hd) (d.run_spec ha dop)) (fun _ _ h => h.1)
    (fun _ _ h => h.2) fun _ => trivial

/-- An operation with the surface built anew, of which the coordinator is not told. -/
theorem rebuilt_unheard (hv : s.editor.Valid) (ht : op.target s.editor = some (id, dop))
    (hop : op.opens = false) (hdop : dop.isDirect = true)
    (h : s.operateAndRebuild op id (fun s => (s, [])) = some u) :
    s.Move (some (id, dop)) u.1 := by
  obtain hstill | ⟨w', htouched, rfl⟩ := operate_outcome hv ht hop (direct_spec hdop) h
  · exact .still hstill
  · exact unheard_of_touched htouched editor_rebuild (congrArg _ language_rebuild) rebuild_others
      fun d d' _ hd' _ _ => rebuild_follows (s := { s with editor := w' }) hd'

/-- An operation that leaves the buffer. -/
theorem operate_still (hv : s.editor.Valid) (ht : op.target s.editor = some (id, dop))
    (hop : op.opens = false) (hdop : dop.isDirect = true)
    (hno : ∀ d : Document, ¬d.Rewrites dop)
    (h : s.operate op (fun s => (s, [])) = some u) (i : DocumentId) : SameAt s u.1 i := by
  obtain hstill | ⟨w', ⟨⟨d, d', hd, hd', hr⟩, ho⟩, rfl⟩ :=
    operate_outcome hv ht hop (direct_spec hdop) h
  · exact hstill i
  · by_cases hi : i = id
    · subst hi
      refine ⟨?_, rfl, rfl⟩
      unfold buffer
      rw [hd, hd']
      exact congrArg some (hr.stays (hno d))
    · exact sameAt_of_document (ho i hi)

end Operations

/-! ## Messages -/

section Messages

variable {w' : EditorWorkspace} {i : DocumentId} {o : Option (DocumentId × DocumentOp)}

/-- What changes neither the editor, the surfaces nor the coordinator's documents. -/
theorem still_of_eq (he : s'.editor.documents = s.editor.documents)
    (hs : s'.surfaces = s.surfaces) (hl : s'.language.documents = s.language.documents) :
    s.Move o s' := by
  refine .still fun i => ⟨?_, by rw [hs], by rw [hl]⟩
  unfold buffer
  rw [EditorWorkspace.document_congr he]

/-- An operation of the tabs alone. -/
theorem operate_tabs (hspec : wp op.run (fun _ w' => w'.documents = s.editor.documents)
      (fun _ w' => w'.documents = s.editor.documents) True s.editor)
    (h : s.operate op (fun s => (s, [])) = some u) : s.Move o u.1 := by
  obtain ⟨w', ⟨e, hx, rfl⟩ | ⟨hx, rfl⟩⟩ := operate_eq_some h
  · exact still_of_eq (hspec.of_error hx) rfl rfl
  · exact still_of_eq (hspec.of_ok hx) rfl rfl

theorem wp_pin_documents (w : EditorWorkspace) (id : DocumentId) :
    wp (EditorWorkspace.pin id) (fun _ w' => w'.documents = w.documents)
      (fun _ w' => w'.documents = w.documents) True w := by
  simp only [EditorWorkspace.pin, wp_bind, wp_get, wp_discard, wp_okOr, wp_modify, implies_true,
    and_self]

theorem wp_select_documents (w : EditorWorkspace) (id : DocumentId) :
    wp (EditorWorkspace.select id) (fun _ w' => w'.documents = w.documents)
      (fun _ w' => w'.documents = w.documents) True w := by
  simp only [EditorWorkspace.select, wp_bind, wp_get, wp_discard, wp_okOr, wp_modify, implies_true,
    and_self]

/-- One replacement makes of the text what the widget makes of it. -/
theorem perform_eq {d d' : Document} {expected : Revision} {r : Replacement} {kind : EditKind}
    {before after : Nat} (h : (DocumentOp.edit expected [r] kind before after).Effect d d') :
    d'.buffer.text = r.perform d.buffer.text := by
  obtain ⟨-, t, a, b', ht, -, he, rfl⟩ := h
  have ht' : t = ⟨expected, [r]⟩ := by
    have hnew : EditTransaction.new expected [r] = .ok ⟨expected, [r]⟩ := rfl
    exact Except.ok.inj (ht.symm.trans hnew)
  subst ht'
  rw [Document.refreshed_buffer]
  exact he.text

theorem editorAction_move (hv : s.editor.Valid) {action : SurfaceAction}
    (h : s.editorAction id action = some u) : s.Move o u.1 := by
  cases action with
  | view =>
    cases h
    exact .still (.refl s)
  | edit edit =>
    simp only [editorAction] at h
    split at h
    · next text d r hs hd hr =>
      have hspec : ∀ d₀ : Document, d₀.history.Apart →
          wp (DocumentOp.edit d.buffer.revision [r] edit.kind edit.cursorBefore
            edit.cursorAfter).run
            (fun _ => DocumentOp.Effect d₀ (.edit d.buffer.revision [r] edit.kind edit.cursorBefore
              edit.cursorAfter))
            (fun _ => DocumentOp.Refused d₀ (.edit d.buffer.revision [r] edit.kind
              edit.cursorBefore edit.cursorAfter)) True d₀ := fun d₀ ha => d₀.run_spec ha _
      obtain hstill | ⟨w', htouched, rfl⟩ := operate_outcome hv rfl rfl hspec h
      · exact .still hstill
      · by_cases hrb : edit.rebuild
        · simp only [hrb, if_true]
          exact heard_of_touched htouched editor_rebuild (congrArg _ language_rebuild)
            rebuild_others fun d d' _ hd' _ _ =>
              rebuild_follows (s := { s with editor := w' }) hd'
        · simp only [hrb, Bool.false_eq_true, if_false]
          refine heard_of_touched htouched rfl rfl (fun i hi => ?_) fun d₀ d' hd₀ _ heff hsurf => ?_
          · rw [SortedMap.get?_insert, if_neg hi]
          · rw [SortedMap.get?_insert, if_pos rfl, perform_eq heff]
            rw [hs] at hsurf
            rw [Option.some.inj hsurf]
    · cases h
      exact .still (.refl s)

theorem completionEdit_cases {index : Nat} {target : Option (Nat × CharRange)}
    (h : s.completionEdit index target = some (id, op)) :
    ∃ range insertion caret cursor revision,
      op = .edit id revision [⟨range, insertion⟩] .other caret cursor := by
  unfold completionEdit at h
  split at h
  · split at h
    · cases h
    · cases h
      exact ⟨_, _, _, _, _, rfl⟩
  · cases h

theorem applyCompletion_move (hv : s.editor.Valid) {index : Nat}
    {target : Option (Nat × CharRange)} {placed : Bool}
    (h : s.applyCompletion index target placed = some u) :
    s.Move (s.unheard (.applyCompletion index target placed)) u.1 := by
  unfold applyCompletion at h
  cases hc : s.completionEdit index target with
  | none =>
    rw [hc] at h
    cases h
    exact .still (.refl s)
  | some p =>
    obtain ⟨id, op⟩ := p
    rw [hc] at h
    obtain ⟨r, insertion, caret, cursor, revision, rfl⟩ := completionEdit_cases hc
    cases placed with
    | true =>
      have hR : ∀ d : Document, d.history.Apart →
          wp (DocumentOp.edit revision [⟨r, insertion⟩] .other caret cursor).run (fun _ _ => True)
            (fun _ => DocumentOp.Refused d (.edit revision [⟨r, insertion⟩] .other caret cursor))
            True d := fun d ha =>
        wp_mono (d.run_spec ha _) (fun _ _ _ => trivial) (fun _ _ hr => hr) fun _ => trivial
      obtain hstill | ⟨w', htouched, rfl⟩ := operate_outcome hv rfl rfl hR h
      · exact .still hstill
      · simp only [if_true]
        refine heard_of_touched htouched ?_ ?_ ?_ ?_
        · exact editor_rebuild
        · show (EditorDesk.rebuild { s with editor := w' } id).language.documents = _
          rw [language_rebuild]
        · exact rebuild_others
        · exact fun d d' _ hd' _ _ => rebuild_follows (s := { s with editor := w' }) hd'
    | false =>
      have hm : s.unheard (.applyCompletion index target false) =
          some (id, .edit revision [⟨r, insertion⟩] .other caret cursor) := by
        simp only [unheard, hc, Option.bind_some]
        rfl
      rw [hm]
      exact rebuilt_unheard hv rfl rfl rfl h

/-- The document is closed, or it was not open. -/
theorem forgetClosed_move (f : EditorDesk) (hd : f.editor.document id = none)
    (hs : f.surfaces.get? id = none ∨ s.editor.document id = none ∧
      f.surfaces.get? id = s.surfaces.get? id)
    (ho : ∀ i, i ≠ id → SameAt s f i) :
    s.Move o (f.forgetClosed id) ∧ s.Move o (f.closeLanguage id) := by
  have hclosed : ∀ f' : EditorDesk, f'.editor = f.editor → f'.surfaces = f.surfaces →
      f'.language = (f.language.closeDocument id).1 → s.Move o f' := by
    intro f' he hsurf hl
    have hb : ∀ i, f'.language.documents.get? i =
        if i = id then none else f.language.documents.get? i := fun i => by
      rw [hl, LanguageCoordinator.get?_closeDocument]
    refine .closed id (by rw [he]; exact hd) (by rw [hsurf]; exact hs) ?_ fun i hi => ?_
    · exact (hb id).trans (if_pos rfl)
    · refine ⟨?_, ?_, ?_⟩
      · unfold buffer
        rw [he]
        exact (ho i hi).buffer
      · rw [hsurf]
        exact (ho i hi).surface
      · exact ((hb i).trans (if_neg hi)).trans (ho i hi).binding
  unfold forgetClosed closeLanguage
  rw [hd]
  exact ⟨hclosed _ rfl rfl rfl, hclosed _ rfl rfl rfl⟩

theorem forgetClosed_open {d : Document} (hd : s.editor.document id = some d) :
    s.forgetClosed id = s ∧ s.closeLanguage id = s := by
  unfold forgetClosed closeLanguage
  rw [hd]
  exact ⟨rfl, rfl⟩

/-- A document that is removed, with its surface. -/
theorem removed_move (f : EditorDesk) {g : EditorDesk} (hg : ∀ i, SameAt s g i)
    (hv : g.editor.Valid) (he : f.editor = g.editor.remove id)
    (hs : f.surfaces = g.surfaces.remove id) (hl : f.language.documents = g.language.documents) :
    s.Move o (f.forgetClosed id) ∧ s.Move o (f.closeLanguage id) := by
  refine forgetClosed_move f ?_ (.inl ?_) fun i hi => (hg i).trans ⟨?_, ?_, ?_⟩
  · rw [he, EditorWorkspace.document_remove hv, if_pos rfl]
  · rw [hs, SortedMap.get?_remove, if_pos rfl]
  · unfold buffer
    rw [he, EditorWorkspace.document_remove hv, if_neg hi]
  · rw [hs, SortedMap.get?_remove, if_neg hi]
  · rw [hl]

/-- The coordinator forgets the document if it is not open. -/
theorem closeLanguage_move {f : EditorDesk} (h : ∀ i, SameAt s f i) :
    s.Move o (f.closeLanguage id) := by
  cases hd : f.editor.document id with
  | some d =>
    rw [(forgetClosed_open hd).2]
    exact .still h
  | none =>
    refine (forgetClosed_move f hd (.inr ⟨?_, (h id).surface⟩) fun i _ => h i).2
    have hb := (h id).buffer
    unfold buffer at hb
    rw [hd] at hb
    exact Option.map_eq_none_iff.mp hb.symm

theorem closeDocument_move (hv : s.editor.Valid) (h : s.closeDocument id = some u) :
    s.Move o u.1 := by
  unfold closeDocument at h
  rw [EditorWorkspace.exec_requestClose] at h
  cases hd : s.editor.document id with
  | none =>
    simp only [hd] at h
    cases h
    exact (forgetClosed_move _ hd (.inr ⟨hd, rfl⟩) fun i _ => .refl s i).1
  | some d =>
    simp only [hd] at h
    by_cases hr : d.isRecoverable
    · simp only [hr, if_true] at h
      cases h
      rw [(forgetClosed_open (s := { s with pendingClose := some id }) hd).1]
      exact still_of_eq rfl rfl rfl
    · simp only [hr, Bool.false_eq_true, if_false] at h
      cases h
      exact (removed_move { s with
        editor := s.editor.remove id
        surfaces := s.surfaces.remove id } (.refl s) hv rfl rfl rfl).1

theorem resolveDocumentClose_move (hv : s.editor.Valid) {decision : CloseDecision}
    (h : s.resolveDocumentClose env id decision = some u) : s.Move o u.1 := by
  unfold resolveDocumentClose at h
  split at h
  · cases h
    exact .still (.refl s)
  · next hsave =>
    rw [EditorWorkspace.exec_resolveClose] at h
    cases hd : s.editor.document id with
    | none =>
      simp only [hd] at h
      cases h
      exact (forgetClosed_move { s with pendingClose := none } hd (.inr ⟨hd, rfl⟩)
        fun i _ => ⟨rfl, rfl, rfl⟩).1
    | some d =>
      cases decision with
      | save => exact absurd rfl hsave
      | cancel =>
        simp only [hd] at h
        cases h
        rw [(forgetClosed_open (s := { s with pendingClose := none }) hd).1]
        exact still_of_eq rfl rfl rfl
      | discard =>
        simp only [hd] at h
        cases h
        exact (removed_move { s with
          editor := s.editor.remove id
          surfaces := s.surfaces.remove id
          pendingClose := none } (.refl s) hv rfl rfl rfl).1

/-- A save that is done leaves the buffers. -/
theorem completeSave_still (hv : s.editor.Valid) {expected : Revision} {diskRevision : DiskRevision}
    {r : Except EditorWorkspaceError Unit} {w' : EditorWorkspace}
    (h : (EditorWorkspace.completeSave id expected diskRevision).exec s.editor = some (r, w')) :
    w'.Valid ∧ ∀ i, SameAt s { s with editor := w' } i := by
  have hop : s.operate (.completeSave id expected diskRevision) (fun s => (s, [])) =
      some ({ s with editor := w' }, []) := by
    unfold operate
    rw [show (EditorOp.completeSave id expected diskRevision).run =
      EditorWorkspace.completeSave id expected diskRevision from rfl, h]
    cases r <;> rfl
  have hno : ∀ d : Document, ¬d.Rewrites (.completeSave expected diskRevision) :=
    fun _ => not_false
  refine ⟨?_, operate_still hv rfl rfl rfl hno hop⟩
  have hrun := hv.run (.completeSave id expected diskRevision)
  rw [show (EditorOp.completeSave id expected diskRevision).run =
    EditorWorkspace.completeSave id expected diskRevision from rfl] at hrun
  cases r with
  | ok a => exact (hrun.of_ok h).valid
  | error e => exact (hrun.of_error h).valid

/-- A document that waited for its save is closed, or nothing shows. -/
theorem closeSaved_cases {g : EditorDesk} (h : s.closeSaved id = some g) :
    g.editor = s.editor ∧ g.surfaces = s.surfaces ∧ g.language = s.language ∨
      g.editor = s.editor.remove id ∧ g.surfaces = s.surfaces.remove id ∧
        g.language = s.language := by
  unfold closeSaved at h
  split at h
  · cases h
    exact .inl ⟨rfl, rfl, rfl⟩
  · rw [EditorWorkspace.exec_resolveClose] at h
    cases hd : s.editor.document id with
    | none =>
      simp only [hd] at h
      cases h
      exact .inl ⟨rfl, rfl, rfl⟩
    | some d =>
      simp only [hd] at h
      cases h
      exact .inr ⟨rfl, rfl, rfl⟩

theorem documentSaved_move (hv : s.editor.Valid) {workspaceRoot : PathBuf}
    {expectedRevision : Revision} {result : Except DocumentIoError SaveOutcome}
    (h : s.documentSaved env workspaceRoot id expectedRevision result = some u) :
    s.Move o u.1 := by
  unfold documentSaved at h
  split at h
  · cases h
    exact .still (.refl s)
  · cases result with
    | error e =>
      cases h
      exact closeLanguage_move (.refl s)
    | ok saved =>
      dsimp only at h
      split at h
      · cases h
      · next w' hx =>
        cases h
        exact closeLanguage_move (completeSave_still hv hx).2
      · next w' hx =>
        obtain ⟨hv', hstill⟩ := completeSave_still hv hx
        obtain ⟨g, hg, rfl⟩ := Option.map_eq_some_iff.mp h
        obtain ⟨he, hs, hl⟩ | ⟨he, hs, hl⟩ := closeSaved_cases hg
        · refine closeLanguage_move fun i => (hstill i).trans ⟨?_, ?_, ?_⟩
          · unfold buffer
            rw [he]
          · rw [hs]
          · rw [hl]
        · exact (removed_move g hstill hv' he hs (congrArg _ hl)).2

/-- What an observation has the editor do. -/
theorem operation_cases {expected : Revision} {result : Except DocumentIoError DiskObservation}
    (h : DiskObservation.operation id expected result = some op) :
    (∃ diskRevision text, op = .observeDiskChange id expected diskRevision text) ∨
      op = .observeMissing id expected := by
  unfold DiskObservation.operation at h
  split at h
  · split at h
    · obtain ⟨text, -, rfl⟩ := Option.map_eq_some_iff.mp h
      exact .inl ⟨_, _, rfl⟩
    · cases h
      exact .inr rfl
  · cases h
    exact .inr rfl
  · cases h

theorem documentDiskObserved_move (hv : s.editor.Valid) {workspaceRoot : PathBuf}
    {expectedRevision : Revision} {result : Except DocumentIoError DiskObservation}
    (h : s.documentDiskObserved workspaceRoot id expectedRevision result = some u) :
    s.Move (s.unheard (.documentDiskObserved workspaceRoot id expectedRevision result)) u.1 := by
  unfold documentDiskObserved at h
  split at h
  · cases h
    exact .still (.refl s)
  · next hroot =>
    dsimp only at h
    split at h
    · cases h
      exact still_of_eq rfl rfl rfl
    · next hrecent =>
      split at h
      · cases h
        exact still_of_eq rfl rfl rfl
      · next op hop =>
        obtain ⟨dop, ht, hopens, hdirect, hclean⟩ : ∃ dop, op.target s.editor = some (id, dop) ∧
            op.opens = false ∧ dop.isDirect = true ∧
              ∀ d : Document, d.Rewrites dop → d.status = .clean := by
          obtain ⟨diskRevision, text, rfl⟩ | rfl := operation_cases hop
          · exact ⟨_, rfl, rfl, rfl, fun _ hr => hr.2.1⟩
          · exact ⟨_, rfl, rfl, rfl, fun _ => False.elim⟩
        have hm : s.unheard (.documentDiskObserved workspaceRoot id expectedRevision result) =
            some (id, dop) := by
          simp only [unheard]
          rw [if_pos ⟨not_not.mp hroot, by simpa using hrecent⟩, hop]
          exact ht
        rw [hm]
        obtain hstill | ⟨w', htouched, rfl⟩ :=
          operate_outcome (s := { s with recentSaveRevisions := s.recentSaveRevisions.remove id })
            hv ht hopens (direct_spec hdirect) h
        · exact .still fun i => ⟨(hstill i).buffer, (hstill i).surface, (hstill i).binding⟩
        · dsimp only
          split
          · refine unheard_of_touched htouched editor_rebuild ?_ ?_ fun d d' _ hd' _ _ =>
              rebuild_follows hd'
            · rw [language_rebuild]
            · exact fun i hi => rebuild_others i hi
          · next hwas =>
            refine unheard_of_touched htouched rfl rfl (fun _ _ => rfl) fun d d' hd _ hr hsurf => ?_
            have hkept : d'.buffer = d.buffer := hr.stays fun hrw => hwas (by
              simp [hd, hclean d hrw])
            rw [hkept]
            exact hsurf

theorem recoveryLoaded_move (hv : s.editor.Valid) {workspaceRoot : PathBuf}
    {expectedRevision : Revision} {result : Except Unit (Option RecoveryPayload)}
    (h : s.recoveryLoaded workspaceRoot id expectedRevision result = some u) :
    s.Move (s.unheard (.recoveryLoaded workspaceRoot id expectedRevision result)) u.1 := by
  unfold recoveryLoaded at h
  split at h
  · cases h
    exact .still (.refl s)
  · next hroot =>
    split at h
    · next payload =>
      split at h
      · cases h
        exact .still (.refl s)
      · next hrev =>
        have hm : s.unheard (.recoveryLoaded workspaceRoot id expectedRevision
            (.ok (some payload))) = some (id, .restoreRecovery payload.text) := by
          simp only [unheard]
          rw [if_pos ⟨not_not.mp hroot, not_not.mp hrev⟩]
        rw [hm]
        exact rebuilt_unheard hv rfl rfl rfl h
    · cases h
      exact .still (.refl s)

/-- The coordinator opens the document again, if it holds it. -/
theorem setLanguageOverride_move {language : Option String} :
    s.Move o (s.setLanguageOverride env id language) := by
  have hfields : (s.setLanguageOverride env id language).editor = s.editor ∧
      (s.setLanguageOverride env id language).surfaces = s.surfaces ∧
        (s.setLanguageOverride env id language).language =
          (s.language.setOverride env.language id language).1 := by
    unfold setLanguageOverride
    dsimp only
    split <;> exact ⟨rfl, rfl, rfl⟩
  obtain ⟨he, hs, hl⟩ := hfields
  unfold LanguageCoordinator.setOverride at hl
  cases hb : s.language.documents.get? id with
  | none =>
    rw [hb] at hl
    exact still_of_eq (by rw [he]) hs (by rw [hl])
  | some previous =>
    rw [hb] at hl
    have hdocs : ∀ i, (s.setLanguageOverride env id language).language.documents.get? i =
        if i = id then some (LanguageCoordinator.binding env.language previous.path language
          previous.revision (if previous.eligible then some previous.text else none))
        else s.language.documents.get? i := by
      intro i
      rw [hl, LanguageCoordinator.get?_openDocument, LanguageCoordinator.get?_closeDocument]
      by_cases hi : i = id
      · rw [if_pos hi, if_pos hi]
      · rw [if_neg hi, if_neg hi, if_neg hi]
    refine .rebound id previous _ ?_ (by rw [hs]) hb ((hdocs id).trans (if_pos rfl)) ⟨rfl, ?_⟩
      fun i hi => ⟨?_, by rw [hs], (hdocs i).trans (if_neg hi)⟩
    · unfold buffer
      rw [he]
    · intro heligible
      cases hp : previous.eligible with
      | true => exact ⟨rfl, by simp [LanguageCoordinator.binding]⟩
      | false => simp [LanguageCoordinator.binding, hp] at heligible
    · unfold buffer
      rw [he]

/-- What a message leaves, if it is not `DocumentOpened`. -/
theorem update_move (hv : s.editor.Valid)
    (hm : ∀ root path disposition result, m ≠ .documentOpened root path disposition result)
    (h : s.update env m = some u) : s.Move (s.unheard m) u.1 := by
  cases m with
  | documentOpened root path disposition result => exact absurd rfl (hm _ _ _ _)
  | workspaceOpened root workspaceId restored tabs active =>
    cases h
    exact .restarted (fun _ => rfl) (fun _ => rfl) fun _ => rfl
  | editorAction id action => exact editorAction_move hv h
  | selectDocument id =>
    refine operate_tabs ?_ h
    exact wp_select_documents s.editor id
  | pinDocument id =>
    refine operate_tabs ?_ h
    exact wp_pin_documents s.editor id
  | undoDocument id => exact rebuilt_heard hv rfl rfl h
  | redoDocument id => exact rebuilt_heard hv rfl rfl h
  | applyCompletion index target placed => exact applyCompletion_move hv h
  | replaceAll id replacements =>
    simp only [update, replaceAll] at h
    split at h
    · exact rebuilt_heard hv rfl rfl h
    · cases h
      exact .still (.refl s)
  | closeDocument id => exact closeDocument_move hv h
  | resolveDocumentClose id decision => exact resolveDocumentClose_move hv h
  | documentSaved workspaceRoot id expectedRevision result => exact documentSaved_move hv h
  | documentDiskObserved workspaceRoot id expectedRevision result =>
    exact documentDiskObserved_move hv h
  | reloadDocumentFromDisk id => exact rebuilt_unheard hv rfl rfl rfl h
  | keepEditingDocument id =>
    have hno : ∀ d : Document, ¬d.Rewrites .keepEditing := fun _ => not_false
    exact .still (operate_still hv rfl rfl rfl hno h)
  | recoveryLoaded workspaceRoot id expectedRevision result => exact recoveryLoaded_move hv h
  | saveDocument id mode =>
    cases h
    exact .still (.refl s)
  | recoveryDue workspaceRoot id expectedRevision generation =>
    cases h
    unfold recoveryDue
    split <;> exact .still (.refl s)
  | recoverySaved workspaceRoot id generation =>
    cases h
    exact .still (.refl s)
  | recoveryDeleted workspaceRoot id =>
    cases h
    unfold recoveryDeleted
    split <;> exact still_of_eq rfl rfl rfl
  | setLanguageOverride id language =>
    cases h
    exact setLanguageOverride_move
  | language op =>
    simp only [update] at h
    split at h
    · next hforeign =>
      cases h
      exact still_of_eq rfl rfl (LanguageCoordinator.documents_of_foreign hforeign env.language)
    · cases h

end Messages

/-! ## Messages of which the coordinator hears nothing -/

/-- Such a message has the editor make the operation, and the coordinator is left as it is. -/
structure Operates (s : EditorDesk) (m : EditorMessage) (id : DocumentId) (dop : DocumentOp)
    (s₀ : EditorDesk) (op : EditorOp) (next : EditorDesk → DeskUpdate) : Prop where
  update : ∀ env, s.update env m = s₀.operate op next
  editor : s₀.editor = s.editor
  language : s₀.language = s.language
  target : op.target s.editor = some (id, dop)
  opens : op.opens = false
  isDirect : dop.isDirect = true
  next_editor : ∀ f, (next f).1.editor = f.editor
  next_language : ∀ f, (next f).1.language = f.language

theorem unheard_operates (hm : s.unheard m = some (id, dop)) :
    ∃ s₀ op next, s.Operates m id dop s₀ op next := by
  unfold unheard at hm
  split at hm
  · next workspaceRoot i expected result =>
    split at hm
    · next hcond =>
      obtain ⟨hroot, hrecent⟩ := hcond
      obtain ⟨op, hop, ht⟩ := Option.bind_eq_some_iff.mp hm
      refine ⟨{ s with recentSaveRevisions := s.recentSaveRevisions.remove i }, op,
        fun f => (if (s.editor.document i).any (·.status = .clean) then f.rebuild i else f, []),
        fun env => ?_, rfl, rfl, ht, ?_, ?_, fun f => ?_, fun f => ?_⟩
      · simp only [update, documentDiskObserved, hroot, ne_eq, not_true_eq_false, if_false, hrecent,
          Bool.false_eq_true, hop]
      · obtain ⟨diskRevision, text, rfl⟩ | rfl := operation_cases hop <;> rfl
      · obtain ⟨diskRevision, text, rfl⟩ | rfl := operation_cases hop <;> cases ht <;> rfl
      · dsimp only
        split
        · exact editor_rebuild
        · rfl
      · dsimp only
        split
        · exact language_rebuild
        · rfl
    · cases hm
  · next i =>
    cases hm
    exact ⟨s, .reloadFromDisk id, fun f => (f.rebuild id, []), fun _ => rfl, rfl, rfl, rfl, rfl,
      rfl, fun _ => editor_rebuild, fun _ => language_rebuild⟩
  · next workspaceRoot i expected payload =>
    split at hm
    · next hcond =>
      cases hm
      obtain ⟨hroot, hrev⟩ := hcond
      refine ⟨s, .restoreRecovery id payload.text, fun f => (f.rebuild id, []), fun env => ?_, rfl,
        rfl, rfl, rfl, rfl, fun _ => editor_rebuild, fun _ => language_rebuild⟩
      simp only [update, recoveryLoaded, hroot, ne_eq, not_true_eq_false, if_false, hrev]
      rfl
    · cases hm
  · next index target =>
    obtain ⟨⟨i, op⟩, hc, ht⟩ := Option.bind_eq_some_iff.mp hm
    obtain ⟨range, insertion, caret, cursor, revision, rfl⟩ := completionEdit_cases hc
    cases ht
    refine ⟨s, .edit id revision [⟨range, insertion⟩] .other caret cursor,
      fun f => (f.rebuild id, []), fun env => ?_, rfl, rfl, rfl, rfl, rfl,
      fun _ => editor_rebuild, fun _ => language_rebuild⟩
    simp only [update, applyCompletion, hc, Bool.false_eq_true, if_false]
    rfl
  · cases hm

/-- The document gets another revision where it is rewritten, and its binding stays. -/
theorem unheard_taken (hv : s.editor.Valid) (hm : s.unheard m = some (id, dop)) {d : Document}
    (hd : s.editor.document id = some d) (hr : d.Rewrites dop) (env : DeskEnv) :
    ∃ u d', s.update env m = some u ∧ u.1.editor.document id = some d' ∧
      d'.buffer.revision ≠ d.buffer.revision ∧ u.1.language = s.language := by
  obtain ⟨s₀, op, next, ho⟩ := unheard_operates hm
  have hspec : wp op.run (fun _ => s.editor.Touched (Document.Rewritten dop) id)
      (fun _ => s.editor.Failed (fun d d' => d.Rewritten dop d' ∧ dop.Refused d d') id)
      (¬d.Rewrites dop) s.editor := by
    refine hv.run_touched ho.target ho.opens fun d₁ hd₁ ha => ?_
    obtain rfl := Option.some.inj (hd.symm.trans hd₁)
    refine wp_mono (wp_and (Document.run_rewritten ha ho.isDirect) (d.run_spec ha dop)) ?_ ?_
      And.left
    · exact fun _ _ h => h.1
    · exact fun _ _ h => h
  rw [ho.update env]
  unfold operate
  rw [ho.editor]
  cases hx : op.run.exec s.editor with
  | none => exact absurd hr (hspec.of_none hx)
  | some p =>
    obtain ⟨r, w'⟩ := p
    cases r with
    | error e =>
      obtain ⟨⟨d₁, d', hd₁, -, hw, hrefused⟩, -⟩ | ⟨hnone, -⟩ := hspec.of_error hx
      · obtain rfl := Option.some.inj (hd.symm.trans hd₁)
        obtain ⟨h', rfl⟩ := Document.refused_eq hrefused
        exact absurd rfl (hw.moves hr)
      · rw [hd] at hnone
        cases hnone
    | ok a =>
      obtain ⟨⟨d₁, d', hd₁, hd', hw⟩, -⟩ := hspec.of_ok hx
      obtain rfl := Option.some.inj (hd.symm.trans hd₁)
      refine ⟨_, d', rfl, ?_, hw.moves hr, ?_⟩
      · rw [ho.next_editor]
        exact hd'
      · rw [ho.next_language]
        exact ho.language

end EditorDesk
end Strukt.App
