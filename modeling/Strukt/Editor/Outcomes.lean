import Strukt.Editor.TabsSpec

/-!
# What the user of a workspace can count on after an operation

`Touched R w id w'` says that an operation left the document under `id` related by `R`, and the
others as they were; `run_touched` derives it from a specification of the document's method, for a
success and for a failure. `Opened` is the same for `openDocument`, which may close the preview.

* **Rewrites**: when a method gives the document another text. With `Rewrites` the revision is
  another one, without it the buffer stays (`run_rewritten`).
-/

namespace Strukt

open Method EditTransaction

/-- The operations other than those whose transaction the history has, and the reading again of a
read-only document. -/
def DocumentOp.isDirect : DocumentOp → Bool
  | .undo | .redo | .upgradeReadOnly _ _ => false
  | _ => true

namespace Document

/-- The operation gives the document another buffer. Undo and redo, where the history decides, are
left out. -/
def Rewrites (d : Document) : DocumentOp → Prop
  | .edit expected replacements _ _ _ =>
    d.readOnly = false ∧
      ∃ t, EditTransaction.new expected replacements = .ok t ∧ d.buffer.Admits t
  | .observeDiskChange expected _ _ =>
    expected = d.buffer.revision ∧ d.status = .clean ∧ d.buffer.revision.value ≠ -1
  | .reloadFromDisk =>
    (∃ diskRevision diskText, d.status = .conflict diskRevision diskText) ∧
      d.buffer.revision.value ≠ -1
  | .restoreRecovery text => d.buffer.text ≠ text.toList ∧ d.buffer.revision.value ≠ -1
  | _ => False

/-- The buffer has another revision exactly if the document is rewritten. -/
structure Rewritten (dop : DocumentOp) (d d' : Document) : Prop where
  moves : d.Rewrites dop → d'.buffer.revision ≠ d.buffer.revision
  stays : ¬d.Rewrites dop → d'.buffer = d.buffer

variable {d d' : Document} {dop : DocumentOp}

theorem Rewritten.of_eq (h : ¬d.Rewrites dop) (he : d'.buffer = d.buffer) : Rewritten dop d d' :=
  ⟨fun hr => absurd hr h, fun _ => he⟩

theorem Rewritten.of_edited (h : d.Rewrites dop) {t : EditTransaction} {a : AppliedTransaction}
    (he : TextBuffer.Edited d.buffer t a d'.buffer) : Rewritten dop d d' := by
  refine ⟨fun _ heq => ?_, fun hn => absurd h hn⟩
  have hnext := TextBuffer.Revision.next_toNat he.next
  rw [heq] at hnext
  omega

/-- A transaction that does not overlap is made, where the buffer admits it. -/
theorem wp_applyBuffer_admits {t : EditTransaction} (hover : overlaps t.replacements = false) :
    wp (applyBuffer t)
      (fun a d' => ∃ b', d' = { d with buffer := b' } ∧ d.buffer.Admits t ∧
        TextBuffer.Edited d.buffer t a b')
      (fun _ d' => d' = d ∧ ¬d.buffer.Admits t) (¬d.buffer.Admits t) d := by
  rw [applyBuffer, wp_focus]
  refine wp_mono (TextBuffer.apply_spec hover) ?_ ?_ And.left
  · rintro a b' ⟨ha, he⟩
    exact ⟨b', rfl, ha, he⟩
  · rintro e b' ⟨rfl, hno⟩
    exact ⟨rfl, hno⟩

/-- The buffer admits that its whole text is replaced while there is a revision left. -/
theorem admits_whole {text : String} :
    d.buffer.Admits (d.whole text) ↔ d.buffer.revision.value ≠ -1 := by
  refine ⟨fun h => h.2.1, fun h => ⟨rfl, h, fun r hr => ?_⟩⟩
  rw [List.mem_singleton.mp hr]
  exact ⟨Nat.zero_le _, le_rfl⟩

theorem edit_rewritten (expected : Revision) (replacements : List Replacement) (kind : EditKind)
    (cursorBefore cursorAfter : Nat) :
    wp (DocumentOp.edit expected replacements kind cursorBefore cursorAfter).run
      (fun _ => Rewritten (.edit expected replacements kind cursorBefore cursorAfter) d)
      (fun _ => Rewritten (.edit expected replacements kind cursorBefore cursorAfter) d)
      (¬d.Rewrites (.edit expected replacements kind cursorBefore cursorAfter)) d := by
  simp only [DocumentOp.run, wp_bind, wp_ofExcept]
  refine ⟨fun t ht => ?_, fun e he => ?_⟩
  · have hnew : EditTransaction.new expected replacements = .ok t := by
      cases hx : EditTransaction.new expected replacements with
      | ok t' => rw [hx] at ht; cases ht; rfl
      | error e => rw [hx] at ht; cases ht
    obtain ⟨-, -, hover⟩ := new_eq_ok hnew
    simp only [Document.edit, wp_bind, wp_get, wp_ensure]
    refine ⟨fun hro => ?_, fun hro => .of_eq (fun h => hro h.1) rfl⟩
    have hrefuse : ¬d.buffer.Admits t →
        ¬d.Rewrites (.edit expected replacements kind cursorBefore cursorAfter) := by
      rintro hno ⟨-, t', ht', ha⟩
      rw [hnew] at ht'
      cases ht'
      exact hno ha
    refine wp_mono (wp_applyBuffer_admits hover) ?_ ?_ hrefuse
    · rintro a _ ⟨b', rfl, hadmits, hedited⟩
      simp only [record, wp_modify, wp_refreshDirtyStatus]
      refine .of_edited (t := t) (a := a) ⟨hro, t, hnew, hadmits⟩ ?_
      rw [refreshed_buffer]
      exact hedited
    · rintro e _ ⟨rfl, hno⟩
      exact .of_eq (hrefuse hno) rfl
  · refine .of_eq ?_ rfl
    rintro ⟨-, t, ht, -⟩
    rw [ht] at he
    cases he

theorem observeDiskChange_rewritten (expected : Revision) (diskRevision : DiskRevision)
    (diskText : String) :
    wp (observeDiskChange expected diskRevision diskText)
      (fun _ => Rewritten (.observeDiskChange expected diskRevision diskText) d)
      (fun _ => Rewritten (.observeDiskChange expected diskRevision diskText) d)
      (¬d.Rewrites (.observeDiskChange expected diskRevision diskText)) d := by
  simp only [observeDiskChange, ensureRevision, wp_bind, wp_get, wp_ensure, wp_ite, wp_modify,
    wp_replaceAll, wp_discard]
  refine ⟨fun hrev => ⟨fun hclean => ?_, fun hclean => .of_eq (fun h => hclean h.2.1) rfl⟩,
    fun hstale => .of_eq (fun h => hstale h.1) rfl⟩
  refine wp_mono (wp_applyBuffer_admits rfl) ?_ ?_ fun hno h => hno (admits_whole.mpr h.2.2)
  · rintro a _ ⟨b', rfl, hadmits, hedited⟩
    exact .of_edited ⟨hrev, hclean, admits_whole.mp hadmits⟩ hedited
  · rintro e _ ⟨rfl, hno⟩
    exact .of_eq (fun h => hno (admits_whole.mpr h.2.2)) rfl

theorem reloadFromDisk_rewritten :
    wp reloadFromDisk (fun _ => Rewritten .reloadFromDisk d) (fun _ => Rewritten .reloadFromDisk d)
      (¬d.Rewrites .reloadFromDisk) d := by
  simp only [reloadFromDisk, wp_bind, wp_get]
  cases hs : d.status with
  | conflict diskRevision diskText =>
    simp only [wp_bind, wp_replaceAll]
    refine wp_mono (wp_applyBuffer_admits rfl) ?_ ?_ fun hno h => hno (admits_whole.mpr h.2)
    · rintro a _ ⟨b', rfl, hadmits, hedited⟩
      simp only [record, wp_modify]
      exact .of_edited ⟨⟨diskRevision, diskText, hs⟩, admits_whole.mp hadmits⟩ hedited
    · rintro e _ ⟨rfl, hno⟩
      exact .of_eq (fun h => hno (admits_whole.mpr h.2)) rfl
  | clean | dirty | missing =>
    refine .of_eq ?_ rfl
    rintro ⟨⟨diskRevision, diskText, h⟩, -⟩
    rw [hs] at h
    cases h

theorem restoreRecovery_rewritten (text : String) :
    wp (restoreRecovery text) (fun _ => Rewritten (.restoreRecovery text) d)
      (fun _ => Rewritten (.restoreRecovery text) d) (¬d.Rewrites (.restoreRecovery text)) d := by
  simp only [restoreRecovery, markRecovered, wp_bind, wp_get, wp_ite, wp_replaceAll, wp_discard,
    wp_modify]
  refine ⟨fun hne => ?_, fun heq => .of_eq (fun h => heq h.1) rfl⟩
  refine wp_mono (wp_applyBuffer_admits rfl) ?_ ?_ fun hno h => hno (admits_whole.mpr h.2)
  · rintro a _ ⟨b', rfl, hadmits, hedited⟩
    exact .of_edited ⟨hne, admits_whole.mp hadmits⟩ hedited
  · rintro e _ ⟨rfl, hno⟩
    exact .of_eq (fun h => hno (admits_whole.mpr h.2)) rfl

/-- An operation rewrites the document, or leaves the buffer; it does not panic where it
rewrites. -/
theorem run_rewritten (ha : d.history.Apart) (hdop : dop.isDirect = true) :
    wp dop.run (fun _ => Rewritten dop d) (fun _ => Rewritten dop d) (¬d.Rewrites dop) d := by
  have hkeep (hn : ¬d.Rewrites dop) (he : ∀ d', dop.Effect d d' → d'.buffer = d.buffer) :
      wp dop.run (fun _ => Rewritten dop d) (fun _ => Rewritten dop d) (¬d.Rewrites dop) d := by
    refine wp_mono (d.run_spec ha dop) (fun _ d' h => .of_eq hn (he d' h)) (fun _ d' h => ?_)
      fun _ => hn
    obtain ⟨h', rfl⟩ := refused_eq h
    exact .of_eq hn rfl
  cases dop with
  | undo | redo | upgradeReadOnly => cases hdop
  | edit expected replacements kind cursorBefore cursorAfter => exact edit_rewritten ..
  | observeDiskChange expected diskRevision diskText => exact observeDiskChange_rewritten ..
  | reloadFromDisk => exact reloadFromDisk_rewritten
  | restoreRecovery text => exact restoreRecovery_rewritten text
  | completeSave expected diskRevision =>
    refine hkeep not_false fun d' h => ?_
    obtain ⟨-, rfl⟩ := h
    rfl
  | observeMissing expected =>
    refine hkeep not_false fun d' h => ?_
    obtain ⟨-, rfl⟩ := h
    rfl
  | keepEditing =>
    refine hkeep not_false fun d' h => ?_
    obtain ⟨-, rfl⟩ := h
    rfl
  | markRecovered =>
    refine hkeep not_false fun d' h => ?_
    subst h
    rfl

end Document

/-! ## Operations of one document -/

/-- The operation opens a document. -/
def EditorOp.opens : EditorOp → Bool
  | .openDocument _ _ _ _ _ => true
  | _ => false

namespace EditorWorkspace

variable {w w' w'' : EditorWorkspace} {op : EditorOp} {dop : DocumentOp} {id : DocumentId}
  {d d' : Document} {R R' : Document → Document → Prop} {P : Prop}

/-- The document is related by `R` to what it was, and the others are what they were. -/
structure Touched (R : Document → Document → Prop) (w : EditorWorkspace) (id : DocumentId)
    (w' : EditorWorkspace) : Prop where
  document : ∃ d d', w.document id = some d ∧ w'.document id = some d' ∧ R d d'
  others : ∀ i, i ≠ id → w'.document i = w.document i

/-- A failure: the document is related by `R`, or there is none. -/
def Failed (R : Document → Document → Prop) (w : EditorWorkspace) (id : DocumentId)
    (w' : EditorWorkspace) : Prop :=
  w.Touched R id w' ∨ w.document id = none ∧ w' = w

theorem document_congr (h : w''.documents = w'.documents) (i : DocumentId) :
    w''.document i = w'.document i := by
  unfold document
  rw [h]

theorem Touched.congr (h : w.Touched R id w') (hd : w''.documents = w'.documents) :
    w.Touched R id w'' := by
  obtain ⟨⟨d, d', hw, hw', hR⟩, ho⟩ := h
  exact ⟨⟨d, d', hw, (document_congr hd id).trans hw', hR⟩,
    fun i hi => (document_congr hd i).trans (ho i hi)⟩

theorem Touched.pin (h : w.Touched R id w') :
    wp (pin id) (fun _ => w.Touched R id) (fun _ _ => False) False w' := by
  obtain ⟨d, d', hw, hw', hR⟩ := h.document
  simp only [EditorWorkspace.pin, wp_bind, wp_get, wp_discard, wp_okOr, wp_modify]
  refine ⟨fun _ _ => h.congr rfl, fun hnone => ?_⟩
  rw [hw'] at hnone
  cases hnone

/-- A method of the document under `id`, from what it does to a document. -/
theorem Valid.touched {α : Type} {x : DocumentM α} (hv : w.Valid)
    (hid : ∀ d, d.history.Apart → wp x (fun _ d' => d'.id = d.id) (fun _ d' => d'.id = d.id) True d)
    (h : ∀ d, w.document id = some d → d.history.Apart →
      wp x (fun _ => R d) (fun _ => R' d) P d) :
    wp (EditorWorkspace.onDocument id x) (fun _ => w.Touched R id) (fun _ => w.Failed R' id) P
      w := by
  rw [wp_onDocument]
  refine ⟨fun d hd => ?_, fun hnone => .inr ⟨hnone, rfl⟩⟩
  have hapart := hv.apart d (mem_of_document hd).1
  have htouched : ∀ (S : Document → Document → Prop) (d' : Document), d'.id = d.id → S d d' →
      w.Touched S id { w with documents := replaceDocument id d' w.documents } := by
    intro S d' hd' hS
    have hdid := (mem_of_document hd).2
    refine ⟨⟨d, d', hd, ?_, hS⟩, fun i hi => ?_⟩
    · exact find?_replaceDocument_self (hd'.trans hdid) hd
    · exact find?_replaceDocument_other (hd'.trans hdid) hi
  refine wp_mono (wp_and (hid d hapart) (h d hd hapart)) ?_ ?_ And.right
  · rintro a d' ⟨hd', hR⟩
    exact htouched R d' hd' hR
  · rintro e d' ⟨hd', hR⟩
    exact .inl (htouched R' d' hd' hR)

theorem run_id (dop : DocumentOp) (d : Document) (ha : d.history.Apart) :
    wp dop.run (fun _ d' => d'.id = d.id) (fun _ d' => d'.id = d.id) True d := by
  refine wp_mono (d.run_spec ha dop) (fun _ _ he => effect_id he) (fun _ d' hr => ?_)
    fun _ => trivial
  obtain ⟨h', rfl⟩ := Document.refused_eq hr
  rfl

theorem Valid.touched_pinned (hv : w.Valid) (dop : DocumentOp)
    (h : ∀ d, w.document id = some d → d.history.Apart →
      wp dop.run (fun _ => R d) (fun _ => R' d) P d) :
    wp (do EditorWorkspace.onDocument id dop.run; EditorWorkspace.pin id)
      (fun _ => w.Touched R id) (fun _ => w.Failed R' id) P w := by
  rw [wp_bind]
  refine wp_mono (hv.touched (run_id dop) h) (fun _ _ ht => ?_) (fun _ _ hf => hf) fun hp => hp
  exact wp_mono ht.pin (fun _ _ ht => ht) (fun _ _ => False.elim) False.elim

/-- What an operation of one document leaves, from what its method does to a document. -/
theorem Valid.run_touched (hv : w.Valid) (ht : op.target w = some (id, dop))
    (hop : op.opens = false) (h : ∀ d, w.document id = some d → d.history.Apart →
      wp dop.run (fun _ => R d) (fun _ => R' d) P d) :
    wp op.run (fun _ => w.Touched R id) (fun _ => w.Failed R' id) P w := by
  cases op with
  | openDocument path text diskRevision readOnly disposition => cases hop
  | edit i expected replacements kind cursorBefore cursorAfter =>
    obtain ⟨rfl, rfl⟩ := Prod.mk.inj (Option.some.inj ht)
    have hpinned : wp (do
        EditorWorkspace.onDocument i
          (DocumentOp.edit expected replacements kind cursorBefore cursorAfter).run
        EditorWorkspace.pin i)
        (fun _ => w.Touched R i) (fun _ => w.Failed R' i) P w := hv.touched_pinned _ h
    simp only [EditorOp.run, wp_bind, wp_ofExcept]
    refine ⟨fun t hnew => ?_, fun e he => ?_⟩
    · have hrun : (DocumentOp.edit expected replacements kind cursorBefore cursorAfter).run =
          Document.edit t kind cursorBefore cursorAfter := by
        cases hx : EditTransaction.new expected replacements with
        | ok t' =>
          rw [hx] at hnew
          cases hnew
          simp only [DocumentOp.run, hx]
          rfl
        | error e => rw [hx] at hnew; cases hnew
      rw [hrun] at hpinned
      exact hpinned
    · cases hd : w.document i with
      | none => exact .inr ⟨hd, rfl⟩
      | some d =>
        have hspec := h d hd (hv.apart d (mem_of_document hd).1)
        simp only [DocumentOp.run, wp_bind, wp_ofExcept] at hspec
        refine .inl ⟨⟨d, d, hd, hd, ?_⟩, fun _ _ => rfl⟩
        cases hx : EditTransaction.new expected replacements with
        | ok t' => rw [hx] at he; cases he
        | error e' =>
          rw [hx] at hspec
          exact hspec.2 _ rfl
  | undo i =>
    obtain ⟨rfl, rfl⟩ := Prod.mk.inj (Option.some.inj ht)
    exact hv.touched_pinned .undo h
  | redo i =>
    obtain ⟨rfl, rfl⟩ := Prod.mk.inj (Option.some.inj ht)
    exact hv.touched_pinned .redo h
  | completeSave i expected diskRevision =>
    obtain ⟨rfl, rfl⟩ := Prod.mk.inj (Option.some.inj ht)
    exact hv.touched (run_id (.completeSave expected diskRevision)) h
  | markRecovered i =>
    obtain ⟨rfl, rfl⟩ := Prod.mk.inj (Option.some.inj ht)
    exact hv.touched_pinned .markRecovered h
  | observeDiskChange i expected diskRevision text =>
    obtain ⟨rfl, rfl⟩ := Prod.mk.inj (Option.some.inj ht)
    simp only [EditorOp.run, EditorWorkspace.observeDiskChange, wp_bind, wp_get, wp_ite, wp_pure]
    refine wp_mono (hv.touched (run_id (.observeDiskChange expected diskRevision text)) h)
      (fun _ _ ht => ⟨fun _ => ?_, fun _ => ht⟩) (fun _ _ hf => hf) fun hp => hp
    exact wp_mono ht.pin (fun _ _ ht => ht) (fun _ _ => False.elim) False.elim
  | observeMissing i expected =>
    obtain ⟨rfl, rfl⟩ := Prod.mk.inj (Option.some.inj ht)
    exact hv.touched_pinned (.observeMissing expected) h
  | reloadFromDisk i =>
    obtain ⟨rfl, rfl⟩ := Prod.mk.inj (Option.some.inj ht)
    exact hv.touched_pinned .reloadFromDisk h
  | keepEditing i =>
    obtain ⟨rfl, rfl⟩ := Prod.mk.inj (Option.some.inj ht)
    exact hv.touched_pinned .keepEditing h
  | restoreRecovery i text =>
    obtain ⟨rfl, rfl⟩ := Prod.mk.inj (Option.some.inj ht)
    exact hv.touched_pinned (.restoreRecovery text) h
  | select | pinDocument | requestClose | resolveClose | elsewhere => cases ht

/-! ## Documents that close -/

theorem document_remove (hv : w.Valid) (id i : DocumentId) :
    (w.remove id).document i = if i = id then none else w.document i := by
  unfold remove
  cases hx : w.documents.findIdx? (·.id = id) with
  | none =>
    dsimp only
    split
    · next hi =>
      rw [hi]
      unfold document
      rw [List.find?_eq_none]
      exact fun d hd => by simpa using List.findIdx?_eq_none_iff.mp hx d hd
    · rfl
  | some index =>
    unfold document
    dsimp only
    split
    · next hi =>
      rw [hi]
      exact find?_eraseIdx_self hv.nodup hx
    · next hi => exact find?_eraseIdx_other hx hi

theorem Valid.remove (hv : w.Valid) (id : DocumentId) : (w.remove id).Valid := by
  have hstepped : w.Stepped (.resolveClose id .discard) (w.remove id) :=
    hv.removed fun _ _ => .inl rfl
  exact hstepped.valid

/-- A method that starts by looking a document up. -/
theorem exec_lookup {α : Type} (id : DocumentId) (x : Document → EditorM α) :
    (do let d ← okOr (.documentNotFound id) ((← get).document id); x d : EditorM α).exec w =
      match w.document id with
      | none => some (.error (.documentNotFound id), w)
      | some d => (x d).exec w := by
  rw [exec_bind]
  simp only [show (get : EditorM EditorWorkspace).exec w = some (.ok w, w) from rfl, exec_bind]
  cases w.document id <;> rfl

theorem exec_requestClose (w : EditorWorkspace) (id : DocumentId) :
    (requestClose id).exec w = some (match w.document id with
      | none => (.error (.documentNotFound id), w)
      | some d =>
        if d.isRecoverable then (.ok .needsDecision, w) else (.ok .closed, w.remove id)) := by
  unfold requestClose
  rw [exec_lookup]
  cases w.document id with
  | none => rfl
  | some d =>
    by_cases hr : d.isRecoverable
    · simp only [hr, if_true]
      rfl
    · simp only [hr, Bool.false_eq_true, if_false]
      rfl

theorem exec_resolveClose (w : EditorWorkspace) (id : DocumentId) (decision : CloseDecision) :
    (resolveClose id decision).exec w = some (match w.document id with
      | none => (.error (.documentNotFound id), w)
      | some _ => match decision with
        | .cancel => (.ok .cancelled, w)
        | .save => (.ok .saveRequired, w)
        | .discard => (.ok .closed, w.remove id)) := by
  unfold resolveClose
  rw [exec_bind]
  simp only [show (get : EditorM EditorWorkspace).exec w = some (.ok w, w) from rfl, exec_bind]
  cases w.document id with
  | none => rfl
  | some d => cases decision <;> rfl

/-! ## Documents that open -/

/-- The preview that a document of this disposition takes the place of. -/
def replacedPreview (w : EditorWorkspace) (disposition : OpenDisposition) : Option DocumentId :=
  if disposition = .preview then
    w.preview.filter fun id => (w.document id).any (·.isPreviewReplaceable)
  else none

theorem document_clearReplaceablePreview (hv : w.Valid) (i : DocumentId) :
    w.clearReplaceablePreview.document i =
      if w.replacedPreview .preview = some i then none else w.document i := by
  unfold clearReplaceablePreview replacedPreview
  cases hp : w.preview with
  | none => simp
  | some id =>
    have hv' : ({ w with preview := none } : EditorWorkspace).Valid :=
      ⟨hv.nodup, hv.counted, hv.apart⟩
    have hdoc : ∀ j, ({ w with preview := none } : EditorWorkspace).document j = w.document j :=
      fun _ => rfl
    by_cases ha : (w.document id).any (·.isPreviewReplaceable)
    · simp only [if_true, Option.filter_some, hdoc, ha]
      rw [document_remove hv', hdoc]
      simp only [Option.some.injEq, eq_comm]
    · have hf : (some id).filter (fun id => (w.document id).any (·.isPreviewReplaceable)) =
          none := by
        rw [Option.filter_some, if_neg ha]
      rw [if_pos rfl, hf]
      simp [hdoc, ha]

theorem document_of_mem (hv : w.Valid) {d : Document} (hd : d ∈ w.documents) :
    w.document d.id = some d := by
  unfold document
  have hn := hv.nodup
  generalize w.documents = ds at hd hn
  induction ds with
  | nil => cases hd
  | cons e ds ih =>
    rw [List.map_cons, List.nodup_cons] at hn
    rw [List.find?_cons]
    rcases List.mem_cons.mp hd with rfl | hd
    · simp
    · have hne : e.id ≠ d.id := fun he => hn.1 (he ▸ List.mem_map_of_mem hd)
      simp only [hne, decide_false]
      exact ih hd hn.2

end EditorWorkspace

/-- The document after `upgrade_read_only`, where it is called. -/
def Document.reopened (d : Document) (text : String) (diskRevision : DiskRevision)
    (readOnly : Bool) : Document :=
  if readOnly = false ∧ d.readOnly then
    { d with
      buffer := .new text
      history := .standard
      savedText := text.toList
      diskRevision := diskRevision
      status := .clean
      readOnly := false }
  else d

namespace EditorWorkspace

variable {w w' w'' : EditorWorkspace} {id : DocumentId}

/-- What `openDocument` leaves: an open document that is read again, or a new one. -/
inductive Opened (w : EditorWorkspace) (path : RelativeDocumentPath) (text : String)
    (diskRevision : DiskRevision) (readOnly : Bool) (disposition : OpenDisposition)
    (id : DocumentId) (w' : EditorWorkspace) : Prop where
  | again (d : Document) (hpath : w.documents.find? (·.path = path) = some d)
      (hid : w.document id = some d)
      (hd : w'.document id = some (d.reopened text diskRevision readOnly))
      (others : ∀ i, i ≠ id → w'.document i = w.document i)
  | new (hpath : w.documents.find? (·.path = path) = none) (hid : w.document id = none)
      (hd : w'.document id = some (.new id path text diskRevision readOnly))
      (others : ∀ i, i ≠ id → w'.document i =
        if w.replacedPreview disposition = some i then none else w.document i)

theorem Opened.congr {path : RelativeDocumentPath} {text : String} {diskRevision : DiskRevision}
    {readOnly : Bool} {disposition : OpenDisposition}
    (h : w.Opened path text diskRevision readOnly disposition id w')
    (hd : w''.documents = w'.documents) :
    w.Opened path text diskRevision readOnly disposition id w'' := by
  cases h with
  | again d hpath hid hdoc ho =>
    exact .again d hpath hid ((document_congr hd id).trans hdoc)
      fun i hi => (document_congr hd i).trans (ho i hi)
  | new hpath hid hdoc ho =>
    exact .new hpath hid ((document_congr hd id).trans hdoc)
      fun i hi => (document_congr hd i).trans (ho i hi)

/-- A document is opened behind the others, after the preview has gone or not. -/
theorem opened_new (hv : w.Valid) {path : RelativeDocumentPath}
    (hpath : w.documents.find? (·.path = path) = none) {disposition : OpenDisposition}
    {w₁ : EditorWorkspace} (hv₁ : w₁.Valid) (hn : w₁.nextDocumentId = w.nextDocumentId)
    (hdoc : ∀ i, w₁.document i =
      if w.replacedPreview disposition = some i then none else w.document i)
    {text : String} {diskRevision : DiskRevision} {readOnly : Bool}
    {active preview : Option DocumentId} {n : Nat} :
    w.Opened path text diskRevision readOnly disposition ⟨w₁.nextDocumentId⟩
      { documents := w₁.documents ++ [.new ⟨w₁.nextDocumentId⟩ path text diskRevision readOnly]
        active := active
        preview := preview
        nextDocumentId := n } := by
  have hfresh : ∀ w₂ : EditorWorkspace, w₂.Valid → w₂.document ⟨w₂.nextDocumentId⟩ = none := by
    intro w₂ hv₂
    cases hd : w₂.document ⟨w₂.nextDocumentId⟩ with
    | none => rfl
    | some d =>
      obtain ⟨hmem, hid⟩ := mem_of_document hd
      have hlt := hv₂.counted d hmem
      rw [hid] at hlt
      exact absurd hlt (lt_irrefl _)
  have hlast := hfresh w₁ hv₁
  refine .new hpath (hn ▸ hfresh w hv) ?_ fun i hi => ?_
  · unfold document at hlast ⊢
    rw [List.find?_append, hlast]
    simp [Document.new]
  · rw [← hdoc i]
    unfold document
    rw [List.find?_append]
    have hne : ¬(⟨w₁.nextDocumentId⟩ : DocumentId) = i := fun h => hi h.symm
    simp [Document.new, hne]

theorem Valid.opened (hv : w.Valid) (path : RelativeDocumentPath) (text : String)
    (diskRevision : DiskRevision) (readOnly : Bool) (disposition : OpenDisposition) :
    wp (EditorWorkspace.openDocument path text diskRevision readOnly disposition)
      (fun id => w.Opened path text diskRevision readOnly disposition id) (fun _ _ => False) False
      w := by
  simp only [EditorWorkspace.openDocument, wp_bind, wp_get]
  cases hpath : w.documents.find? (·.path = path) with
  | some d =>
    have hd := document_of_mem hv (List.mem_of_find?_eq_some hpath)
    simp only [Option.map_some, wp_bind, wp_ite, wp_modify, wp_pure]
    have hpin : ∀ w₁ : EditorWorkspace,
        w.Opened path text diskRevision readOnly disposition d.id w₁ → ∀ o : Option DocumentId,
        wp (pin d.id) (fun _ => w.Opened path text diskRevision readOnly disposition d.id)
          (fun _ _ => False) False { w₁ with active := o } := by
      intro w₁ ho o
      have hw₁ : (w₁.document d.id).isSome := by
        cases ho with
        | again _ _ _ h _ => rw [h]; rfl
        | new _ _ h _ => rw [h]; rfl
      simp only [EditorWorkspace.pin, wp_bind, wp_get, wp_discard, wp_okOr, wp_modify]
      refine ⟨fun _ _ => ho.congr rfl, fun hnone => ?_⟩
      have hsame : document { w₁ with active := o } d.id = w₁.document d.id := rfl
      rw [hsame] at hnone
      rw [hnone] at hw₁
      cases hw₁
    refine ⟨fun hro => ?_, fun hro => ⟨fun _ => ?_, fun _ => ?_⟩⟩
    · rw [wp_onDocument]
      refine ⟨fun e he => ?_, fun hnone => ?_⟩
      · obtain rfl := Option.some.inj (hd.symm.trans he)
        let ds := replaceDocument d.id (d.reopened text diskRevision readOnly) w.documents
        have hopened : w.Opened path text diskRevision readOnly disposition d.id
            { w with documents := ds } := by
          have hrid : (d.reopened text diskRevision readOnly).id = d.id := by
            unfold Document.reopened
            split <;> rfl
          exact .again d hpath hd (find?_replaceDocument_self hrid hd)
            fun i hi => find?_replaceDocument_other hrid hi
        have hmodel : (if d.readOnly = false then d else
            { d with
              buffer := .new text
              history := .standard
              savedText := text.toList
              diskRevision := diskRevision
              status := .clean
              readOnly := false }) = d.reopened text diskRevision readOnly := by
          unfold Document.reopened
          cases d.readOnly <;> simp [hro]
        rw [Document.upgradeReadOnly, wp_modify, hmodel]
        exact ⟨fun _ => hpin _ hopened _, fun _ => hopened.congr rfl⟩
      · rw [hd] at hnone
        cases hnone
    · have hopened : w.Opened path text diskRevision readOnly disposition d.id w := by
        refine .again d hpath hd ?_ fun _ _ => rfl
        rw [hd, Document.reopened, if_neg fun h => hro h.1]
      exact hpin _ hopened _
    · have hopened : w.Opened path text diskRevision readOnly disposition d.id w := by
        refine .again d hpath hd ?_ fun _ _ => rfl
        rw [hd, Document.reopened, if_neg fun h => hro h.1]
      exact hopened.congr rfl
  | none =>
    simp only [Option.map_none, wp_bind, wp_ite, wp_modify, wp_get, wp_pure]
    refine ⟨fun hdisp => ?_, fun hdisp => ?_⟩
    · have hcleared : w.Stepped .elsewhere w.clearReplaceablePreview := hv.cleared
      refine opened_new hv hpath hcleared.valid w.clearReplaceablePreview_next fun i => ?_
      rw [hdisp]
      exact document_clearReplaceablePreview hv i
    · refine opened_new hv hpath hv rfl fun i => ?_
      rw [replacedPreview, if_neg hdisp]
      simp

end EditorWorkspace
end Strukt
