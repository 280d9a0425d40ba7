import Strukt.Editor.Document
import Strukt.Editor.HistorySpec

/-!
# What the operations of a document do

`DocumentOp.Effect` is the document that each operation leaves when it succeeds, and
`DocumentOp.Refused` the one that it leaves when it fails; `run_spec` derives both from the text of
the operations. What holds over whole runs is proved from them.

* **Apart**: the edits that a history keeps have ranges that do not overlap, whatever the revision,
  so that the buffer makes them whole or not at all.
* **Refused** operations change nothing, except that an undo or redo that the buffer refuses has
  moved its entry.
-/

namespace Strukt

open Method EditTransaction

/-- What the users of a document call. -/
inductive DocumentOp where
  | upgradeReadOnly (text : String) (diskRevision : DiskRevision)
  | edit (expected : Revision) (replacements : List Replacement) (kind : EditKind)
      (cursorBefore cursorAfter : Nat)
  | undo
  | redo
  | completeSave (expected : Revision) (diskRevision : DiskRevision)
  | observeDiskChange (expected : Revision) (diskRevision : DiskRevision) (diskText : String)
  | observeMissing (expected : Revision)
  | reloadFromDisk
  | keepEditing
  | markRecovered
  | restoreRecovery (text : String)
  deriving DecidableEq

def DocumentOp.run : DocumentOp → DocumentM Unit
  | .upgradeReadOnly text diskRevision => Document.upgradeReadOnly text diskRevision
  | .edit expected replacements kind cursorBefore cursorAfter => do
    let transaction ← ofExcept
      ((EditTransaction.new expected replacements).mapError DocumentError.transaction)
    Document.edit transaction kind cursorBefore cursorAfter
  | .undo => Document.undo
  | .redo => Document.redo
  | .completeSave expected diskRevision => Document.completeSave expected diskRevision
  | .observeDiskChange expected diskRevision diskText =>
    Document.observeDiskChange expected diskRevision diskText
  | .observeMissing expected => Document.observeMissing expected
  | .reloadFromDisk => Document.reloadFromDisk
  | .keepEditing => Document.keepEditing
  | .markRecovered => Document.markRecovered
  | .restoreRecovery text => Document.restoreRecovery text

/-! ## Histories without overlaps -/

/-- The ranges of the edit, and those of its inverse, do not overlap. -/
def HistoryEntry.Apart (e : HistoryEntry) : Prop :=
  overlaps e.forward.replacements = false ∧ overlaps e.inverse.replacements = false

/-- Every entry to undo or to redo is apart. -/
def History.Apart (h : History) : Prop :=
  (∀ e ∈ h.undoEntries, e.Apart) ∧ ∀ e ∈ h.redoEntries, e.Apart

namespace History

variable {h h' : History} {entry : HistoryEntry} {revision : Revision} {t : EditTransaction}

theorem apart_standard : standard.Apart := ⟨by simp [standard, new], by simp [standard, new]⟩

theorem Apart.enforceBudget (ha : h.Apart) : h.enforceBudget.Apart := by
  obtain ⟨n, bytes, he⟩ := h.enforceBudget_eq
  rw [he]
  exact ⟨fun e h => ha.1 e (List.mem_of_mem_drop h), ha.2⟩

/-- A merged entry has one range each way. -/
theorem apart_of_coalesce {previous next merged : HistoryEntry}
    (hc : coalesceTyping previous next = some merged) : merged.Apart := by
  unfold coalesceTyping at hc
  split at hc
  · cases hc
  split at hc
  swap
  · cases hc
  split at hc
  · cases hc
  cases hc
  exact ⟨rfl, rfl⟩

theorem Apart.record (ha : h.Apart) (he : entry.Apart) : (h.record entry).Apart := by
  rw [History.record]
  refine Apart.enforceBudget ⟨fun e hmem => ?_, fun e hmem => absurd hmem List.not_mem_nil⟩
  dsimp only at hmem
  split at hmem
  · rename_i merged hmerged
    rcases List.mem_append.mp hmem with hmem | hmem
    · exact ha.1 e (List.mem_of_mem_dropLast hmem)
    · obtain ⟨previous, -, hmerged⟩ := Option.bind_eq_some_iff.mp hmerged
      rw [List.mem_singleton.mp hmem]
      exact apart_of_coalesce hmerged
  · rcases List.mem_append.mp hmem with hmem | hmem
    · exact ha.1 e hmem
    · rw [List.mem_singleton.mp hmem]
      exact he

/-- What an undo pops does not overlap, and moves to the redos. -/
theorem Apart.undo (ha : h.Apart) :
    wp (undo revision) (fun t h' => overlaps t.replacements = false ∧ h'.Apart)
      (fun _ h' => h' = h) False h := by
  simp only [History.undo, wp_bind, wp_get, wp_okOr, wp_set, wp_pure]
  refine ⟨fun e he => ?_, fun _ => trivial⟩
  have hapart : e.Apart := ha.1 e (List.mem_of_getLast? he)
  refine ⟨hapart.2, fun e' hmem => ha.1 e' (List.mem_of_mem_dropLast hmem), fun e' hmem => ?_⟩
  rcases List.mem_append.mp hmem with hmem | hmem
  · exact ha.2 e' hmem
  · rw [List.mem_singleton.mp hmem]
    exact hapart

theorem Apart.redo (ha : h.Apart) :
    wp (redo revision) (fun t h' => overlaps t.replacements = false ∧ h'.Apart)
      (fun _ h' => h' = h) False h := by
  simp only [History.redo, wp_bind, wp_get, wp_okOr, wp_set, wp_pure]
  refine ⟨fun e he => ?_, fun _ => trivial⟩
  have hapart : e.Apart := ha.2 e (List.mem_of_getLast? he)
  refine ⟨hapart.1, Apart.enforceBudget
    ⟨fun e' hmem => ?_, fun e' hmem => ha.2 e' (List.mem_of_mem_dropLast hmem)⟩⟩
  rcases List.mem_append.mp hmem with hmem | hmem
  · exact ha.1 e' hmem
  · rw [List.mem_singleton.mp hmem]
    exact hapart

theorem moves_apart {e : HistoryEntry} {before after : Rope} (h : e.Moves before after) :
    e.Apart := by
  obtain ⟨hback, -⟩ := Splice.spliceAll_inverse h.ordered
  rw [← h.inverse] at hback
  exact ⟨(ordered_zero_iff.mp h.ordered).1, (ordered_zero_iff.mp hback).1⟩

theorem Walks.apart {past future : List Rope} {present : Rope}
    (hw : h.Walks past present future) : h.Apart := by
  refine ⟨fun e he => ?_, fun e he => ?_⟩
  · obtain ⟨before, after, hmoves⟩ := hw.undone.moves (List.mem_reverse.mpr he)
    exact moves_apart hmoves
  · obtain ⟨before, after, hmoves⟩ := hw.redone.moves (List.mem_reverse.mpr he)
    exact moves_apart hmoves

end History

/-- Both ways of an edit that was made are apart. -/
theorem TextBuffer.Edited.apart {b b' : TextBuffer} {t : EditTransaction} {a : AppliedTransaction}
    (h : TextBuffer.Edited b t a b') (kind : EditKind) (cursorBefore cursorAfter : Nat) :
    (HistoryEntry.fromApplied t a kind cursorBefore cursorAfter).Apart :=
  History.moves_apart (HistoryEntry.moves_fromApplied h kind cursorBefore cursorAfter)

namespace Document

variable {d d' : Document} {t : EditTransaction} {kind : EditKind} {cursorBefore cursorAfter : Nat}

/-- The document with its status compared anew. -/
def refreshed (d : Document) : Document :=
  match d.status with
  | .clean | .dirty => { d with status := if d.buffer.text = d.savedText then .clean else .dirty }
  | _ => d

theorem refreshed_eq (d : Document) : d.refreshed = { d with status := d.refreshed.status } := by
  unfold refreshed
  split <;> rfl

@[simp] theorem refreshed_id : d.refreshed.id = d.id := by rw [refreshed_eq]

@[simp] theorem refreshed_path : d.refreshed.path = d.path := by rw [refreshed_eq]

@[simp] theorem refreshed_buffer : d.refreshed.buffer = d.buffer := by rw [refreshed_eq]

@[simp] theorem refreshed_history : d.refreshed.history = d.history := by rw [refreshed_eq]

@[simp] theorem refreshed_savedText : d.refreshed.savedText = d.savedText := by rw [refreshed_eq]

/-- A refreshed document is clean only with the text that was saved. -/
theorem refreshed_clean (h : d.refreshed.status = .clean) : d.buffer.text = d.savedText := by
  unfold refreshed at h
  split at h
  · dsimp only at h
    split at h
    · assumption
    · cases h
  · dsimp only at h
    split at h
    · assumption
    · cases h
  · rename_i hne _
    exact absurd h hne

/-- The transaction that replaces the whole text. -/
def whole (d : Document) (text : String) : EditTransaction :=
  ⟨d.buffer.revision, [⟨⟨0, d.buffer.text.length⟩, text⟩]⟩

theorem Edited.whole {text : String} {a : AppliedTransaction} {b' : TextBuffer}
    (h : TextBuffer.Edited d.buffer (d.whole text) a b') : b'.text = text.toList := by
  rw [h.text]
  simp [Document.whole, splices, Replacement.toSplice, Splice.spliceAll, Splice.splice]

end Document

/-! ## Effects -/

namespace DocumentOp

/-- The documents before and after a success. -/
def Effect (d : Document) : DocumentOp → Document → Prop
  | .upgradeReadOnly text diskRevision, d' =>
    d' = if d.readOnly = false then d else
      { d with
        buffer := .new text
        history := .standard
        savedText := text.toList
        diskRevision := diskRevision
        status := .clean
        readOnly := false }
  | .edit expected replacements kind cursorBefore cursorAfter, d' =>
    d.readOnly = false ∧ ∃ t a b', EditTransaction.new expected replacements = .ok t ∧
      (TextBuffer.apply t).exec d.buffer = some (.ok a, b') ∧ TextBuffer.Edited d.buffer t a b' ∧
      d' = ({ d with
        buffer := b'
        history := d.history.record (.fromApplied t a kind cursorBefore cursorAfter) } :
          Document).refreshed
  | .undo, d' => ∃ t h' a b', (History.undo d.buffer.revision).exec d.history = some (.ok t, h') ∧
      TextBuffer.Edited d.buffer t a b' ∧
      d' = ({ d with buffer := b', history := h' } : Document).refreshed
  | .redo, d' => ∃ t h' a b', (History.redo d.buffer.revision).exec d.history = some (.ok t, h') ∧
      TextBuffer.Edited d.buffer t a b' ∧
      d' = ({ d with buffer := b', history := h' } : Document).refreshed
  | .completeSave expected diskRevision, d' => expected = d.buffer.revision ∧
      d' = { d with
        savedText := d.buffer.text
        diskRevision := diskRevision
        status := .clean
        recovered := false }
  | .observeDiskChange expected diskRevision diskText, d' => expected = d.buffer.revision ∧
      if d.status = .clean then
        ∃ a b', TextBuffer.Edited d.buffer (d.whole diskText) a b' ∧
          d' = { d with
            buffer := b'
            history := .standard
            savedText := diskText.toList
            diskRevision := diskRevision
            status := .clean }
      else d' = { d with status := .conflict diskRevision diskText }
  | .observeMissing expected, d' => expected = d.buffer.revision ∧ d' = { d with status := .missing }
  | .reloadFromDisk, d' => ∃ diskRevision diskText, d.status = .conflict diskRevision diskText ∧
      ∃ a b', TextBuffer.Edited d.buffer (d.whole diskText) a b' ∧
        d' = { d with
          buffer := b'
          history := d.history.record (.fromApplied (d.whole diskText) a .other 0 0)
          savedText := diskText.toList
          diskRevision := diskRevision
          status := .clean
          recovered := false }
  | .keepEditing, d' => (∃ diskRevision diskText, d.status = .conflict diskRevision diskText) ∧
      d' = { d with status := .dirty }
  | .markRecovered, d' =>
    d' = { d with recovered := true, status := if d.status = .clean then .dirty else d.status }
  | .restoreRecovery text, d' =>
    if d.buffer.text = text.toList then
      d' = { d with recovered := true, status := if d.status = .clean then .dirty else d.status }
    else
      ∃ a b', TextBuffer.Edited d.buffer (d.whole text) a b' ∧
        d' = { d with
          buffer := b'
          history := .standard
          recovered := true
          status := if d.status = .clean then .dirty else d.status }

/-- The documents before and after a failure. -/
def Refused (d : Document) : DocumentOp → Document → Prop
  | .undo, d' => d' = d ∨ ∃ t h',
      (History.undo d.buffer.revision).exec d.history = some (.ok t, h') ∧ ¬d.buffer.Admits t ∧
      d' = { d with history := h' }
  | .redo, d' => d' = d ∨ ∃ t h',
      (History.redo d.buffer.revision).exec d.history = some (.ok t, h') ∧ ¬d.buffer.Admits t ∧
      d' = { d with history := h' }
  | _, d' => d' = d

end DocumentOp

namespace Document

variable {d : Document} {t : EditTransaction}

/-! ## The parts -/

theorem wp_applyBuffer (hover : overlaps t.replacements = false) :
    wp (applyBuffer t)
      (fun a d' => ∃ b', d' = { d with buffer := b' } ∧ TextBuffer.Edited d.buffer t a b' ∧
        (TextBuffer.apply t).exec d.buffer = some (.ok a, b'))
      (fun _ d' => d' = d ∧ ¬d.buffer.Admits t) (¬d.buffer.Admits t) d := by
  rw [applyBuffer, wp_focus]
  refine wp_mono (wp_and (TextBuffer.apply_spec hover) (wp_self _ d.buffer)) ?_ ?_ fun h => h.1.1
  · rintro a b' ⟨⟨-, he⟩, hx⟩
    exact ⟨b', rfl, he, hx⟩
  · rintro e b' ⟨⟨rfl, hno⟩, -⟩
    exact ⟨rfl, hno⟩

@[simp] theorem wp_refreshDirtyStatus {Q : Unit → Document → Prop}
    {E : DocumentError → Document → Prop} {P : Prop} :
    wp refreshDirtyStatus (fun u => Q u) E P d ↔ Q () d.refreshed := Iff.rfl

@[simp] theorem wp_replaceAll {text : String} {Q : EditTransaction → Document → Prop}
    {E : DocumentError → Document → Prop} {P : Prop} :
    wp (replaceAll text) Q E P d ↔ Q (d.whole text) d := by
  have hnew : EditTransaction.new d.buffer.revision [⟨⟨0, d.buffer.text.length⟩, text⟩] =
      .ok (d.whole text) := rfl
  simp only [replaceAll, wp_bind, wp_get, wp_ofExcept, hnew, Except.mapError]
  exact ⟨fun h => h.1 _ rfl, fun h => ⟨fun t ht => Except.ok.inj ht ▸ h, fun e he => by cases he⟩⟩

/-! ## The operations -/

open DocumentOp

variable (d)

theorem edit_spec (expected : Revision) (replacements : List Replacement) (kind : EditKind)
    (cursorBefore cursorAfter : Nat) :
    wp (DocumentOp.edit expected replacements kind cursorBefore cursorAfter).run
      (fun _ => Effect d (.edit expected replacements kind cursorBefore cursorAfter))
      (fun _ d' => d' = d) True d := by
  simp only [DocumentOp.run, wp_bind, wp_ofExcept]
  refine ⟨fun t ht => ?_, fun _ _ => trivial⟩
  have hnew : EditTransaction.new expected replacements = .ok t := by
    cases hx : EditTransaction.new expected replacements with
    | ok t' => rw [hx] at ht; cases ht; rfl
    | error e => rw [hx] at ht; cases ht
  obtain ⟨-, -, hover⟩ := new_eq_ok hnew
  simp only [Document.edit, wp_bind, wp_get, wp_ensure]
  refine ⟨fun hro => ?_, fun _ => trivial⟩
  refine wp_mono (wp_applyBuffer hover) ?_ (fun _ _ h => h.1) fun _ => trivial
  rintro a _ ⟨b', rfl, he, hx⟩
  exact ⟨hro, t, a, b', hnew, hx, he, rfl⟩

theorem undo_effect (ha : d.history.Apart) :
    wp undo (fun _ => Effect d .undo) (fun _ => Refused d .undo) True d := by
  simp only [undo, wp_bind, wp_get, onHistory, wp_focus, wp_discard]
  refine wp_mono (wp_and ha.undo (wp_self _ _)) ?_ (fun _ h' h => .inl ?_) fun _ => trivial
  · rintro t h' ⟨⟨hover, -⟩, hx⟩
    refine wp_mono (wp_applyBuffer hover) ?_ ?_ fun _ => trivial
    · rintro a _ ⟨b', rfl, he, -⟩
      exact ⟨t, h', a, b', hx, he, rfl⟩
    · rintro e _ ⟨rfl, hno⟩
      exact .inr ⟨t, h', hx, hno, rfl⟩
  · rw [h.1]

theorem redo_effect (ha : d.history.Apart) :
    wp redo (fun _ => Effect d .redo) (fun _ => Refused d .redo) True d := by
  simp only [redo, wp_bind, wp_get, onHistory, wp_focus, wp_discard]
  refine wp_mono (wp_and ha.redo (wp_self _ _)) ?_ (fun _ h' h => .inl ?_) fun _ => trivial
  · rintro t h' ⟨⟨hover, -⟩, hx⟩
    refine wp_mono (wp_applyBuffer hover) ?_ ?_ fun _ => trivial
    · rintro a _ ⟨b', rfl, he, -⟩
      exact ⟨t, h', a, b', hx, he, rfl⟩
    · rintro e _ ⟨rfl, hno⟩
      exact .inr ⟨t, h', hx, hno, rfl⟩
  · rw [h.1]

theorem observeDiskChange_spec (expected : Revision) (diskRevision : DiskRevision)
    (diskText : String) :
    wp (observeDiskChange expected diskRevision diskText)
      (fun _ => Effect d (.observeDiskChange expected diskRevision diskText))
      (fun _ d' => d' = d) True d := by
  simp only [observeDiskChange, ensureRevision, wp_bind, wp_get, wp_ensure, wp_ite, wp_modify,
    wp_replaceAll, wp_discard, Effect]
  refine ⟨fun hrev => ⟨fun hclean => ?_, fun hclean => ?_⟩, fun _ => trivial⟩
  · refine wp_mono (wp_applyBuffer rfl) ?_ (fun _ _ h => h.1) fun _ => trivial
    rintro a _ ⟨b', rfl, he, -⟩
    rw [if_pos hclean]
    exact ⟨hrev, a, b', he, rfl⟩
  · rw [if_neg hclean]
    exact ⟨hrev, trivial⟩

theorem reloadFromDisk_spec :
    wp reloadFromDisk (fun _ => Effect d .reloadFromDisk) (fun _ d' => d' = d) True d := by
  simp only [reloadFromDisk, wp_bind, wp_get]
  cases hs : d.status with
  | conflict diskRevision diskText =>
    simp only [wp_bind, wp_replaceAll]
    refine wp_mono (wp_applyBuffer rfl) ?_ (fun _ _ h => h.1) fun _ => trivial
    rintro a _ ⟨b', rfl, he, -⟩
    exact ⟨diskRevision, diskText, hs, a, b', he, rfl⟩
  | clean => exact rfl
  | dirty => exact rfl
  | missing => exact rfl

theorem restoreRecovery_spec (text : String) :
    wp (restoreRecovery text) (fun _ => Effect d (.restoreRecovery text)) (fun _ d' => d' = d) True
      d := by
  simp only [restoreRecovery, wp_bind, wp_get, wp_ite, wp_replaceAll, wp_discard]
  refine ⟨fun hne => ?_, fun heq => ?_⟩
  · refine wp_mono (wp_applyBuffer rfl) ?_ (fun _ _ h => h.1) fun _ => trivial
    rintro a _ ⟨b', rfl, he, -⟩
    show Effect d (.restoreRecovery text) _
    rw [Effect, if_neg hne]
    exact ⟨a, b', he, rfl⟩
  · show Effect d (.restoreRecovery text) _
    rw [Effect, if_pos (not_not.mp heq)]

/-- What an operation on a document does. -/
theorem run_spec (ha : d.history.Apart) (op : DocumentOp) :
    wp op.run (fun _ => op.Effect d) (fun _ => op.Refused d) True d := by
  cases op with
  | upgradeReadOnly text diskRevision => exact rfl
  | edit expected replacements kind cursorBefore cursorAfter => exact d.edit_spec _ _ _ _ _
  | undo => exact d.undo_effect ha
  | redo => exact d.redo_effect ha
  | completeSave expected diskRevision =>
    simp only [DocumentOp.run, completeSave, ensureRevision, wp_bind, wp_get, wp_ensure, wp_modify]
    exact ⟨fun hrev => ⟨hrev, rfl⟩, fun _ => rfl⟩
  | observeDiskChange expected diskRevision diskText => exact d.observeDiskChange_spec _ _ _
  | observeMissing expected =>
    simp only [DocumentOp.run, observeMissing, ensureRevision, wp_bind, wp_get, wp_ensure,
      wp_modify]
    exact ⟨fun hrev => ⟨hrev, rfl⟩, fun _ => rfl⟩
  | reloadFromDisk => exact d.reloadFromDisk_spec
  | keepEditing =>
    simp only [DocumentOp.run, keepEditing, wp_bind, wp_get]
    cases hs : d.status with
    | conflict diskRevision diskText => exact ⟨⟨diskRevision, diskText, hs⟩, rfl⟩
    | clean => exact rfl
    | dirty => exact rfl
    | missing => exact rfl
  | markRecovered => exact rfl
  | restoreRecovery text => exact d.restoreRecovery_spec text

variable {d} {d' : Document} {op : DocumentOp}

/-- The history stays without overlaps. -/
theorem apart_of_effect (ha : d.history.Apart) (he : op.Effect d d') : d'.history.Apart := by
  cases op with
  | upgradeReadOnly text diskRevision =>
    subst he
    split
    · exact ha
    · exact History.apart_standard
  | edit expected replacements kind cursorBefore cursorAfter =>
    obtain ⟨-, t, a, b', -, -, hedited, rfl⟩ := he
    rw [refreshed_history]
    exact ha.record (hedited.apart kind cursorBefore cursorAfter)
  | undo =>
    obtain ⟨t, h', a, b', hx, -, rfl⟩ := he
    rw [refreshed_history]
    exact (ha.undo.of_ok hx).2
  | redo =>
    obtain ⟨t, h', a, b', hx, -, rfl⟩ := he
    rw [refreshed_history]
    exact (ha.redo.of_ok hx).2
  | completeSave expected diskRevision =>
    obtain ⟨-, rfl⟩ := he
    exact ha
  | observeDiskChange expected diskRevision diskText =>
    obtain ⟨-, he⟩ := he
    split at he
    · obtain ⟨a, b', -, rfl⟩ := he
      exact History.apart_standard
    · subst he
      exact ha
  | observeMissing expected =>
    obtain ⟨-, rfl⟩ := he
    exact ha
  | reloadFromDisk =>
    obtain ⟨diskRevision, diskText, -, a, b', hedited, rfl⟩ := he
    exact ha.record (hedited.apart .other 0 0)
  | keepEditing =>
    obtain ⟨-, rfl⟩ := he
    exact ha
  | markRecovered =>
    subst he
    exact ha
  | restoreRecovery text =>
    simp only [Effect] at he
    split at he
    · subst he
      exact ha
    · obtain ⟨a, b', -, rfl⟩ := he
      exact History.apart_standard

/-- A failure leaves all but the history as it was. -/
theorem refused_eq (hr : op.Refused d d') : ∃ h', d' = { d with history := h' } := by
  cases op with
  | undo | redo =>
    obtain rfl | ⟨t, h', -, -, rfl⟩ := hr
    · exact ⟨_, rfl⟩
    · exact ⟨h', rfl⟩
  | upgradeReadOnly | edit | completeSave | observeDiskChange | observeMissing | reloadFromDisk
  | keepEditing | markRecovered | restoreRecovery => exact ⟨_, hr⟩

theorem apart_of_refused (ha : d.history.Apart) (hr : op.Refused d d') : d'.history.Apart := by
  cases op with
  | undo =>
    obtain rfl | ⟨t, h', hx, -, rfl⟩ := hr
    · exact ha
    · exact (ha.undo.of_ok hx).2
  | redo =>
    obtain rfl | ⟨t, h', hx, -, rfl⟩ := hr
    · exact ha
    · exact (ha.redo.of_ok hx).2
  | upgradeReadOnly | edit | completeSave | observeDiskChange | observeMissing | reloadFromDisk
  | keepEditing | markRecovered | restoreRecovery => exact hr.symm ▸ ha

end Document
end Strukt
