import Strukt.Editor.DocumentRuns

/-!
# Read-only documents

A read-only document refuses edits, but a reload from disk records an entry in its history like an
edit does, and undos and redos do not look at the flag.

* **Text** (`KeepsText`): an operation leaves the text as it was, or installs what it brings from
  the disk or from a recovery.
* **Entries** of a read-only document replace one range (`Single`), so that undoing or redoing one
  changes the text exactly where it puts in another text than it takes out (`Rewrites`).
* **The law** (`read_only_law`): the operations keep the text exactly where no undo or redo takes
  an entry that rewrites it.
-/

namespace Strukt

open Method EditTransaction

/-! ## Entries with one range -/

namespace HistoryEntry

/-- The entry puts in another text than it takes out. -/
def Rewrites (e : HistoryEntry) : Prop :=
  e.inverse.replacements.map (·.text) ≠ e.forward.replacements.map (·.text)

instance (e : HistoryEntry) : Decidable e.Rewrites := inferInstanceAs (Decidable (_ ≠ _))

def Single (e : HistoryEntry) : Prop := ∃ r, e.forward.replacements = [r]

variable {e : HistoryEntry} {before after : Rope}

/-- The text around the range is the same before and after. -/
theorem Moves.same_iff (h : e.Moves before after) (hs : e.Single) :
    before = after ↔ ¬e.Rewrites := by
  obtain ⟨r, hr⟩ := hs
  obtain ⟨hord, rfl, hinv⟩ := h
  simp only [splices, hr, List.map_cons, List.map_nil, Replacement.toSplice, Splice.Ordered,
    Splice.inverseFrom] at hord hinv
  obtain ⟨-, hle, hlen⟩ := hord
  obtain ⟨q, hq, hsplice⟩ := List.map_eq_singleton_iff.mp hinv
  have htaken : q.text.toList = (before.drop r.range.start).take (r.range.stop - r.range.start) :=
    congrArg Splice.items hsplice
  have hsplit : before =
      before.take r.range.start ++ (q.text.toList ++ before.drop r.range.stop) := by
    rw [htaken, ← Nat.add_sub_of_le hle, ← List.drop_drop, Nat.add_sub_cancel_left,
      List.take_append_drop, List.take_append_drop]
  have hafter : Splice.spliceAll e.forward.splices before =
      before.take r.range.start ++ (r.text.toList ++ before.drop r.range.stop) := by
    simp only [splices, hr, List.map_cons, List.map_nil, Replacement.toSplice, Splice.spliceAll,
      List.foldr_cons, List.foldr_nil, Splice.splice, List.append_assoc]
  rw [Rewrites, hq, hr, List.map_singleton, List.map_singleton, not_not, List.cons.injEq,
    and_iff_left rfl, hafter]
  nth_rewrite 1 [hsplit]
  rw [List.append_cancel_left_eq, List.append_cancel_right_eq, String.toList_inj]

end HistoryEntry

namespace History

variable {h : History} {entry : HistoryEntry} {revision : Revision}

/-- Every entry to undo or to redo has one range. -/
def Single (h : History) : Prop := ∀ e ∈ h.undoEntries ++ h.redoEntries, e.Single

theorem single_standard : standard.Single := by
  intro e he
  cases he

/-- An entry that is not typed is not merged. -/
theorem Single.record (hs : h.Single) (he : entry.Single) (hk : entry.kind = .other) :
    (h.record entry).Single := by
  have hnone : (h.undoEntries.getLast?.bind fun previous => coalesceTyping previous entry) =
      none := by
    rw [Option.bind_eq_none_iff]
    intro previous _
    rw [coalesceTyping, hk, if_pos (.inr (.inl (by decide)))]
  intro e hmem
  rw [History.record, hnone] at hmem
  dsimp only at hmem
  obtain ⟨n, bytes, hevict⟩ := enforceBudget_eq { h with
    undoEntries := h.undoEntries ++ [entry]
    redoEntries := []
    retainedBytes := h.retainedBytes + entry.byteCost }
  rw [hevict, evict, List.append_nil] at hmem
  rcases List.mem_append.mp (List.mem_of_mem_drop hmem) with hmem | hmem
  · exact hs e (List.mem_append_left _ hmem)
  · rw [List.mem_singleton.mp hmem]
    exact he

theorem Walks.last_undo {past future : List Rope} {present : Rope} {e : HistoryEntry}
    (hw : h.Walks past present future) (hlast : h.undoEntries.getLast? = some e) :
    ∃ before, e.Moves before present := by
  have hundone := hw.undone
  rw [← List.dropLast_append_getLast? e hlast, List.reverse_append, List.reverse_singleton,
    List.singleton_append] at hundone
  cases past with
  | nil => exact hundone.elim
  | cons before rest => exact ⟨before, hundone.1⟩

theorem Walks.last_redo {past future : List Rope} {present : Rope} {e : HistoryEntry}
    (hw : h.Walks past present future) (hlast : h.redoEntries.getLast? = some e) :
    ∃ after, e.Moves present after := by
  have hredone := hw.redone
  rw [← List.dropLast_append_getLast? e hlast, List.reverse_append, List.reverse_singleton,
    List.singleton_append] at hredone
  cases future with
  | nil => exact hredone.elim
  | cons after rest => exact ⟨after, hredone.1⟩

/-- An undo takes the newest entry, and keeps it for a redo. -/
theorem undo_takes : wp (undo revision)
    (fun t h' => ∃ e, h.undoEntries.getLast? = some e ∧ t = retarget e.inverse revision ∧
      ∀ e' ∈ h'.undoEntries ++ h'.redoEntries, e' ∈ h.undoEntries ++ h.redoEntries)
    (fun _ h' => h' = h) False h := by
  simp only [undo, wp_bind, wp_get, wp_okOr, wp_set, wp_pure]
  refine ⟨fun e he => ⟨e, he, rfl, fun e' hmem => ?_⟩, fun _ => trivial⟩
  rw [List.mem_append, List.mem_append, List.mem_singleton] at hmem
  rw [List.mem_append]
  rcases hmem with hmem | hmem | rfl
  · exact .inl (List.mem_of_mem_dropLast hmem)
  · exact .inr hmem
  · exact .inl (List.mem_of_getLast? he)

theorem redo_takes : wp (redo revision)
    (fun t h' => ∃ e, h.redoEntries.getLast? = some e ∧ t = retarget e.forward revision ∧
      ∀ e' ∈ h'.undoEntries ++ h'.redoEntries, e' ∈ h.undoEntries ++ h.redoEntries)
    (fun _ h' => h' = h) False h := by
  simp only [redo, wp_bind, wp_get, wp_okOr, wp_set, wp_pure]
  refine ⟨fun e he => ⟨e, he, rfl, fun e' hmem => ?_⟩, fun _ => trivial⟩
  obtain ⟨n, bytes, hevict⟩ := enforceBudget_eq { h with
    undoEntries := h.undoEntries ++ [e]
    redoEntries := h.redoEntries.dropLast
    retainedBytes := h.retainedBytes + e.byteCost }
  rw [hevict, evict, List.mem_append] at hmem
  rw [List.mem_append]
  rcases hmem with hmem | hmem
  · rcases List.mem_append.mp (List.mem_of_mem_drop hmem) with hmem | hmem
    · exact .inl hmem
    · rw [List.mem_singleton.mp hmem]
      exact .inr (List.mem_of_getLast? he)
  · exact .inr (List.mem_of_mem_dropLast hmem)

end History

/-! ## Documents that are not edited -/

namespace Document

variable {d d' : Document} {op : DocumentOp}

/-- A document after an operation, whether it succeeded or not. -/
def step (d : Document) (op : DocumentOp) : Option Document := (op.run.exec d).map (·.2)

/-- The text that the operation brings from the disk or from a recovery. -/
def installed (d : Document) : DocumentOp → Option Rope
  | .observeDiskChange _ _ diskText => some diskText.toList
  | .reloadFromDisk =>
    match d.status with
    | .conflict _ diskText => some diskText.toList
    | _ => none
  | .restoreRecovery text => some text.toList
  | _ => none

/-- The text stays, or is installed. -/
def KeepsText (d : Document) (op : DocumentOp) : Prop :=
  ∀ d' ∈ d.step op, d'.buffer.text = d.buffer.text ∨ d.installed op = some d'.buffer.text

instance (d : Document) (op : DocumentOp) : Decidable (d.KeepsText op) :=
  inferInstanceAs (Decidable (∀ d' ∈ d.step op, _ ∨ _))

/-- An undo or redo, before the last revision, of an entry that rewrites the text. -/
def AltersText (d : Document) : DocumentOp → Prop
  | .undo => d.buffer.revision.value ≠ -1 ∧ ∃ e ∈ d.history.undoEntries.getLast?, e.Rewrites
  | .redo => d.buffer.revision.value ≠ -1 ∧ ∃ e ∈ d.history.redoEntries.getLast?, e.Rewrites
  | _ => False

instance (d : Document) : (op : DocumentOp) → Decidable (d.AltersText op)
  | .undo | .redo => inferInstanceAs (Decidable (_ ∧ ∃ e ∈ _, HistoryEntry.Rewrites e))
  | .upgradeReadOnly _ _ | .edit _ _ _ _ _ | .completeSave _ _ | .observeDiskChange _ _ _
  | .observeMissing _ | .reloadFromDisk | .keepEditing | .markRecovered | .restoreRecovery _ =>
    isFalse fun h => h

/-- A read-only document: its entries come from reloads. -/
structure Shut (d : Document) : Prop where
  readOnly : d.readOnly = true
  apart : d.history.Apart
  single : d.history.Single
  walks : d.buffer.revision.value ≠ -1 →
    ∃ past future, d.history.Walks past d.buffer.text future

theorem shut_new (id : DocumentId) (path : RelativeDocumentPath) (text : String)
    (diskRevision : DiskRevision) : (Document.new id path text diskRevision true).Shut where
  readOnly := rfl
  apart := History.apart_standard
  single := History.single_standard
  walks _ := ⟨[], [], History.walks_new⟩

theorem after_document (w : Timeline) : (w.after d op).document = d := by
  cases op <;> simp only [Timeline.after, Timeline.begin] <;> split <;> rfl

/-- The buffer has a revision left, or it stays. -/
theorem revision_of_effect (he : op.Effect d d') (hop : ∀ text diskRevision,
    op ≠ .upgradeReadOnly text diskRevision) :
    d.buffer.revision.value ≠ -1 ∨ d'.buffer = d.buffer := by
  cases op with
  | upgradeReadOnly text diskRevision => exact absurd rfl (hop text diskRevision)
  | edit expected replacements kind cursorBefore cursorAfter =>
    obtain ⟨-, t, a, b', -, -, hedited, -⟩ := he
    exact .inl (TextBuffer.Revision.next_eq_ok hedited.next)
  | undo | redo =>
    obtain ⟨t, h', a, b', -, hedited, -⟩ := he
    exact .inl (TextBuffer.Revision.next_eq_ok hedited.next)
  | completeSave expected diskRevision =>
    obtain ⟨-, rfl⟩ := he
    exact .inr rfl
  | observeDiskChange expected diskRevision diskText =>
    obtain ⟨-, he⟩ := he
    split at he
    · obtain ⟨a, b', hedited, -⟩ := he
      exact .inl (TextBuffer.Revision.next_eq_ok hedited.next)
    · subst he
      exact .inr rfl
  | observeMissing expected =>
    obtain ⟨-, rfl⟩ := he
    exact .inr rfl
  | reloadFromDisk =>
    obtain ⟨diskRevision, diskText, -, a, b', hedited, -⟩ := he
    exact .inl (TextBuffer.Revision.next_eq_ok hedited.next)
  | keepEditing =>
    obtain ⟨-, rfl⟩ := he
    exact .inr rfl
  | markRecovered =>
    subst he
    exact .inr rfl
  | restoreRecovery text =>
    simp only [DocumentOp.Effect] at he
    split at he
    · subst he
      exact .inr rfl
    · obtain ⟨a, b', hedited, -⟩ := he
      exact .inl (TextBuffer.Revision.next_eq_ok hedited.next)

theorem refreshed_readOnly : d.refreshed.readOnly = d.readOnly := by
  unfold refreshed
  split <;> rfl

/-- The flag and the entries after a success. -/
theorem Shut.entries (h : d.Shut) (he : op.Effect d d') (hop : ∀ text diskRevision,
    op ≠ .upgradeReadOnly text diskRevision) : d'.readOnly = true ∧ d'.history.Single := by
  cases op with
  | upgradeReadOnly text diskRevision => exact absurd rfl (hop text diskRevision)
  | edit expected replacements kind cursorBefore cursorAfter =>
    obtain ⟨hro, -⟩ := he
    rw [h.readOnly] at hro
    cases hro
  | undo =>
    obtain ⟨t, h', a, b', hx, -, rfl⟩ := he
    obtain ⟨e, -, -, hmem⟩ := (History.undo_takes).of_ok hx
    rw [refreshed_readOnly, refreshed_history]
    exact ⟨h.readOnly, fun e he => h.single e (hmem e he)⟩
  | redo =>
    obtain ⟨t, h', a, b', hx, -, rfl⟩ := he
    obtain ⟨e, -, -, hmem⟩ := (History.redo_takes).of_ok hx
    rw [refreshed_readOnly, refreshed_history]
    exact ⟨h.readOnly, fun e he => h.single e (hmem e he)⟩
  | completeSave expected diskRevision =>
    obtain ⟨-, rfl⟩ := he
    exact ⟨h.readOnly, h.single⟩
  | observeDiskChange expected diskRevision diskText =>
    obtain ⟨-, he⟩ := he
    split at he
    · obtain ⟨a, b', -, rfl⟩ := he
      exact ⟨h.readOnly, History.single_standard⟩
    · subst he
      exact ⟨h.readOnly, h.single⟩
  | observeMissing expected =>
    obtain ⟨-, rfl⟩ := he
    exact ⟨h.readOnly, h.single⟩
  | reloadFromDisk =>
    obtain ⟨diskRevision, diskText, -, a, b', -, rfl⟩ := he
    exact ⟨h.readOnly, h.single.record ⟨_, rfl⟩ rfl⟩
  | keepEditing =>
    obtain ⟨-, rfl⟩ := he
    exact ⟨h.readOnly, h.single⟩
  | markRecovered =>
    subst he
    exact ⟨h.readOnly, h.single⟩
  | restoreRecovery text =>
    simp only [DocumentOp.Effect] at he
    split at he
    · subst he
      exact ⟨h.readOnly, h.single⟩
    · obtain ⟨a, b', -, rfl⟩ := he
      exact ⟨h.readOnly, History.single_standard⟩

theorem Shut.effect (h : d.Shut) (he : op.Effect d d') (hop : ∀ text diskRevision,
    op ≠ .upgradeReadOnly text diskRevision) : d'.Shut := by
  obtain ⟨hro, hsingle⟩ := h.entries he hop
  refine ⟨hro, apart_of_effect h.apart he, hsingle, fun hr' => ?_⟩
  have hr : d.buffer.revision.value ≠ -1 := by
    rcases revision_of_effect he hop with hr | hb
    · exact hr
    · exact hb ▸ hr'
  obtain ⟨past, future, hw⟩ := h.walks hr
  have hfaithful : (Timeline.mk d past future).Faithful := hw
  have hafter := hfaithful.effect he
  unfold Timeline.Faithful at hafter
  rw [after_document] at hafter
  exact ⟨_, _, hafter⟩

theorem Shut.refused (h : d.Shut) (hr : op.Refused d d') : d'.Shut := by
  have hapart := apart_of_refused h.apart hr
  obtain ⟨h', heq⟩ := refused_eq hr
  by_cases hrev : d.buffer.revision.value = -1
  · have hsingle : d'.history.Single := by
      cases op with
      | undo =>
        obtain rfl | ⟨t, h', hx, -, rfl⟩ := hr
        · exact h.single
        · obtain ⟨e, -, -, hmem⟩ := (History.undo_takes).of_ok hx
          exact fun e he => h.single e (hmem e he)
      | redo =>
        obtain rfl | ⟨t, h', hx, -, rfl⟩ := hr
        · exact h.single
        · obtain ⟨e, -, -, hmem⟩ := (History.redo_takes).of_ok hx
          exact fun e he => h.single e (hmem e he)
      | upgradeReadOnly | edit | completeSave | observeDiskChange | observeMissing
      | reloadFromDisk | keepEditing | markRecovered | restoreRecovery => exact hr.symm ▸ h.single
    subst heq
    exact ⟨h.readOnly, hapart, hsingle, fun hne => absurd hrev hne⟩
  · obtain ⟨past, future, hw⟩ := h.walks hrev
    have hfaithful : (Timeline.mk d past future).Faithful := hw
    have hcurrent : (Timeline.mk d past future).Current op := by
      cases op with
      | undo | redo => exact hrev
      | upgradeReadOnly | edit | completeSave | observeDiskChange | observeMissing
      | reloadFromDisk | keepEditing | markRecovered | restoreRecovery => trivial
    rw [hfaithful.refused hcurrent hr]
    exact h

/-- What a step makes of the document. -/
theorem Shut.outcome (h : d.Shut) (hs : d.step op = some d') :
    op.Effect d d' ∨ op.Refused d d' := by
  obtain ⟨⟨r, d''⟩, hx, rfl⟩ := Option.map_eq_some_iff.mp hs
  have hspec : wp op.run (fun _ d' => op.Effect d d' ∨ op.Refused d d')
      (fun _ d' => op.Effect d d' ∨ op.Refused d d') True d :=
    wp_mono (d.run_spec h.apart op) (fun _ _ he => .inl he) (fun _ _ hr => .inr hr)
      fun _ => trivial
  exact hspec.state hx

theorem Shut.step (h : d.Shut) (hop : ∀ text diskRevision, op ≠ .upgradeReadOnly text diskRevision)
    (hs : d.step op = some d') : d'.Shut :=
  (h.outcome hs).elim (fun he => h.effect he hop) h.refused

/-! ## The text -/

/-- An undo takes the entry that leads from the text it leaves. -/
theorem Shut.undo_moves (h : d.Shut) (he : DocumentOp.undo.Effect d d') :
    ∃ e, d.history.undoEntries.getLast? = some e ∧ e.Single ∧
      e.Moves d'.buffer.text d.buffer.text := by
  obtain ⟨t, h', a, b', hx, hedited, rfl⟩ := he
  have hr := TextBuffer.Revision.next_eq_ok hedited.next
  obtain ⟨past, future, hw⟩ := h.walks hr
  obtain ⟨e, hlast, ht, -⟩ := (History.undo_takes).of_ok hx
  have hsingle := h.single e (List.mem_append_left _ (List.mem_of_getLast? hlast))
  obtain ⟨before, hmoves⟩ := hw.last_undo hlast
  obtain ⟨-, -, htext⟩ := hmoves.undo (b := d.buffer) rfl hr
  rw [← ht, ← hedited.text] at htext
  rw [refreshed_buffer]
  exact ⟨e, hlast, hsingle, htext ▸ hmoves⟩

theorem Shut.redo_moves (h : d.Shut) (he : DocumentOp.redo.Effect d d') :
    ∃ e, d.history.redoEntries.getLast? = some e ∧ e.Single ∧
      e.Moves d.buffer.text d'.buffer.text := by
  obtain ⟨t, h', a, b', hx, hedited, rfl⟩ := he
  have hr := TextBuffer.Revision.next_eq_ok hedited.next
  obtain ⟨past, future, hw⟩ := h.walks hr
  obtain ⟨e, hlast, ht, -⟩ := (History.redo_takes).of_ok hx
  have hsingle := h.single e (List.mem_append_right _ (List.mem_of_getLast? hlast))
  obtain ⟨after, hmoves⟩ := hw.last_redo hlast
  obtain ⟨-, -, htext⟩ := hmoves.redo (b := d.buffer) rfl hr
  rw [← ht, ← hedited.text] at htext
  rw [refreshed_buffer]
  exact ⟨e, hlast, hsingle, htext ▸ hmoves⟩

/-- Only an entry that rewrites the text changes it without installing one. -/
theorem Shut.text_of_effect (h : d.Shut) (he : op.Effect d d')
    (hop : ∀ text diskRevision, op ≠ .upgradeReadOnly text diskRevision) (hno : ¬d.AltersText op) :
    d'.buffer.text = d.buffer.text ∨ d.installed op = some d'.buffer.text := by
  cases op with
  | upgradeReadOnly text diskRevision => exact absurd rfl (hop text diskRevision)
  | edit expected replacements kind cursorBefore cursorAfter =>
    obtain ⟨hro, -⟩ := he
    rw [h.readOnly] at hro
    cases hro
  | undo =>
    obtain ⟨e, hlast, hsingle, hmoves⟩ := h.undo_moves he
    refine .inl ((hmoves.same_iff hsingle).mpr fun hrewrites => hno ⟨?_, e, hlast, hrewrites⟩)
    obtain ⟨t, h', a, b', -, hedited, -⟩ := he
    exact TextBuffer.Revision.next_eq_ok hedited.next
  | redo =>
    obtain ⟨e, hlast, hsingle, hmoves⟩ := h.redo_moves he
    refine .inl ((hmoves.same_iff hsingle).mpr fun hrewrites => hno ⟨?_, e, hlast, hrewrites⟩).symm
    obtain ⟨t, h', a, b', -, hedited, -⟩ := he
    exact TextBuffer.Revision.next_eq_ok hedited.next
  | completeSave expected diskRevision =>
    obtain ⟨-, rfl⟩ := he
    exact .inl rfl
  | observeDiskChange expected diskRevision diskText =>
    obtain ⟨-, he⟩ := he
    split at he
    · obtain ⟨a, b', hedited, rfl⟩ := he
      exact .inr (congrArg some (Edited.whole hedited).symm)
    · subst he
      exact .inl rfl
  | observeMissing expected =>
    obtain ⟨-, rfl⟩ := he
    exact .inl rfl
  | reloadFromDisk =>
    obtain ⟨diskRevision, diskText, hstatus, a, b', hedited, rfl⟩ := he
    refine .inr ?_
    simp only [installed, hstatus]
    exact congrArg some (Edited.whole hedited).symm
  | keepEditing =>
    obtain ⟨-, rfl⟩ := he
    exact .inl rfl
  | markRecovered =>
    subst he
    exact .inl rfl
  | restoreRecovery text =>
    simp only [DocumentOp.Effect] at he
    split at he
    · subst he
      exact .inl rfl
    · obtain ⟨a, b', hedited, rfl⟩ := he
      exact .inr (congrArg some (Edited.whole hedited).symm)

/-- An entry that rewrites the text changes it. -/
theorem Shut.rewritten (h : d.Shut) (hrewrites : d.AltersText op) :
    ∃ d', d.step op = some d' ∧ d'.buffer.text ≠ d.buffer.text ∧ d.installed op = none := by
  cases op with
  | undo =>
    obtain ⟨hr, e, hlast, hrewrites⟩ := hrewrites
    obtain ⟨past, future, hw⟩ := h.walks hr
    have hspec := wp_and (undo_spec hw hr) (d.undo_effect h.apart)
    obtain ⟨r, d', hx⟩ := (wp_mono hspec (fun _ _ h => h) (fun _ _ h => h) fun h => h.1).ends
    refine ⟨d', by rw [Document.step, DocumentOp.run, hx]; rfl, fun htext => ?_, rfl⟩
    cases r with
    | error e =>
      rw [(hspec.of_error hx).1.2] at hlast
      cases hlast
    | ok u =>
      obtain ⟨e', hlast', hsingle, hmoves⟩ := h.undo_moves (hspec.of_ok hx).2
      obtain rfl := Option.some.inj (hlast.symm.trans hlast')
      exact (hmoves.same_iff hsingle).mp htext hrewrites
  | redo =>
    obtain ⟨hr, e, hlast, hrewrites⟩ := hrewrites
    obtain ⟨past, future, hw⟩ := h.walks hr
    have hspec := wp_and (redo_spec hw hr) (d.redo_effect h.apart)
    obtain ⟨r, d', hx⟩ := (wp_mono hspec (fun _ _ h => h) (fun _ _ h => h) fun h => h.1).ends
    refine ⟨d', by rw [Document.step, DocumentOp.run, hx]; rfl, fun htext => ?_, rfl⟩
    cases r with
    | error e =>
      rw [(hspec.of_error hx).1.2] at hlast
      cases hlast
    | ok u =>
      obtain ⟨e', hlast', hsingle, hmoves⟩ := h.redo_moves (hspec.of_ok hx).2
      obtain rfl := Option.some.inj (hlast.symm.trans hlast')
      exact (hmoves.same_iff hsingle).mp htext.symm hrewrites
  | upgradeReadOnly | edit | completeSave | observeDiskChange | observeMissing | reloadFromDisk
  | keepEditing | markRecovered | restoreRecovery => exact hrewrites.elim

theorem Shut.keepsText_iff (h : d.Shut)
    (hop : ∀ text diskRevision, op ≠ .upgradeReadOnly text diskRevision) :
    d.KeepsText op ↔ ¬d.AltersText op := by
  constructor
  · intro hkeeps hrewrites
    obtain ⟨d', hs, hne, hnone⟩ := h.rewritten hrewrites
    rcases hkeeps d' hs with heq | hinstalled
    · exact hne heq
    · rw [hnone] at hinstalled
      cases hinstalled
  · intro hno d' hs
    rcases h.outcome hs with he | hr
    · exact h.text_of_effect he hop hno
    · obtain ⟨h', rfl⟩ := refused_eq hr
      exact .inl rfl

/-- The operations on a read-only document keep its text, or install one, exactly where none is an
undo or redo of an entry that rewrites it. -/
theorem read_only_law (id : DocumentId) (path : RelativeDocumentPath) (text : String)
    (diskRevision : DiskRevision) (ops : List DocumentOp)
    (hops : ∀ text diskRevision, .upgradeReadOnly text diskRevision ∉ ops) :
    Along step KeepsText ops (Document.new id path text diskRevision true) ↔
      Along step (fun d op => ¬d.AltersText op) ops
        (Document.new id path text diskRevision true) := by
  have hne : ∀ op ∈ ops, ∀ text diskRevision, op ≠ .upgradeReadOnly text diskRevision :=
    fun op hmem text diskRevision heq => hops text diskRevision (heq ▸ hmem)
  exact along_iff_of_mem (shut_new id path text diskRevision)
    (fun _ op hmem h => h.keepsText_iff (hne op hmem))
    fun _ op _ hmem h _ hs => h.step (hne op hmem) hs

/-- A reload of the text that is shown records an entry, and the undo of it changes nothing. -/
theorem read_only_law_reload : Along step KeepsText
    [.observeMissing ⟨0⟩, .observeDiskChange ⟨0⟩ ⟨"2"⟩ "one", .reloadFromDisk, .undo,
      .edit ⟨2⟩ [⟨⟨0, 0⟩, "x"⟩] .other 0 1]
    (Document.new ⟨0⟩ ⟨"a"⟩ "one" ⟨"1"⟩ true) :=
  (read_only_law ⟨0⟩ ⟨"a"⟩ "one" ⟨"1"⟩ _ (by simp)).mpr (by decide)

/-- The undo of a reload brings the old text back. -/
theorem reload_undone : ¬Along step KeepsText
    [.observeMissing ⟨0⟩, .observeDiskChange ⟨0⟩ ⟨"2"⟩ "two", .reloadFromDisk, .undo]
    (Document.new ⟨0⟩ ⟨"a"⟩ "one" ⟨"1"⟩ true) := by
  decide

end Document
end Strukt
