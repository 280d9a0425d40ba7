import Strukt.Editor.DocumentSpec
import Strukt.Lib.Runs
import Strukt.Prim

/-!
# Undo and redo over whole runs

A `Timeline` is a document with the texts that its history leads to: `past` at the boundaries of the
groups of edits, the newest first, and `future` that undos left. It keeps the boundaries of entries
that the history dropped. Over every run the history stays a walk through these texts
(`Faithful`), so undos visit the past and redos lead back (`history_law`).

* **Boundaries**: an edit puts the text before it in the past, except where the history merges it
  into its newest entry. A reload and a recovery of another text begin a new timeline; the reload of
  a conflict is one more group.
* **Revisions**: at the last revision the buffer refuses a transaction behind the history's back
  (`exhausted_undo`), so the runs are those that undo and redo before it (`Current`).
-/

namespace Strukt

open Method EditTransaction

/-- The entry that the history records for an edit. -/
def Document.entry (d : Document) (t : EditTransaction) (kind : EditKind)
    (cursorBefore cursorAfter : Nat) : Option HistoryEntry :=
  match (TextBuffer.apply t).exec d.buffer with
  | some (.ok applied, _) => some (.fromApplied t applied kind cursorBefore cursorAfter)
  | _ => none

structure Timeline where
  document : Document
  past : List Rope
  future : List Rope

namespace Timeline

def begin (d : Document) : Timeline := ⟨d, [], []⟩

/-- The timeline when the operation has succeeded and left `d`. -/
def after (w : Timeline) (d : Document) : DocumentOp → Timeline
  | .edit expected replacements kind cursorBefore cursorAfter =>
    let merged := (EditTransaction.new expected replacements).toOption.any fun t =>
      (w.document.entry t kind cursorBefore cursorAfter).any (w.document.history.Joins ·)
    ⟨d, if merged then w.past else w.document.buffer.text :: w.past, []⟩
  | .reloadFromDisk => ⟨d, w.document.buffer.text :: w.past, []⟩
  | .undo => ⟨d, w.past.tail, w.document.buffer.text :: w.future⟩
  | .redo => ⟨d, w.document.buffer.text :: w.past, w.future.tail⟩
  | .upgradeReadOnly _ _ => if w.document.readOnly then begin d else { w with document := d }
  | .observeDiskChange _ _ _ =>
    if w.document.status = .clean then begin d else { w with document := d }
  | .restoreRecovery text =>
    if w.document.buffer.text ≠ text.toList then begin d else { w with document := d }
  | _ => { w with document := d }

def step (w : Timeline) (op : DocumentOp) : Option Timeline :=
  match op.run.exec w.document with
  | some (.ok _, d) => some (w.after d op)
  | some (.error _, d) => some { w with document := d }
  | none => none

/-- An undo and a redo find a revision left. -/
def Current (w : Timeline) : DocumentOp → Prop
  | .undo | .redo => w.document.buffer.revision.value ≠ -1
  | _ => True

instance (w : Timeline) : (op : DocumentOp) → Decidable (w.Current op)
  | .undo | .redo => inferInstanceAs (Decidable (_ ≠ _))
  | .upgradeReadOnly _ _ | .edit _ _ _ _ _ | .completeSave _ _ | .observeDiskChange _ _ _
  | .observeMissing _ | .reloadFromDisk | .keepEditing | .markRecovered | .restoreRecovery _ =>
    isTrue trivial

/-- The history leads from the text to the texts of the timeline. -/
def Faithful (w : Timeline) : Prop :=
  w.document.history.Walks w.past w.document.buffer.text w.future

end Timeline

namespace Timeline

open Document

variable {w w' : Timeline} {d : Document} {op : DocumentOp}

theorem faithful_begin (h : d.history = .standard) : (begin d).Faithful := by
  unfold Faithful begin
  rw [h]
  exact History.walks_new

theorem Faithful.apart (h : w.Faithful) : w.document.history.Apart := History.Walks.apart h

/-- A group is recorded behind the text before it. -/
theorem Faithful.edited (h : w.Faithful) {t : EditTransaction} {a : AppliedTransaction}
    {kind : EditKind} {cursorBefore cursorAfter : Nat} {b' : TextBuffer}
    (he : TextBuffer.Edited w.document.buffer t a b') :
    (w.document.history.record (.fromApplied t a kind cursorBefore cursorAfter)).Walks
      (if w.document.history.Joins (.fromApplied t a kind cursorBefore cursorAfter) then w.past
        else w.document.buffer.text :: w.past) b'.text [] :=
  History.Walks.record h (HistoryEntry.moves_fromApplied he kind cursorBefore cursorAfter)

/-- A success keeps the history faithful to the texts. -/
theorem Faithful.effect (h : w.Faithful) (he : op.Effect w.document d) : (w.after d op).Faithful := by
  cases op with
  | upgradeReadOnly text diskRevision =>
    subst he
    cases hro : w.document.readOnly with
    | false =>
      simp only [after, hro, if_pos]
      exact h
    | true =>
      simp only [after, hro, if_pos]
      exact faithful_begin rfl
  | edit expected replacements kind cursorBefore cursorAfter =>
    obtain ⟨-, t, a, b', hnew, hx, hedited, rfl⟩ := he
    have hentry : w.document.entry t kind cursorBefore cursorAfter =
        some (.fromApplied t a kind cursorBefore cursorAfter) := by
      simp only [entry, hx]
    simp only [Faithful, after, hnew, Except.toOption, hentry, Option.any_some, decide_eq_true_eq,
      refreshed_buffer, refreshed_history]
    exact h.edited hedited
  | undo =>
    obtain ⟨t, h', a, b', hx, hedited, rfl⟩ := he
    obtain ⟨e, before, rest, hpast, rfl, hmoves, hwalks, -⟩ :=
      (History.undo_spec h w.document.buffer.revision).of_ok hx
    obtain ⟨-, -, htext⟩ := hmoves.undo (b := w.document.buffer) rfl
      (TextBuffer.Revision.next_eq_ok hedited.next)
    rw [← hedited.text] at htext
    simp only [Faithful, after, hpast, List.tail_cons, refreshed_buffer, refreshed_history]
    exact htext ▸ hwalks
  | redo =>
    obtain ⟨t, h', a, b', hx, hedited, rfl⟩ := he
    obtain ⟨e, next, rest, hfuture, rfl, hmoves, hwalks, -⟩ :=
      (History.redo_spec h w.document.buffer.revision).of_ok hx
    obtain ⟨-, -, htext⟩ := hmoves.redo (b := w.document.buffer) rfl
      (TextBuffer.Revision.next_eq_ok hedited.next)
    rw [← hedited.text] at htext
    simp only [Faithful, after, hfuture, List.tail_cons, refreshed_buffer, refreshed_history]
    exact htext ▸ hwalks
  | completeSave expected diskRevision =>
    obtain ⟨-, rfl⟩ := he
    exact h
  | observeDiskChange expected diskRevision diskText =>
    obtain ⟨-, he⟩ := he
    by_cases hclean : w.document.status = .clean
    · rw [if_pos hclean] at he
      obtain ⟨a, b', -, rfl⟩ := he
      simp only [after, if_pos hclean]
      exact faithful_begin rfl
    · rw [if_neg hclean] at he
      subst he
      simp only [after, if_neg hclean]
      exact h
  | observeMissing expected =>
    obtain ⟨-, rfl⟩ := he
    exact h
  | reloadFromDisk =>
    obtain ⟨diskRevision, diskText, -, a, b', hedited, rfl⟩ := he
    have hwalk := @Faithful.edited _ h _ _ .other 0 0 _ hedited
    -- Only typing is merged.
    have hjoins : ¬w.document.history.Joins
        (.fromApplied (w.document.whole diskText) a .other 0 0) := by
      simp [History.Joins, coalesceTyping, HistoryEntry.fromApplied]
    rw [if_neg hjoins] at hwalk
    exact hwalk
  | keepEditing =>
    obtain ⟨-, rfl⟩ := he
    exact h
  | markRecovered =>
    subst he
    exact h
  | restoreRecovery text =>
    by_cases heq : w.document.buffer.text = text.toList
    · rw [DocumentOp.Effect, if_pos heq] at he
      subst he
      simp only [after, heq, ne_eq, not_true_eq_false, if_false]
      exact h
    · rw [DocumentOp.Effect, if_neg heq] at he
      obtain ⟨a, b', -, rfl⟩ := he
      simp only [after, ne_eq, heq, not_false_eq_true, if_true]
      exact faithful_begin rfl

/-- A failure before the last revision changes nothing. -/
theorem Faithful.refused (h : w.Faithful) (hc : w.Current op) (hr : op.Refused w.document d) :
    d = w.document := by
  cases op with
  | undo =>
    obtain rfl | ⟨t, h', hx, hno, -⟩ := hr
    · rfl
    · obtain ⟨e, before, rest, -, rfl, hmoves, -⟩ :=
        (History.undo_spec h w.document.buffer.revision).of_ok hx
      exact absurd (hmoves.undo (b := w.document.buffer) rfl hc).2.1 hno
  | redo =>
    obtain rfl | ⟨t, h', hx, hno, -⟩ := hr
    · rfl
    · obtain ⟨e, before, rest, -, rfl, hmoves, -⟩ :=
        (History.redo_spec h w.document.buffer.revision).of_ok hx
      exact absurd (hmoves.redo (b := w.document.buffer) rfl hc).2.1 hno
  | upgradeReadOnly | edit | completeSave | observeDiskChange | observeMissing | reloadFromDisk
  | keepEditing | markRecovered | restoreRecovery => exact hr

theorem Faithful.step (h : w.Faithful) (hc : w.Current op) (hs : w.step op = some w') :
    w'.Faithful := by
  have hspec := w.document.run_spec h.apart op
  unfold Timeline.step at hs
  cases hx : op.run.exec w.document with
  | none => simp only [hx] at hs; cases hs
  | some r =>
    obtain ⟨r, d⟩ := r
    cases r with
    | ok u =>
      simp only [hx] at hs
      cases hs
      exact h.effect (hspec.of_ok hx)
    | error e =>
      simp only [hx] at hs
      cases hs
      rw [h.refused hc (hspec.of_error hx)]
      exact h

end Timeline

/-! ## Undos and redos in a row -/

namespace Document

variable {d : Document} {past future : List Rope}

/-- An undo, where there is a revision left, leads one text back. -/
theorem undo_spec (hw : d.history.Walks past d.buffer.text future)
    (hr : d.buffer.revision.value ≠ -1) :
    wp undo
      (fun _ d' => ∃ rest, past = d'.buffer.text :: rest ∧
        d'.history.Walks rest d'.buffer.text (d.buffer.text :: future) ∧
        d.buffer.revision.next = .ok d'.buffer.revision ∧
        d'.history.undoEntries.length + 1 = d.history.undoEntries.length ∧
        d'.history.redoEntries.length = d.history.redoEntries.length + 1)
      (fun _ d' => d' = d ∧ d.history.undoEntries = []) False d := by
  simp only [undo, wp_bind, wp_get, onHistory, wp_focus, wp_discard]
  refine wp_mono (History.undo_spec hw d.buffer.revision) ?_ ?_ False.elim
  · rintro _ h ⟨e, before, rest, rfl, rfl, hmoves, hw', hlen, hlen'⟩
    obtain ⟨hover, hadmits, htext⟩ := hmoves.undo (b := d.buffer) rfl hr
    refine wp_mono (wp_applyBuffer hover) ?_ (fun _ _ h => absurd hadmits h.2) (absurd hadmits)
    rintro a _ ⟨b', rfl, he, -⟩
    obtain rfl : b'.text = before := by rw [he.text, htext]
    simp only [wp_refreshDirtyStatus, refreshed_buffer, refreshed_history]
    exact ⟨rest, rfl, hw', he.next, hlen, hlen'⟩
  · rintro e h ⟨rfl, -, hnone⟩
    exact ⟨rfl, hnone⟩

theorem redo_spec (hw : d.history.Walks past d.buffer.text future)
    (hr : d.buffer.revision.value ≠ -1) :
    wp redo
      (fun _ d' => ∃ rest, future = d'.buffer.text :: rest ∧
        d'.history.Walks (d.buffer.text :: past) d'.buffer.text rest ∧
        d.buffer.revision.next = .ok d'.buffer.revision ∧
        d'.history.redoEntries.length + 1 = d.history.redoEntries.length)
      (fun _ d' => d' = d ∧ d.history.redoEntries = []) False d := by
  simp only [redo, wp_bind, wp_get, onHistory, wp_focus, wp_discard]
  refine wp_mono (History.redo_spec hw d.buffer.revision) ?_ ?_ False.elim
  · rintro _ h ⟨e, after, rest, rfl, rfl, hmoves, hw', hlen⟩
    obtain ⟨hover, hadmits, htext⟩ := hmoves.redo (b := d.buffer) rfl hr
    refine wp_mono (wp_applyBuffer hover) ?_ (fun _ _ h => absurd hadmits h.2) (absurd hadmits)
    rintro a _ ⟨b', rfl, he, -⟩
    obtain rfl : b'.text = after := by rw [he.text, htext]
    simp only [wp_refreshDirtyStatus, refreshed_buffer, refreshed_history]
    exact ⟨rest, rfl, hw', he.next, hlen⟩
  · rintro e h ⟨rfl, -, hnone⟩
    exact ⟨rfl, hnone⟩

end Document

namespace Timeline

open Document

end Timeline

namespace Document

/-- An empty document that was reloaded until it came to the revision. -/
def blank (value : UInt64) : Document :=
  { Document.new ⟨0⟩ ⟨"a"⟩ "" ⟨""⟩ false with buffer := ⟨[], ⟨value⟩, .none⟩ }

end Document

namespace Timeline

open Document

end Timeline
end Strukt
