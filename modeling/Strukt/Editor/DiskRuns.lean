import Strukt.Editor.DocumentSpec
import Strukt.Lib.Runs

/-!
# Clean documents and the disk

`Reported` is a document with what it was told of the disk: the `latest` version (opened, observed,
reloaded or saved), the `baseline` that it took over, and whether the user put the latest version
aside with Keep Editing. A clean document has the baseline's text, and it is the latest version
unless that was put aside (`clean_law`).

Keep Editing keeps the save baseline, so that edits or undos that come back to it make the document
clean, with another text on disk (`kept_clean`).
-/

namespace Strukt

open Method

structure Reported where
  document : Document
  latest : Rope
  baseline : Rope
  acknowledged : Bool

namespace Reported

def opened (id : DocumentId) (path : RelativeDocumentPath) (text : String)
    (diskRevision : DiskRevision) (readOnly : Bool) : Reported :=
  ⟨.new id path text diskRevision readOnly, text.toList, text.toList, false⟩

/-- The text on disk was taken over. -/
def adopt (d : Document) (text : Rope) : Reported := ⟨d, text, text, false⟩

/-- What is known when the operation has succeeded and left `d`. -/
def after (w : Reported) (d : Document) : DocumentOp → Reported
  | .upgradeReadOnly text _ =>
    if w.document.readOnly then adopt d text.toList else { w with document := d }
  | .completeSave _ _ => adopt d w.document.buffer.text
  | .observeDiskChange _ _ diskText =>
    if w.document.status = .clean then adopt d diskText.toList
    else { w with document := d, latest := diskText.toList, acknowledged := false }
  | .reloadFromDisk => adopt d w.latest
  | .keepEditing => { w with document := d, acknowledged := true }
  | _ => { w with document := d }

def step (w : Reported) (op : DocumentOp) : Option Reported :=
  match op.run.exec w.document with
  | some (.ok _, d) => some (w.after d op)
  | some (.error _, d) => some { w with document := d }
  | none => none

/-- What the document remembers of the disk is what it was told. -/
structure Tracks (w : Reported) : Prop where
  apart : w.document.history.Apart
  saved : w.document.savedText = w.baseline
  clean : w.document.status = .clean → w.document.buffer.text = w.baseline
  conflict : ∀ diskRevision diskText, w.document.status = .conflict diskRevision diskText →
    diskText.toList = w.latest
  settled : w.document.status = .clean ∨ w.document.status = .dirty →
    w.acknowledged = false → w.baseline = w.latest

variable {w w' : Reported} {d : Document} {op : DocumentOp}

/-- A document that took the text over tracks it. -/
theorem tracks_adopt {text : Rope} (ha : d.history.Apart) (hb : d.buffer.text = text)
    (hs : d.savedText = text) (hc : d.status = .clean) : (adopt d text).Tracks where
  apart := ha
  saved := hs
  clean _ := hb
  conflict _ _ h := by
    rw [show (adopt d text).document.status = .clean from hc] at h
    cases h
  settled _ _ := rfl

/-- A document that is neither clean nor dirty only has its conflict to show. -/
theorem tracks_blocked {latest : Rope} {acknowledged : Bool} (ha : d.history.Apart)
    (hclean : d.status ≠ .clean) (hdirty : d.status ≠ .dirty)
    (hconflict : ∀ diskRevision diskText, d.status = .conflict diskRevision diskText →
      diskText.toList = latest) :
    Tracks ⟨d, latest, d.savedText, acknowledged⟩ where
  apart := ha
  saved := rfl
  clean h := absurd h hclean
  conflict := hconflict
  settled h := (h.elim hclean hdirty).elim

theorem status_refreshed (d : Document) :
    (d.status = .clean ∨ d.status = .dirty) ∧
        (d.refreshed.status = .clean ∨ d.refreshed.status = .dirty) ∨
      d.refreshed.status = d.status := by
  unfold Document.refreshed
  cases hs : d.status with
  | clean | dirty =>
    left
    dsimp only
    split <;> simp
  | conflict | missing => exact .inr hs

/-- An edit of the text, and a comparison with the baseline. -/
theorem Tracks.refreshed (h : w.Tracks) {b : TextBuffer} {history : History}
    (ha : history.Apart) :
    Tracks { w with document :=
      ({ w.document with buffer := b, history := history } : Document).refreshed } := by
  have hstatus := status_refreshed { w.document with buffer := b, history := history }
  refine ⟨by simpa using ha, by simpa using h.saved, fun hclean => ?_,
    fun diskRevision diskText hconflict => ?_, fun hs hack => ?_⟩
  · have htext := Document.refreshed_clean hclean
    simpa using htext.trans h.saved
  · rcases hstatus with ⟨-, hs | hs⟩ | hs
    · cases hs.symm.trans hconflict
    · cases hs.symm.trans hconflict
    · exact h.conflict _ _ (hs.symm.trans hconflict)
  · rcases hstatus with ⟨hbefore, -⟩ | heq
    · exact h.settled hbefore hack
    · exact h.settled (by dsimp only at hs; rw [heq] at hs; exact hs) hack

/-- A document marked as recovered is not clean. -/
theorem Tracks.recovered (h : w.Tracks) {b : TextBuffer} {history : History}
    (ha : history.Apart) :
    Tracks { w with document := { w.document with
      buffer := b
      history := history
      recovered := true
      status := if w.document.status = .clean then .dirty else w.document.status } } := by
  refine ⟨ha, h.saved, fun hclean => ?_, fun diskRevision diskText hconflict => ?_,
    fun hs hack => h.settled ?_ hack⟩
  · dsimp only at hclean
    split at hclean
    · cases hclean
    · exact absurd hclean ‹_›
  · dsimp only at hconflict
    split at hconflict
    · cases hconflict
    · exact h.conflict _ _ hconflict
  · dsimp only at hs
    split at hs
    · exact .inl ‹_›
    · exact hs

theorem Tracks.effect (h : w.Tracks) (he : op.Effect w.document d) : (w.after d op).Tracks := by
  have ha := Document.apart_of_effect h.apart he
  cases op with
  | upgradeReadOnly text diskRevision =>
    subst he
    cases hro : w.document.readOnly with
    | false =>
      simp only [after, hro, if_true]
      exact h
    | true =>
      simp only [after, hro, if_true]
      exact tracks_adopt History.apart_standard rfl rfl rfl
  | edit expected replacements kind cursorBefore cursorAfter =>
    obtain ⟨-, t, a, b', -, -, hedited, rfl⟩ := he
    exact h.refreshed (by simpa using ha)
  | undo | redo =>
    obtain ⟨t, h', a, b', -, hedited, rfl⟩ := he
    exact h.refreshed (by simpa using ha)
  | completeSave expected diskRevision =>
    obtain ⟨-, rfl⟩ := he
    exact tracks_adopt ha rfl rfl rfl
  | observeDiskChange expected diskRevision diskText =>
    obtain ⟨-, he⟩ := he
    by_cases hclean : w.document.status = .clean
    · rw [if_pos hclean] at he
      obtain ⟨a, b', hedited, rfl⟩ := he
      simp only [after, if_pos hclean]
      exact tracks_adopt ha (Document.Edited.whole hedited) rfl rfl
    · rw [if_neg hclean] at he
      subst he
      simp only [after, if_neg hclean]
      rw [← h.saved]
      exact tracks_blocked ha nofun nofun fun _ _ hc => by cases hc; rfl
  | observeMissing expected =>
    obtain ⟨-, rfl⟩ := he
    simp only [after, ← h.saved]
    exact tracks_blocked ha nofun nofun nofun
  | reloadFromDisk =>
    obtain ⟨diskRevision, diskText, hs, a, b', hedited, rfl⟩ := he
    have htext := h.conflict _ _ hs
    exact tracks_adopt ha ((Document.Edited.whole hedited).trans htext) htext rfl
  | keepEditing =>
    obtain ⟨-, rfl⟩ := he
    exact ⟨ha, h.saved, nofun, nofun, nofun⟩
  | markRecovered =>
    subst he
    exact h.recovered ha
  | restoreRecovery text =>
    simp only [DocumentOp.Effect] at he
    split at he
    · subst he
      exact h.recovered ha
    · obtain ⟨a, b', -, rfl⟩ := he
      exact h.recovered ha

theorem Tracks.step (h : w.Tracks) (hs : w.step op = some w') : w'.Tracks := by
  have hspec := w.document.run_spec h.apart op
  unfold Reported.step at hs
  cases hx : op.run.exec w.document with
  | none => simp only [hx] at hs; cases hs
  | some r =>
    obtain ⟨r, d⟩ := r
    cases r with
    | ok u =>
      simp only [hx] at hs
      cases hs
      exact h.effect (hspec.of_ok hx)
    | error e =>
      simp only [hx] at hs
      cases hs
      have hrefused := hspec.of_error hx
      have ha := Document.apart_of_refused h.apart hrefused
      obtain ⟨h', rfl⟩ := Document.refused_eq hrefused
      exact ⟨ha, h.saved, h.clean, h.conflict, h.settled⟩

/-- In every run, a clean document has the text of the version on disk that it took over last, and
that is the newest version it was told of, unless Keep Editing put that one aside. -/
theorem clean_law {id : DocumentId} {path : RelativeDocumentPath} {text : String}
    {diskRevision : DiskRevision} {readOnly : Bool}
    (h : Runs step (fun _ _ => True) (opened id path text diskRevision readOnly) w)
    (hclean : w.document.status = .clean) :
    w.document.buffer.text = w.baseline ∧
      (w.acknowledged = false → w.document.buffer.text = w.latest) := by
  have htracks : w.Tracks := h.invariant (I := Tracks)
    (tracks_adopt History.apart_standard rfl rfl rfl) fun _ _ _ hI _ hs => hI.step hs
  have htext := htracks.clean hclean
  exact ⟨htext, fun hack => htext.trans (htracks.settled (.inl hclean) hack)⟩

/-- A reload of a conflict, with the text on disk. -/
theorem clean_law_reload : ∃ w : Reported,
    Runs step (fun _ _ => True) (opened ⟨0⟩ ⟨"a"⟩ "one" ⟨"1"⟩ false) w ∧
      w.document.buffer.text = "disk".toList ∧ w.document.buffer.text = w.baseline ∧
      w.document.buffer.text = w.latest := by
  have hruns : ([.edit ⟨0⟩ [⟨⟨3, 3⟩, "!"⟩] .typing 3 4, .observeDiskChange ⟨1⟩ ⟨"2"⟩ "disk",
      .reloadFromDisk].foldlM step (opened ⟨0⟩ ⟨"a"⟩ "one" ⟨"1"⟩ false)).any fun w =>
        w.document.status = .clean ∧ w.acknowledged = false ∧
          w.document.buffer.text = "disk".toList := by
    decide
  obtain ⟨w, hw, hend⟩ := (Option.any_eq_true _ _).mp hruns
  obtain ⟨hclean, hack, htext⟩ := of_decide_eq_true hend
  have hto : Runs step (fun _ _ => True) (opened ⟨0⟩ ⟨"a"⟩ "one" ⟨"1"⟩ false) w :=
    Along.runs (by decide) hw
  obtain ⟨hbaseline, hlatest⟩ := clean_law hto hclean
  exact ⟨w, hto, htext, hbaseline, hlatest hack⟩

/-- An edit, another text on disk, Keep Editing and an undo: clean, but not the text on disk. -/
theorem kept_clean : ∃ (ops : List DocumentOp) (w : Reported),
    ops.foldlM step (opened ⟨0⟩ ⟨"a"⟩ "one" ⟨"1"⟩ false) = some w ∧
      w.document.status = .clean ∧ w.document.buffer.text = "one".toList ∧
      w.latest = "disk".toList := by
  let ops : List DocumentOp := [.edit ⟨0⟩ [⟨⟨3, 3⟩, "!"⟩] .typing 3 4,
    .observeDiskChange ⟨1⟩ ⟨"2"⟩ "disk", .keepEditing, .undo]
  have hruns : (ops.foldlM step (opened ⟨0⟩ ⟨"a"⟩ "one" ⟨"1"⟩ false)).any fun w =>
      w.document.status = .clean ∧ w.document.buffer.text = "one".toList ∧
        w.latest = "disk".toList := by
    decide
  obtain ⟨w, hw, hend⟩ := (Option.any_eq_true _ _).mp hruns
  exact ⟨ops, w, hw, of_decide_eq_true hend⟩

end Reported
end Strukt
