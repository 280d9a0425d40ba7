import Strukt.Editor.DiskRuns

/-!
# What a conflict is about

An observed disk change looks at the document's status only. `Noticed` is a document with what it
was told of the disk, and whether since it was last clean its file was reported missing or changed.

* **The reasons** (`Explained`): a document that is not clean has another text than the version it
  took over, or carries recovered text, or was noticed.
* **The law** (`conflict_law`): an observed change is a conflict for one of these reasons, and else
  the document takes the text on disk.
* **Back again** (`missing_conflict`): a file that was missing and is as it was is a conflict.
-/

namespace Strukt

open Method

/-- The operation tells of the file. -/
def DocumentOp.isNotice : DocumentOp → Bool
  | .observeDiskChange .. | .observeMissing _ => true
  | _ => false

structure Noticed where
  report : Reported
  noticed : Bool

namespace Noticed

def opened (id : DocumentId) (path : RelativeDocumentPath) (text : String)
    (diskRevision : DiskRevision) (readOnly : Bool) : Noticed :=
  ⟨.opened id path text diskRevision readOnly, false⟩

/-- What is known when the operation has succeeded and left `d`. -/
def after (w : Noticed) (d : Document) (op : DocumentOp) : Noticed :=
  ⟨w.report.after d op, d.status ≠ .clean && (op.isNotice || w.noticed)⟩

def step (w : Noticed) (op : DocumentOp) : Option Noticed :=
  match op.run.exec w.report.document with
  | some (.ok _, d) => some (w.after d op)
  | some (.error _, d) => some { w with report := { w.report with document := d } }
  | none => none

/-- Why a document is not clean. -/
structure Explains (d : Document) (noticed : Bool) : Prop where
  clean : d.status = .clean → noticed = false
  blocked : d.status ≠ .clean → d.status ≠ .dirty → noticed = true
  dirty : d.status = .dirty → d.buffer.text ≠ d.savedText ∨ d.recovered = true ∨ noticed = true

variable {w w' : Noticed} {d d' : Document} {op : DocumentOp} {noticed : Bool}

theorem document_after (w : Reported) (d : Document) (op : DocumentOp) :
    (w.after d op).document = d := by
  cases op <;> unfold Reported.after <;> try rfl
  all_goals
    dsimp only
    split <;> rfl

theorem explains_of_clean (h : d.status = .clean) (noticed : Bool) :
    Explains d (d.status ≠ .clean && noticed) := by
  refine ⟨fun _ => ?_, fun hne => absurd h hne, fun hd => ?_⟩
  · rw [h]
    rfl
  · rw [h] at hd
    cases hd

theorem explains_of_notice (h : d.status ≠ .clean) :
    Explains d (d.status ≠ .clean && true) := by
  have htrue : (decide (d.status ≠ .clean) && true) = true := by
    rw [Bool.and_true]
    exact decide_eq_true h
  exact ⟨fun hc => absurd hc h, fun _ _ => htrue, fun _ => .inr (.inr htrue)⟩

/-- An edit compares the text with the version taken over, unless the status stays. -/
theorem Explains.refreshed (h : Explains d noticed) (b : TextBuffer) (history : History) :
    Explains ({ d with buffer := b, history := history } : Document).refreshed
      (({ d with buffer := b, history := history } : Document).refreshed.status ≠ .clean &&
        noticed) := by
  unfold Document.refreshed
  dsimp only
  cases hs : d.status with
  | clean | dirty =>
    dsimp only
    by_cases htext : b.text = d.savedText
    · rw [if_pos htext]
      exact explains_of_clean rfl noticed
    · rw [if_neg htext]
      exact ⟨nofun, fun _ hne => absurd rfl hne, fun _ => .inl htext⟩
  | conflict | missing =>
    have hnoticed : noticed = true := h.blocked (by rw [hs]; nofun) (by rw [hs]; nofun)
    subst hnoticed
    exact explains_of_notice nofun

theorem Explains.recovered (h : Explains d noticed) (b : TextBuffer) (history : History) :
    Explains { d with
        buffer := b
        history := history
        recovered := true
        status := if d.status = .clean then .dirty else d.status }
      ((if d.status = .clean then .dirty else d.status) ≠ .clean && noticed) := by
  by_cases hclean : d.status = .clean
  · rw [if_pos hclean]
    exact ⟨nofun, fun _ hne => absurd rfl hne, fun _ => .inr (.inl rfl)⟩
  · rw [if_neg hclean]
    have hand : (decide (d.status ≠ .clean) && noticed) = noticed := by
      rw [decide_eq_true hclean, Bool.true_and]
    rw [hand]
    exact ⟨fun hc => absurd hc hclean, fun _ hd => h.blocked hclean hd, fun _ => .inr (.inl rfl)⟩

theorem Explains.effect (h : Explains d noticed) (he : op.Effect d d') :
    Explains d' (d'.status ≠ .clean && (op.isNotice || noticed)) := by
  cases op with
  | upgradeReadOnly text diskRevision =>
    subst he
    cases hro : d.readOnly with
    | false =>
      rw [if_pos rfl]
      by_cases hclean : d.status = .clean
      · exact explains_of_clean hclean _
      · rw [decide_eq_true hclean]
        exact h
    | true => exact explains_of_clean rfl _
  | edit expected replacements kind cursorBefore cursorAfter =>
    obtain ⟨-, t, a, b', -, -, -, rfl⟩ := he
    exact h.refreshed _ _
  | undo | redo =>
    obtain ⟨t, h', a, b', -, -, rfl⟩ := he
    exact h.refreshed _ _
  | completeSave expected diskRevision =>
    obtain ⟨-, rfl⟩ := he
    exact explains_of_clean rfl _
  | observeDiskChange expected diskRevision diskText =>
    obtain ⟨-, he⟩ := he
    split at he
    · obtain ⟨a, b', -, rfl⟩ := he
      exact explains_of_clean rfl _
    · subst he
      exact explains_of_notice nofun
  | observeMissing expected =>
    obtain ⟨-, rfl⟩ := he
    exact explains_of_notice nofun
  | reloadFromDisk =>
    obtain ⟨diskRevision, diskText, -, a, b', -, rfl⟩ := he
    exact explains_of_clean rfl _
  | keepEditing =>
    obtain ⟨⟨diskRevision, diskText, hs⟩, rfl⟩ := he
    have hnoticed : noticed = true := h.blocked (by rw [hs]; nofun) (by rw [hs]; nofun)
    subst hnoticed
    exact explains_of_notice nofun
  | markRecovered =>
    subst he
    exact h.recovered _ _
  | restoreRecovery text =>
    simp only [DocumentOp.Effect] at he
    split at he
    · subst he
      exact h.recovered _ _
    · obtain ⟨a, b', -, rfl⟩ := he
      exact h.recovered _ _

/-- What the document was told is known, and explains its status. -/
structure Explained (w : Noticed) : Prop where
  tracks : w.report.Tracks
  explains : Explains w.report.document w.noticed

theorem Explained.step (h : w.Explained) (hs : w.step op = some w') : w'.Explained := by
  have hspec := w.report.document.run_spec h.tracks.apart op
  have htracks : ∀ r, w.report.step op = some r → r.Tracks := fun r hr => h.tracks.step hr
  unfold Noticed.step at hs
  unfold Reported.step at htracks
  cases hx : op.run.exec w.report.document with
  | none => simp only [hx] at hs; cases hs
  | some r =>
    obtain ⟨r, d⟩ := r
    cases r with
    | ok u =>
      simp only [hx] at hs htracks
      cases hs
      refine ⟨htracks _ rfl, ?_⟩
      have hexplains := h.explains.effect (hspec.of_ok hx)
      unfold after
      rw [document_after]
      exact hexplains
    | error e =>
      simp only [hx] at hs htracks
      cases hs
      refine ⟨htracks _ rfl, ?_⟩
      obtain ⟨h', rfl⟩ := Document.refused_eq (hspec.of_error hx)
      exact ⟨h.explains.clean, h.explains.blocked, h.explains.dirty⟩

/-- In every run, an accepted disk change becomes a conflict only if the text is not that of the
version on disk that the document took over last, or it carries recovered text, or since it was
last clean its file was reported missing or changed. Else the document is clean with the text on
disk. -/
theorem conflict_law {id : DocumentId} {path : RelativeDocumentPath} {text : String}
    {diskRevision : DiskRevision} {readOnly : Bool} {w : Noticed}
    (h : Runs step (fun _ _ => True) (opened id path text diskRevision readOnly) w)
    {expected : Revision} {revision : DiskRevision} {diskText : String} {d : Document}
    (hx : (Document.observeDiskChange expected revision diskText).exec w.report.document =
      some (.ok (), d)) :
    (d = { w.report.document with status := .conflict revision diskText } ∧
      (w.report.document.buffer.text ≠ w.report.baseline ∨ w.report.document.recovered = true ∨
        w.noticed = true)) ∨
    (d.status = .clean ∧ d.buffer.text = diskText.toList ∧
      w.report.document.buffer.text = w.report.baseline ∧ w.noticed = false) := by
  have hstart : (opened id path text diskRevision readOnly).Explained :=
    ⟨Reported.tracks_adopt History.apart_standard rfl rfl rfl, explains_of_clean rfl false⟩
  obtain ⟨htracks, hexplains⟩ := h.invariant (I := Explained) hstart fun _ _ _ hI _ hs => hI.step hs
  obtain ⟨-, he⟩ := (w.report.document.run_spec htracks.apart
    (.observeDiskChange expected revision diskText)).of_ok hx
  split at he
  · next hclean =>
    obtain ⟨a, b', hedited, rfl⟩ := he
    exact .inr ⟨rfl, Document.Edited.whole hedited, htracks.clean hclean, hexplains.clean hclean⟩
  · next hclean =>
    refine .inl ⟨he, ?_⟩
    rw [← htracks.saved]
    by_cases hdirty : w.report.document.status = .dirty
    · exact hexplains.dirty hdirty
    · exact .inr (.inr (hexplains.blocked hclean hdirty))

/-- An edit, and then another text on disk: a conflict about another text. -/
theorem conflict_law_edit : ∃ w d,
    Runs step (fun _ _ => True) (opened ⟨0⟩ ⟨"a"⟩ "one" ⟨"1"⟩ false) w ∧
      (Document.observeDiskChange ⟨1⟩ ⟨"2"⟩ "disk").exec w.report.document = some (.ok (), d) ∧
      d = { w.report.document with status := .conflict ⟨"2"⟩ "disk" } ∧
      w.report.document.buffer.text ≠ w.report.baseline := by
  have hruns : ([.edit ⟨0⟩ [⟨⟨3, 3⟩, "!"⟩] .typing 3 4].foldlM step
      (opened ⟨0⟩ ⟨"a"⟩ "one" ⟨"1"⟩ false)).any fun w =>
        w.report.document.status ≠ .clean ∧ w.report.document.recovered = false ∧
          w.noticed = false ∧
          (Document.observeDiskChange ⟨1⟩ ⟨"2"⟩ "disk").exec w.report.document =
            some (.ok (), { w.report.document with status := .conflict ⟨"2"⟩ "disk" }) := by
    decide
  obtain ⟨w, hw, hend⟩ := (Option.any_eq_true _ _).mp hruns
  obtain ⟨hdirty, hrecovered, hnoticed, hx⟩ := of_decide_eq_true hend
  have hto : Runs step (fun _ _ => True) (opened ⟨0⟩ ⟨"a"⟩ "one" ⟨"1"⟩ false) w :=
    Along.runs (by decide) hw
  refine ⟨w, _, hto, hx, rfl, ?_⟩
  obtain ⟨-, htext | hbad | hbad⟩ | ⟨hclean, -⟩ := conflict_law hto hx
  · exact htext
  · rw [hrecovered] at hbad
    cases hbad
  · rw [hnoticed] at hbad
    cases hbad
  · cases hclean

/-- A file that was missing appears again as it was: a conflict, of equal texts. -/
theorem missing_conflict : ∃ w d,
    Runs step (fun _ _ => True) (opened ⟨0⟩ ⟨"a"⟩ "one" ⟨"1"⟩ false) w ∧
      (Document.observeDiskChange ⟨0⟩ ⟨"2"⟩ "one").exec w.report.document = some (.ok (), d) ∧
      w.report.document.buffer.text = w.report.latest ∧ w.report.document.recovered = false ∧
      d.status = .conflict ⟨"2"⟩ "one" := by
  have hruns : ([.observeMissing ⟨0⟩].foldlM step
      (opened ⟨0⟩ ⟨"a"⟩ "one" ⟨"1"⟩ false)).any fun w =>
        w.report.document.buffer.text = w.report.latest ∧ w.report.document.recovered = false ∧
          (Document.observeDiskChange ⟨0⟩ ⟨"2"⟩ "one").exec w.report.document =
            some (.ok (), { w.report.document with status := .conflict ⟨"2"⟩ "one" }) := by
    decide
  obtain ⟨w, hw, hend⟩ := (Option.any_eq_true _ _).mp hruns
  obtain ⟨htext, hrecovered, hx⟩ := of_decide_eq_true hend
  exact ⟨w, _, Along.runs (by decide) hw, hx, htext, hrecovered, rfl⟩

end Noticed
end Strukt
