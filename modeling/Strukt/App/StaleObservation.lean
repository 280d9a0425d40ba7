import Strukt.App.DiskObservation

/-!
# Stale observations

An observation is stale when it has read an older version of the file than that of a save whose
message was delivered. `observation_law` says which of them are inert: exactly those that are
`Harmless`, because the document was edited meanwhile, because they read what the save that was
delivered last wrote, or because they show what the document has already.

The guard against an observation of one's own save is spent once and compares contents: a read
before the save, delivered after it, takes a clean document back to its old text
(`stale_read_reverts`).
-/

namespace Strukt

open Method EditTransaction

/-- What a document says of its file. -/
def Document.shown (d : Document) : Rope × DocumentStatus × DiskRevision :=
  (d.buffer.text, d.status, d.diskRevision)

/-- What was observed is refused for the document's revision, or it is what the document has. -/
def Document.Unmoved (d : Document) : EditorOp → Prop
  | .observeDiskChange _ expected diskRevision diskText =>
    d.buffer.revision ≠ expected ∨
      if d.status = .clean then
        d.buffer.revision.value = -1 ∨ d.shown = (diskText.toList, .clean, diskRevision)
      else d.status = .conflict diskRevision diskText
  | .observeMissing _ expected => d.buffer.revision ≠ expected ∨ d.status = .missing
  | _ => True

instance (d : Document) : (op : EditorOp) → Decidable (d.Unmoved op)
  | .observeDiskChange _ _ _ _ => inferInstanceAs (Decidable (_ ∨ _))
  | .observeMissing _ _ => inferInstanceAs (Decidable (_ ∨ _))
  | .openDocument _ _ _ _ _ | .edit _ _ _ _ _ _ | .undo _ | .redo _ | .completeSave _ _ _
  | .select _ | .pinDocument _ | .markRecovered _ | .reloadFromDisk _ | .keepEditing _
  | .restoreRecovery _ _ | .requestClose _ | .resolveClose _ _ | .elsewhere => isTrue trivial

namespace Document

variable {d : Document}

/-- Only a revision that is used up keeps the whole text from being replaced. -/
theorem wp_applyWhole (text : String) :
    wp (applyBuffer (d.whole text))
      (fun a d' => ∃ b', d' = { d with buffer := b' } ∧
        TextBuffer.Edited d.buffer (d.whole text) a b')
      (fun _ d' => d' = d ∧ d.buffer.revision.value = -1) False d := by
  rw [applyBuffer, wp_focus]
  have hadmits : ¬d.buffer.Admits (d.whole text) → d.buffer.revision.value = -1 := fun h => by
    by_contra hne
    refine h ⟨rfl, hne, fun r hr => ?_⟩
    rw [List.mem_singleton.mp hr]
    exact ⟨Nat.zero_le _, le_rfl⟩
  refine wp_mono (TextBuffer.apply_spec (t := d.whole text) rfl) ?_ ?_ ?_
  · rintro a b' ⟨-, he⟩
    exact ⟨b', rfl, he⟩
  · rintro e b' ⟨rfl, hno⟩
    exact ⟨rfl, hadmits hno⟩
  · rintro ⟨-, r, hr, hlt⟩
    rw [List.mem_singleton.mp hr] at hlt
    exact absurd hlt (Nat.not_lt_zero _)

/-- An observation leaves a document that shows the same exactly where it is unmoved. -/
theorem observeDiskChange_shown (id : DocumentId) (expected : Revision)
    (diskRevision : DiskRevision) (diskText : String) :
    wp (observeDiskChange expected diskRevision diskText)
      (fun _ d' => d'.id = d.id ∧
        (d'.shown = d.shown ↔ d.Unmoved (.observeDiskChange id expected diskRevision diskText)))
      (fun _ d' => d'.id = d.id ∧
        (d'.shown = d.shown ↔ d.Unmoved (.observeDiskChange id expected diskRevision diskText)))
      False d := by
  simp only [observeDiskChange, ensureRevision, wp_bind, wp_get, wp_ensure, wp_ite, wp_modify,
    wp_replaceAll, wp_discard, Unmoved]
  refine ⟨fun hrev => ⟨fun hclean => ?_, fun hclean => ?_⟩, fun hstale => ?_⟩
  · refine wp_mono (wp_applyWhole diskText) ?_ ?_ False.elim
    · rintro a _ ⟨b', rfl, he⟩
      have hmax : d.buffer.revision.value ≠ -1 := TextBuffer.Revision.next_eq_ok he.next
      have htext : b'.text = diskText.toList := Edited.whole he
      refine ⟨rfl, ?_⟩
      rw [if_pos hclean]
      simp only [shown, htext, hrev, hmax, ne_eq, not_true_eq_false, false_or, eq_comm]
    · rintro e _ ⟨rfl, hmax⟩
      refine ⟨rfl, ?_⟩
      rw [if_pos hclean]
      exact ⟨fun _ => .inr (.inl hmax), fun _ => rfl⟩
  · refine ⟨trivial, ?_⟩
    rw [if_neg hclean]
    simp [shown, hrev, eq_comm]
  · exact ⟨trivial, fun _ => .inl (Ne.symm hstale), fun _ => trivial⟩

theorem observeMissing_shown (id : DocumentId) (expected : Revision) :
    wp (observeMissing expected)
      (fun _ d' => d'.id = d.id ∧
        (d'.shown = d.shown ↔ d.Unmoved (.observeMissing id expected)))
      (fun _ d' => d'.id = d.id ∧
        (d'.shown = d.shown ↔ d.Unmoved (.observeMissing id expected))) False d := by
  simp only [observeMissing, ensureRevision, wp_bind, wp_get, wp_ensure, wp_modify, Unmoved]
  refine ⟨fun hrev => ⟨trivial, ?_⟩, fun hstale => ?_⟩
  · simp [shown, hrev, eq_comm]
  · exact ⟨trivial, fun _ => .inl (Ne.symm hstale), fun _ => trivial⟩

end Document

/-! ## The editor -/

namespace EditorWorkspace

variable {w w' : EditorWorkspace} {id : DocumentId}

/-- What the editor shows of the document. -/
def shown (w : EditorWorkspace) (id : DocumentId) : Option (Rope × DocumentStatus × DiskRevision) :=
  (w.document id).map Document.shown

/-- A method that observes, called on the document under `id`. -/
theorem wp_onDocument_shown {x : DocumentM Unit} {op : EditorOp}
    (h : ∀ d, wp x (fun _ d' => d'.id = d.id ∧ (d'.shown = d.shown ↔ d.Unmoved op))
      (fun _ d' => d'.id = d.id ∧ (d'.shown = d.shown ↔ d.Unmoved op)) False d) :
    wp (onDocument id x)
      (fun _ w' => w'.shown id = w.shown id ↔ ∀ d, w.document id = some d → d.Unmoved op)
      (fun _ w' => w'.shown id = w.shown id ↔ ∀ d, w.document id = some d → d.Unmoved op)
      False w := by
  rw [wp_onDocument]
  refine ⟨fun d hd => ?_, fun hnone => ⟨fun _ d hd => ?_, fun _ => rfl⟩⟩
  · have hafter : ∀ d', d'.id = d.id ∧ (d'.shown = d.shown ↔ d.Unmoved op) →
        (shown { w with documents := replaceDocument id d' w.documents } id = w.shown id ↔
          ∀ e, w.document id = some e → e.Unmoved op) := by
      rintro d' ⟨hid, hiff⟩
      have hd' : document { w with documents := replaceDocument id d' w.documents } id =
          some d' := find?_replaceDocument_self (hid.trans (mem_of_document hd).2) hd
      unfold shown
      rw [hd', hd]
      simpa using hiff
    exact wp_mono (h d) (fun _ d' => hafter d') (fun _ d' => hafter d') False.elim
  · rw [hnone] at hd
    cases hd

theorem pin_documents (id : DocumentId) :
    wp (pin id) (fun _ w' => w'.documents = w.documents) (fun _ w' => w'.documents = w.documents)
      False w := by
  simp only [pin, wp_bind, wp_get, wp_discard, wp_okOr, wp_modify, implies_true, and_self]

theorem shown_of_documents (h : w'.documents = w.documents) (id : DocumentId) :
    w'.shown id = w.shown id := by
  unfold shown document
  rw [h]

/-- An operation that observes the document under `id`. -/
inductive Observes (id : DocumentId) : EditorOp → Prop where
  | present (expected : Revision) (diskRevision : DiskRevision) (text : String) :
    Observes id (.observeDiskChange id expected diskRevision text)
  | missing (expected : Revision) : Observes id (.observeMissing id expected)

/-- An observation does not panic, and it shows in the document where that is not unmoved. -/
theorem step_observes {op : EditorOp} (ho : Observes id op) :
    ∃ w', w.step op = some w' ∧
      (w'.shown id = w.shown id ↔ ∀ d, w.document id = some d → d.Unmoved op) := by
  have hpin : ∀ w₁ : EditorWorkspace,
      (w₁.shown id = w.shown id ↔ ∀ d, w.document id = some d → d.Unmoved op) →
      wp (pin id)
        (fun _ w' => w'.shown id = w.shown id ↔ ∀ d, w.document id = some d → d.Unmoved op)
        (fun _ w' => w'.shown id = w.shown id ↔ ∀ d, w.document id = some d → d.Unmoved op)
        False w₁ := fun w₁ h => by
    refine wp_mono (pin_documents id) (fun _ w' hw => ?_) (fun _ w' hw => ?_) False.elim
    · rw [shown_of_documents hw]
      exact h
    · rw [shown_of_documents hw]
      exact h
  have hrun : wp op.run
      (fun _ w' => w'.shown id = w.shown id ↔ ∀ d, w.document id = some d → d.Unmoved op)
      (fun _ w' => w'.shown id = w.shown id ↔ ∀ d, w.document id = some d → d.Unmoved op)
      False w := by
    cases ho with
    | present expected diskRevision text =>
      simp only [EditorOp.run, observeDiskChange, wp_bind, wp_get, wp_ite, wp_pure]
      refine wp_mono (wp_onDocument_shown fun d => d.observeDiskChange_shown id _ _ _)
        (fun _ w₁ h => ⟨fun _ => hpin w₁ h, fun _ => h⟩) (fun _ _ h => h) False.elim
    | missing expected =>
      simp only [EditorOp.run, observeMissing, wp_bind]
      exact wp_mono (wp_onDocument_shown fun d => d.observeMissing_shown id _)
        (fun _ w₁ h => hpin w₁ h) (fun _ _ h => h) False.elim
  obtain ⟨r, w', hx⟩ := hrun.ends
  exact ⟨w', congrArg (Option.map Prod.snd) hx, hrun.state hx⟩

end EditorWorkspace
end Strukt

namespace Strukt.App

open Strukt.Fs

/-! ## The session -/

/-- What the message of an observation observed. -/
def DiskMessage.observation (m : DiskMessage) :
    Option (Except DocumentIoError DiskObservation) :=
  match m.result with
  | .observed result => some result
  | .saved _ => none

/-- A save that wrote a newer version was delivered. -/
def DiskMessage.Stale (s : EditorSession) (m : DiskMessage) : Prop :=
  ∃ v ∈ s.completed.get? m.id, m.version < v

instance (s : EditorSession) (m : DiskMessage) : Decidable (m.Stale s) :=
  inferInstanceAs (Decidable (∃ v ∈ s.completed.get? m.id, m.version < v))

namespace EditorSession

variable {revision : ByteArray → DiskRevision}

/-- A stale observation leaves its document's text, status and disk revision. -/
def Inert (revision : ByteArray → DiskRevision) (s : EditorSession) : DiskAction → Prop
  | .deliver n => ∀ m ∈ s.messages[n]?, m.observation ≠ none → m.Stale s →
      ∀ s' ∈ s.step revision (.deliver n), s'.editor.shown m.id = s.editor.shown m.id
  | _ => True

instance (s : EditorSession) : (o : DiskAction) → Decidable (s.Inert revision o)
  | .deliver n => inferInstanceAs (Decidable (∀ m ∈ s.messages[n]?, m.observation ≠ none →
      m.Stale s → ∀ s' ∈ s.step revision (.deliver n), s'.editor.shown m.id = s.editor.shown m.id))
  | .editor _ | .openWorkspace _ | .closeDocument _ | .resolveClose _ _ | .saveDocument _ _
  | .observeDocument _ | .externalWrite _ _ _ | .perform _ | .fail _ => isTrue trivial

/-- The observation is dropped or refused, or it shows what the document has. -/
def Idle (s : EditorSession) (m : DiskMessage) (result : Except DocumentIoError DiskObservation) :
    Prop :=
  m.workspaceRoot ≠ s.workspaceRoot ∨ s.isRecentSave m.id result = true ∨
    ∀ op ∈ DiskObservation.operation m.id m.expectedRevision result,
      ∀ d ∈ s.editor.document m.id, d.Unmoved op

/-- A stale observation that is delivered is idle. -/
def Harmless (s : EditorSession) : DiskAction → Prop
  | .deliver n => ∀ m ∈ s.messages[n]?, ∀ result ∈ m.observation, m.Stale s → s.Idle m result
  | _ => True

theorem observes_operation {id : DocumentId} {expected : Revision}
    {result : Except DocumentIoError DiskObservation} {op : EditorOp}
    (h : DiskObservation.operation id expected result = some op) :
    EditorWorkspace.Observes id op := by
  unfold DiskObservation.operation at h
  split at h
  · split at h
    · obtain ⟨text, -, rfl⟩ := Option.map_eq_some_iff.mp h
      exact .present _ _ _
    · cases h
      exact .missing _
  · cases h
    exact .missing _
  · cases h

/-- An observation is received, and it shows exactly where it is not idle. -/
theorem receive_observed {s : EditorSession} {m : DiskMessage}
    {result : Except DocumentIoError DiskObservation} (hm : m.observation = some result) :
    ∃ s', s.receive m = some s' ∧
      (s'.editor.shown m.id = s.editor.shown m.id ↔ s.Idle m result) := by
  unfold receive Idle
  by_cases hroot : m.workspaceRoot ≠ s.workspaceRoot
  · rw [if_pos hroot]
    exact ⟨s, rfl, fun _ => .inl hroot, fun _ => rfl⟩
  · have hresult : m.result = .observed result := by
      unfold DiskMessage.observation at hm
      split at hm
      · rename_i r hr
        cases hm
        exact hr
      · cases hm
    rw [if_neg hroot, hresult]
    dsimp only [documentDiskObserved]
    by_cases hrecent : s.isRecentSave m.id result = true
    · rw [if_pos hrecent]
      exact ⟨_, rfl, fun _ => .inr (.inl hrecent), fun _ => rfl⟩
    · rw [if_neg hrecent]
      cases hop : DiskObservation.operation m.id m.expectedRevision result with
      | none => exact ⟨_, rfl, fun _ => .inr (.inr (by simp)), fun _ => rfl⟩
      | some op =>
        obtain ⟨editor, hs, hiff⟩ :=
          EditorWorkspace.step_observes (w := s.editor) (observes_operation hop)
        refine ⟨_, congrArg (Option.map _) hs, hiff.trans ?_⟩
        simp [hroot, hrecent]

theorem inert_iff_harmless (s : EditorSession) (o : DiskAction) :
    s.Inert revision o ↔ s.Harmless o := by
  cases o with
  | deliver n =>
    have hstep : ∀ m, s.messages[n]? = some m → s.step revision (.deliver n) =
        receive { s with messages := s.messages.eraseIdx n } m := fun m hm => by
      simp only [step, hm, Option.bind_some]
    refine forall₂_congr fun m hm => ?_
    rw [hstep m hm]
    cases hobs : m.observation with
    | none => simp
    | some result =>
      obtain ⟨s', hs', hiff⟩ :=
        receive_observed (s := { s with messages := s.messages.eraseIdx n }) hobs
      have hidle : s'.editor.shown m.id = s.editor.shown m.id ↔ s.Idle m result := hiff
      rw [hs']
      simp [hidle]
  | editor | openWorkspace | closeDocument | resolveClose | saveDocument | observeDocument
  | externalWrite | perform | fail => exact Iff.rfl

/-- In every run, the observations that have read an older version than a save that was delivered
are inert exactly where each of them is harmless in the state that it is delivered in. -/
theorem observation_law (revision : ByteArray → DiskRevision) (root : PathBuf)
    (files : PathBuf → RelativeDocumentPath → FileState) (nextDocumentId : Nat)
    (actions : List DiskAction) :
    Along (step revision) (Inert revision) actions (start root files nextDocumentId) ↔
      Along (step revision) Harmless actions (start root files nextDocumentId) :=
  along_iff (I := fun _ => True) trivial (fun s o _ => inert_iff_harmless s o)
    fun _ _ _ _ _ _ => trivial

/-- An observation reads the old text, a save writes the new one and is delivered, and then the
observation is: the clean document has the old text again. -/
theorem stale_read_reverts :
    ¬∀ revision : ByteArray → DiskRevision, Function.Injective revision →
      ∀ (root : PathBuf) (files : PathBuf → RelativeDocumentPath → FileState)
        (nextDocumentId : Nat) (actions : List DiskAction),
        Along (step revision) (Inert revision) actions (start root files nextDocumentId) := by
  intro h
  have hrun := h bytesRevision bytesRevision_injective ⟨[]⟩
    (fun _ _ => ⟨0, some (.file "one".toUTF8)⟩) 0
    [.editor (.openDocument ⟨"a"⟩ "one" (bytesRevision "one".toUTF8) false .pinned),
      .editor (.edit ⟨0⟩ ⟨0⟩ [⟨⟨3, 3⟩, "!"⟩] .typing 3 4), .saveDocument ⟨0⟩ .ifUnchanged,
      .observeDocument ⟨0⟩, .perform 1, .perform 0, .deliver 1, .deliver 0]
  revert hrun
  decide +kernel

end EditorSession
end Strukt.App
