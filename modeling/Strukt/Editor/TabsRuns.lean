import Strukt.Editor.TabsSpec

/-!
# Revisions and unsaved text over whole runs

Two laws about each open document of a workspace, by its fates.

* **Revisions** (`revision_law`): while no read-only document is made editable at another revision
  or with another text, a revision names one text. What was made for another text is stale.
* **Unsaved text** (`discard_law`): an operation that is not meant to keeps a recoverable document
  and its text, exactly where it does not make it editable with another text, nor reload it as
  clean after a recovery.
-/

namespace Strukt

open Method

/-- The revision of a document, as a number. -/
def Document.version (d : Document) : Nat := d.buffer.revision.value.toNat

namespace EditorWorkspace

variable {w w' w'' : EditorWorkspace} {op : EditorOp} {dop : DocumentOp} {id : DocumentId}
  {d d' : Document}

theorem Valid.document_of_mem (hv : w.Valid) (h : d ∈ w.documents) : w.document d.id = some d := by
  cases hx : w.document d.id with
  | none => exact absurd (List.find?_eq_none.mp hx d h) (by simp)
  | some e =>
    obtain ⟨he, hid⟩ := mem_of_document hx
    exact congrArg some (List.inj_on_of_nodup_map hv.nodup he h hid)

/-- The document that a path names is the one under its identifier. -/
theorem Valid.document_of_path (hv : w.Valid) {path : RelativeDocumentPath}
    (hp : w.documents.find? (·.path = path) = some d') (hid : d'.id = id)
    (hd : w.document id = some d) : d' = d := by
  have hd' := hv.document_of_mem (List.mem_of_find?_eq_some hp)
  rw [hid] at hd'
  exact Option.some.inj (hd'.symm.trans hd)

/-! ## Revisions -/

/-- An `open` that makes a document editable finds it at its first revision, with its text. -/
def Resumes (w : EditorWorkspace) : EditorOp → Prop
  | .openDocument path text _ false _ => ∀ d ∈ w.documents.find? (·.path = path),
      d.readOnly = true → d.buffer.revision = .initial ∧ d.buffer.text = text.toList
  | _ => True

instance (w : EditorWorkspace) : (op : EditorOp) → Decidable (w.Resumes op)
  | .openDocument _ _ _ false _ => inferInstanceAs (Decidable (∀ d ∈ w.documents.find? _, _))
  | .openDocument _ _ _ true _ | .edit _ _ _ _ _ _ | .undo _ | .redo _ | .completeSave _ _ _
  | .select _ | .pinDocument _ | .markRecovered _ | .observeDiskChange _ _ _ _
  | .observeMissing _ _ | .reloadFromDisk _ | .keepEditing _ | .restoreRecovery _ _
  | .requestClose _ | .resolveClose _ _ | .elsewhere => isTrue trivial

theorem follows_of_edited {t : EditTransaction} {a : AppliedTransaction}
    (h : TextBuffer.Edited d.buffer t a d'.buffer) :
    Follows Document.version (·.buffer.text) d d' := by
  refine .of_lt ?_
  unfold Document.version
  rw [TextBuffer.Revision.next_toNat h.next]
  exact Nat.lt_succ_self _

theorem follows_of_buffer (h : d'.buffer = d.buffer) :
    Follows Document.version (·.buffer.text) d d' :=
  .of_eq (by unfold Document.version; rw [h]) (by rw [h])

/-- The revision goes up when the text changes. -/
theorem effect_follows (he : dop.Effect d d')
    (hup : ∀ text diskRevision, dop = .upgradeReadOnly text diskRevision → d.readOnly = true →
      d.buffer.revision = .initial ∧ d.buffer.text = text.toList) :
    Follows Document.version (·.buffer.text) d d' := by
  cases dop with
  | upgradeReadOnly text diskRevision =>
    subst he
    split
    · exact .refl _
    · rename_i hro
      obtain ⟨hrev, htext⟩ := hup text diskRevision rfl (Bool.not_eq_false _ ▸ hro)
      refine .of_eq ?_ htext
      unfold Document.version
      rw [hrev]
      rfl
  | edit expected replacements kind cursorBefore cursorAfter =>
    obtain ⟨-, t, a, b', -, -, hedited, rfl⟩ := he
    exact follows_of_edited (by simpa using hedited)
  | undo | redo =>
    obtain ⟨t, h', a, b', -, hedited, rfl⟩ := he
    exact follows_of_edited (by simpa using hedited)
  | completeSave expected diskRevision =>
    obtain ⟨-, rfl⟩ := he
    exact follows_of_buffer rfl
  | observeDiskChange expected diskRevision diskText =>
    obtain ⟨-, he⟩ := he
    split at he
    · obtain ⟨a, b', hedited, rfl⟩ := he
      exact follows_of_edited hedited
    · subst he
      exact follows_of_buffer rfl
  | observeMissing expected =>
    obtain ⟨-, rfl⟩ := he
    exact follows_of_buffer rfl
  | reloadFromDisk =>
    obtain ⟨diskRevision, diskText, -, a, b', hedited, rfl⟩ := he
    exact follows_of_edited hedited
  | keepEditing =>
    obtain ⟨-, rfl⟩ := he
    exact follows_of_buffer rfl
  | markRecovered =>
    subst he
    exact follows_of_buffer rfl
  | restoreRecovery text =>
    simp only [DocumentOp.Effect] at he
    split at he
    · subst he
      exact follows_of_buffer rfl
    · obtain ⟨a, b', hedited, rfl⟩ := he
      exact follows_of_edited hedited

/-- From one moment to a later one: each open document goes on, and none comes back. -/
structure Advances (w w' : EditorWorkspace) : Prop where
  counted : w.nextDocumentId ≤ w'.nextDocumentId
  gone : ∀ id : DocumentId, id.value < w.nextDocumentId → w.document id = none →
    w'.document id = none
  follows : ∀ id d d', w.document id = some d → w'.document id = some d' →
    Follows Document.version (·.buffer.text) d d'

theorem Advances.refl (w : EditorWorkspace) : Advances w w :=
  ⟨le_rfl, fun _ _ h => h, fun _ _ _ h h' => Option.some.inj (h.symm.trans h') ▸ .refl _⟩

theorem Valid.advances_trans (hv : w.Valid) (h : Advances w w') (h' : Advances w' w'') :
    Advances w w'' := by
  refine ⟨h.counted.trans h'.counted, fun id hid hnone => ?_, fun id d d'' hd hd'' => ?_⟩
  · exact h'.gone id (hid.trans_le h.counted) (h.gone id hid hnone)
  · obtain ⟨hmem, rfl⟩ := mem_of_document hd
    cases hd' : w'.document d.id with
    | none =>
      have := h'.gone d.id ((hv.counted d hmem).trans_le h.counted) hd'
      cases this.symm.trans hd''
    | some d' => exact (h.follows d.id d d' hd hd').trans (h'.follows d.id d' d'' hd' hd'')

theorem Valid.advances (hv : w.Valid) (hc : w.Resumes op) (hs : w.Stepped op w') :
    Advances w w' := by
  refine ⟨hs.counted, fun id hid hnone => ?_, fun id d d' hd hd' => ?_⟩
  · have hfate := hs.fates id
    rw [hnone] at hfate
    generalize w'.document id = o at hfate
    cases hfate with
    | stays => rfl
    | opened path text diskRevision readOnly heq => exact absurd heq hid.ne
  · have hfate := hs.fates id
    rw [hd, hd'] at hfate
    cases hfate with
    | stays => exact .refl _
    | refused ht hr =>
      obtain ⟨h', rfl⟩ := Document.refused_eq hr
      exact follows_of_buffer rfl
    | done ht he =>
      refine effect_follows he fun text diskRevision hdop hro => ?_
      subst hdop
      cases op with
      | openDocument path text' diskRevision' readOnly disposition =>
        cases readOnly with
        | true => cases ht
        | false =>
          obtain ⟨e, hp, heq⟩ := Option.map_eq_some_iff.mp ht
          cases heq
          obtain rfl := hv.document_of_path hp rfl hd
          exact hc e hp hro
      | edit | undo | redo | completeSave | select | pinDocument | markRecovered
      | observeDiskChange | observeMissing | reloadFromDisk | keepEditing | restoreRecovery
      | requestClose | resolveClose | elsewhere => cases ht

theorem valid_of_runs {n : Nat} {cond : EditorWorkspace → EditorOp → Prop}
    (h : Runs step cond (new n) w) : w.Valid :=
  h.invariant (I := Valid) (valid_new n) fun _ _ _ hI _ hs => (hI.step hs).valid

theorem Valid.advances_of_runs (hv : w.Valid) (h : Runs EditorWorkspace.step Resumes w w') :
    Advances w w' := by
  have key : w'.Valid ∧ Advances w w' := by
    induction h with
    | refl => exact ⟨hv, .refl w⟩
    | tail _ hnext ih =>
      obtain ⟨hv', hadvances⟩ := ih
      obtain ⟨op, hc, hs⟩ := hnext
      have hstepped := hv'.step hs
      exact ⟨hstepped.valid, hv.advances_trans hadvances (hv'.advances hc hstepped)⟩
  exact key.2

/-- What comes back for another revision than the document's. -/
theorem stale_of_ne {r : Revision} (hd : w.document id = some d) (hr : r ≠ d.buffer.revision) :
    (∀ diskRevision, ∃ w', (completeSave id r diskRevision).exec w =
      some (.error (.document (.staleEvent d.buffer.revision r)), w') ∧ w'.document id = some d) ∧
    (∀ diskRevision text, ∃ w', (observeDiskChange id r diskRevision text).exec w =
      some (.error (.document (.staleEvent d.buffer.revision r)), w') ∧ w'.document id = some d) ∧
    ∃ w', (observeMissing id r).exec w =
      some (.error (.document (.staleEvent d.buffer.revision r)), w') ∧ w'.document id = some d := by
  have hsame : document { w with documents := replaceDocument id d w.documents } id = some d :=
    find?_replaceDocument_self (mem_of_document hd).2 hd
  have key : ∀ {α : Type} (x : EditorM α), wp x (fun _ _ => False) (fun e w' =>
      e = .document (.staleEvent d.buffer.revision r) ∧ w'.document id = some d) False w →
      ∃ w', x.exec w = some (.error (.document (.staleEvent d.buffer.revision r)), w') ∧
        w'.document id = some d := by
    intro α x hx
    obtain ⟨res, w', hexec⟩ := hx.ends
    cases res with
    | ok a => exact (hx.of_ok hexec).elim
    | error e =>
      obtain ⟨rfl, hdoc⟩ := hx.of_error hexec
      exact ⟨w', hexec, hdoc⟩
  have hguard : ∀ {Q : Unit → EditorWorkspace → Prop} (rest : DocumentM Unit),
      wp (onDocument id (do Document.ensureRevision r; rest)) Q (fun e w' =>
        e = .document (.staleEvent d.buffer.revision r) ∧ w'.document id = some d) False w := by
    intro Q rest
    simp only [wp_onDocument, Document.ensureRevision, wp_bind, wp_get, wp_ensure]
    refine ⟨fun e he => ?_, fun hnone => by cases hd.symm.trans hnone⟩
    obtain rfl := Option.some.inj (hd.symm.trans he)
    exact ⟨fun heq => absurd heq hr, fun _ => ⟨rfl, hsame⟩⟩
  refine ⟨fun diskRevision => key _ (hguard _), fun diskRevision text => key _ ?_, key _ ?_⟩
  · rw [observeDiskChange, wp_bind]
    exact hguard _
  · rw [observeMissing, wp_bind]
    exact hguard _

/-- Over every run whose upgrades resume, a document's revision has gone up where its text is
another one, and a save, a disk change and a missing path for the old revision are stale. -/
theorem revision_law {n : Nat} (h : Runs step Resumes (new n) w) (h' : Runs step Resumes w w')
    (hd : w.document id = some d) (hd' : w'.document id = some d')
    (hne : d.buffer.text ≠ d'.buffer.text) :
    d.version < d'.version ∧
    (∀ diskRevision, ∃ w'', (completeSave id d.buffer.revision diskRevision).exec w' =
      some (.error (.document (.staleEvent d'.buffer.revision d.buffer.revision)), w'') ∧
        w''.document id = some d') ∧
    (∀ diskRevision text, ∃ w'',
      (observeDiskChange id d.buffer.revision diskRevision text).exec w' =
        some (.error (.document (.staleEvent d'.buffer.revision d.buffer.revision)), w'') ∧
        w''.document id = some d') ∧
    ∃ w'', (observeMissing id d.buffer.revision).exec w' =
      some (.error (.document (.staleEvent d'.buffer.revision d.buffer.revision)), w'') ∧
        w''.document id = some d' := by
  have hlt := ((valid_of_runs h).advances_of_runs h').follows id d d' hd hd' |>.lt_of_ne hne
  refine ⟨hlt, stale_of_ne hd' fun heq => ?_⟩
  unfold Document.version at hlt
  rw [heq] at hlt
  exact absurd hlt (lt_irrefl _)

/-- An edit outdates a save of the text before it. -/
theorem revision_law_edit : ∃ (w w' : EditorWorkspace) (d d' : Document) (w'' : EditorWorkspace),
    w.document ⟨0⟩ = some d ∧ w'.document ⟨0⟩ = some d' ∧ d.version < d'.version ∧
      (completeSave ⟨0⟩ d.buffer.revision ⟨"2"⟩).exec w' =
        some (.error (.document (.staleEvent d'.buffer.revision d.buffer.revision)), w'') ∧
      w''.document ⟨0⟩ = some d' := by
  have hruns : ([.openDocument ⟨"a"⟩ "one" ⟨"1"⟩ false .preview].foldlM step (new 0)).any fun w =>
      (w.step (.edit ⟨0⟩ ⟨0⟩ [⟨⟨3, 3⟩, "!"⟩] .typing 3 4)).any fun w' =>
        (w.document ⟨0⟩).any fun d => (w'.document ⟨0⟩).any fun d' =>
          d.buffer.text ≠ d'.buffer.text := by
    decide
  obtain ⟨w, hw, hend⟩ := (Option.any_eq_true _ _).mp hruns
  obtain ⟨w', hw', hend⟩ := (Option.any_eq_true _ _).mp hend
  obtain ⟨d, hd, hend⟩ := (Option.any_eq_true _ _).mp hend
  obtain ⟨d', hd', hend⟩ := (Option.any_eq_true _ _).mp hend
  have hto : Runs step Resumes (new 0) w := Along.runs (by decide) hw
  have hto' : Runs step Resumes w w' :=
    .single (o := .edit ⟨0⟩ ⟨0⟩ [⟨⟨3, 3⟩, "!"⟩] .typing 3 4) trivial hw'
  obtain ⟨hlt, hsave, -⟩ := revision_law hto hto' hd hd' (of_decide_eq_true hend)
  obtain ⟨w'', hx, hdoc⟩ := hsave ⟨"2"⟩
  exact ⟨w, w', d, d', w'', hd, hd', hlt, hx, hdoc⟩

/-- A document that is opened read-only, and again to edit, has another text at the same revision:
a save of the first text marks the second one as saved. -/
theorem reopened_restarts : ∃ (w w' : EditorWorkspace) (d d' : Document) (w'' : EditorWorkspace),
    step (new 0) (.openDocument ⟨"a"⟩ "one" ⟨"1"⟩ true .pinned) = some w ∧
      step w (.openDocument ⟨"a"⟩ "two" ⟨"2"⟩ false .pinned) = some w' ∧
      w.document ⟨0⟩ = some d ∧ w'.document ⟨0⟩ = some d' ∧
      d.buffer.text ≠ d'.buffer.text ∧ d'.version = d.version ∧
      (completeSave ⟨0⟩ d.buffer.revision ⟨"1"⟩).exec w' = some (.ok (), w'') := by
  have hruns : (step (new 0) (.openDocument ⟨"a"⟩ "one" ⟨"1"⟩ true .pinned)).any fun w =>
      (step w (.openDocument ⟨"a"⟩ "two" ⟨"2"⟩ false .pinned)).any fun w' =>
        (w.document ⟨0⟩).any fun d => (w'.document ⟨0⟩).any fun d' =>
          ((completeSave ⟨0⟩ d.buffer.revision ⟨"1"⟩).exec w').any fun r =>
            d.buffer.text ≠ d'.buffer.text ∧ d'.version = d.version ∧ r.1.toBool := by
    decide
  obtain ⟨w, hw, hend⟩ := (Option.any_eq_true _ _).mp hruns
  obtain ⟨w', hw', hend⟩ := (Option.any_eq_true _ _).mp hend
  obtain ⟨d, hd, hend⟩ := (Option.any_eq_true _ _).mp hend
  obtain ⟨d', hd', hend⟩ := (Option.any_eq_true _ _).mp hend
  obtain ⟨⟨r, w''⟩, hx, hend⟩ := (Option.any_eq_true _ _).mp hend
  obtain ⟨hne, hver, hok⟩ := of_decide_eq_true hend
  cases r with
  | error e => cases hok
  | ok u => exact ⟨w, w', d, d', w'', hw, hw', hd, hd', hne, hver, hx⟩

/-! ## Unsaved text -/

/-- The operation is meant to change the document's text, or to give it up. -/
def Explicit (id : DocumentId) : EditorOp → Prop
  | .resolveClose i .discard | .reloadFromDisk i | .restoreRecovery i _ | .edit i _ _ _ _ _
  | .undo i | .redo i => i = id
  | _ => False

/-- Neither is the document made editable with another text, nor is it reloaded with another text
as a clean one. -/
def Spares (w : EditorWorkspace) (d : Document) : EditorOp → Prop
  | .openDocument path text _ false _ => w.documents.find? (·.path = path) = some d →
      d.readOnly = true → text.toList = d.buffer.text
  | .observeDiskChange id expected _ text => id = d.id → expected = d.buffer.revision →
      d.buffer.revision.value ≠ -1 → d.status = .clean → text.toList = d.buffer.text
  | _ => True

/-- The document under the identifier has the text. -/
def Shows (w : EditorWorkspace) (id : DocumentId) (text : Rope) : Prop :=
  ∃ d', w.document id = some d' ∧ d'.buffer.text = text

theorem Valid.keeps (hv : w.Valid) (hs : w.Stepped op w') (hd : w.document id = some d)
    (hrec : d.isRecoverable = true) (himplicit : ¬Explicit id op) (hsp : w.Spares d op) :
    w'.Shows id d.buffer.text := by
  have hfate := hs.fates id
  rw [hd] at hfate
  unfold Shows
  generalize w'.document id = o at hfate
  cases hfate with
  | stays => exact ⟨d, rfl, rfl⟩
  | refused ht hr =>
    obtain ⟨h', rfl⟩ := Document.refused_eq hr
    exact ⟨_, rfl, rfl⟩
  | closed h =>
    rcases h with rfl | h
    · exact absurd rfl himplicit
    · cases hrec.symm.trans h
  | @done dop _ d' ht he =>
    refine ⟨d', rfl, ?_⟩
    cases op with
    | openDocument path text diskRevision readOnly disposition =>
      cases readOnly with
      | true => cases ht
      | false =>
        obtain ⟨e, hp, heq⟩ := Option.map_eq_some_iff.mp ht
        cases heq
        obtain rfl := hv.document_of_path hp rfl hd
        subst he
        split
        · rfl
        · exact hsp hp (Bool.not_eq_false _ ▸ ‹_›)
    | observeDiskChange i expected diskRevision text =>
      cases ht
      obtain ⟨hrev, he⟩ := he
      split at he
      · obtain ⟨a, b', hedited, rfl⟩ := he
        obtain ⟨-, rfl⟩ := mem_of_document hd
        exact (Document.Edited.whole hedited).trans
          (hsp rfl hrev (TextBuffer.Revision.next_eq_ok hedited.next) ‹_›)
      · subst he
        rfl
    | completeSave i expected diskRevision =>
      cases ht
      obtain ⟨-, rfl⟩ := he
      rfl
    | observeMissing i expected =>
      cases ht
      obtain ⟨-, rfl⟩ := he
      rfl
    | keepEditing i =>
      cases ht
      obtain ⟨-, rfl⟩ := he
      rfl
    | markRecovered i =>
      cases ht
      subst he
      rfl
    | edit | undo | redo | reloadFromDisk | restoreRecovery =>
      cases ht
      exact absurd rfl himplicit
    | select | pinDocument | requestClose | resolveClose | elsewhere => cases ht

/-- A specification without failures is one of the step. -/
theorem state_of_step {I : EditorWorkspace → Prop}
    (h : wp op.run (fun _ => I) (fun _ _ => False) False w) (hs : w.step op = some w') : I w' := by
  obtain ⟨⟨r, w''⟩, hx, rfl⟩ := Option.map_eq_some_iff.mp hs
  cases r with
  | ok u => exact h.of_ok hx
  | error e => exact (h.of_error hx).elim

theorem wp_pin_shows {E : EditorWorkspaceError → EditorWorkspace → Prop} {P : Prop} {text : Rope}
    (h : w.Shows id text) : wp (pin id) (fun _ w' => w'.Shows id text) E P w := by
  obtain ⟨d', hd', htext⟩ := h
  simp only [pin, wp_bind, wp_get, wp_discard, wp_okOr, wp_modify]
  exact ⟨fun _ _ => ⟨d', hd', htext⟩, fun hnone => by cases hd'.symm.trans hnone⟩

theorem upgrade_takes_over {path : RelativeDocumentPath} {text : String}
    {diskRevision : DiskRevision} {disposition : OpenDisposition}
    (hp : w.documents.find? (·.path = path) = some d) (hid : d.id = id)
    (hd : w.document id = some d) (hro : d.readOnly = true) :
    wp (EditorOp.openDocument path text diskRevision false disposition).run
      (fun _ w' => w'.Shows id text.toList)
      (fun _ _ => False) False w := by
  subst hid
  simp only [EditorOp.run, wp_discard, openDocument, wp_bind, wp_get, hp, Option.map_some,
    if_true, wp_onDocument, Document.upgradeReadOnly, wp_modify, wp_ite, wp_pure]
  refine ⟨fun e he => ?_, fun hnone => by cases hd.symm.trans hnone⟩
  obtain rfl := Option.some.inj (hd.symm.trans he)
  simp only [hro, Bool.true_eq_false, if_false]
  have hfound : ∀ d' : Document, d'.id = d.id →
      document { w with documents := replaceDocument d.id d' w.documents } d.id = some d' :=
    fun d' hid => find?_replaceDocument_self hid hd
  exact ⟨fun _ => wp_pin_shows ⟨_, hfound _ rfl, rfl⟩, fun _ => ⟨_, hfound _ rfl, rfl⟩⟩

theorem reload_takes_over {expected : Revision} {diskRevision : DiskRevision} {text : String}
    (hd : w.document id = some d) (hrev : expected = d.buffer.revision)
    (hmax : d.buffer.revision.value ≠ -1) (hclean : d.status = .clean) :
    wp (EditorOp.observeDiskChange id expected diskRevision text).run
      (fun _ w' => w'.Shows id text.toList)
      (fun _ _ => False) False w := by
  obtain ⟨-, rfl⟩ := mem_of_document hd
  subst hrev
  have hadmits : d.buffer.Admits (d.whole text) := by
    refine ⟨rfl, hmax, fun r hr => ?_⟩
    rw [List.mem_singleton.mp hr]
    exact ⟨Nat.zero_le _, le_rfl⟩
  simp only [EditorOp.run, observeDiskChange, wp_bind, wp_onDocument, Document.observeDiskChange,
    Document.ensureRevision, wp_get, wp_ensure, wp_ite, Document.wp_replaceAll, wp_discard,
    wp_modify, wp_pure]
  refine ⟨fun e he => ?_, fun hnone => by cases hd.symm.trans hnone⟩
  obtain rfl := Option.some.inj (hd.symm.trans he)
  refine ⟨fun _ => ⟨fun _ => ?_, fun hne => absurd hclean hne⟩, fun hne => absurd rfl hne⟩
  refine wp_mono (Document.wp_applyBuffer rfl) ?_ (fun _ _ h => absurd hadmits h.2)
    (absurd hadmits)
  rintro a _ ⟨b', rfl, hedited, -⟩
  have htext := Document.Edited.whole hedited
  have hfound : ∀ d' : Document, d'.id = d.id →
      document { w with documents := replaceDocument d.id d' w.documents } d.id = some d' :=
    fun d' hid => find?_replaceDocument_self hid hd
  exact ⟨fun _ => wp_pin_shows ⟨_, hfound _ rfl, htext⟩, fun _ => ⟨_, hfound _ rfl, htext⟩⟩

/-- In every reachable workspace: an operation that is not meant to leaves a recoverable document
open with its text exactly where it spares it. -/
theorem discard_law {n : Nat} (h : Runs step (fun _ _ => True) (new n) w)
    (hs : w.step op = some w') (hd : w.document id = some d) (hrec : d.isRecoverable = true)
    (himplicit : ¬Explicit id op) : w'.Shows id d.buffer.text ↔ w.Spares d op := by
  have hv := valid_of_runs h
  refine ⟨fun ⟨d', hd', htext⟩ => ?_, hv.keeps (hv.step hs) hd hrec himplicit⟩
  cases op with
  | openDocument path text diskRevision readOnly disposition =>
    cases readOnly with
    | true => exact trivial
    | false =>
      intro hp hro
      obtain ⟨e, he, hetext⟩ := state_of_step (I := (·.Shows id text.toList))
        (upgrade_takes_over hp (mem_of_document hd).2 hd hro) hs
      obtain rfl := Option.some.inj (hd'.symm.trans he)
      exact hetext.symm.trans htext
  | observeDiskChange i expected diskRevision text =>
    intro hi hrev hmax hclean
    obtain rfl : i = id := hi.trans (mem_of_document hd).2
    obtain ⟨e, he, hetext⟩ := state_of_step (I := (·.Shows i text.toList))
      (reload_takes_over hd hrev hmax hclean) hs
    obtain rfl := Option.some.inj (hd'.symm.trans he)
    exact hetext.symm.trans htext
  | edit | undo | redo | completeSave | select | pinDocument | markRecovered | observeMissing
  | reloadFromDisk | keepEditing | restoreRecovery | requestClose | resolveClose | elsewhere =>
    exact trivial

/-- A preview that was edited is kept when the next one opens. -/
theorem discard_law_preview : ∃ (w w' : EditorWorkspace) (d : Document),
    w.document ⟨0⟩ = some d ∧ d.isRecoverable = true ∧
      step w (.openDocument ⟨"b"⟩ "two" ⟨"2"⟩ false .preview) = some w' ∧
      w'.Shows ⟨0⟩ d.buffer.text := by
  have hruns : ([.openDocument ⟨"a"⟩ "one" ⟨"1"⟩ false .preview,
      .edit ⟨0⟩ ⟨0⟩ [⟨⟨3, 3⟩, "!"⟩] .typing 3 4].foldlM step (new 0)).any fun w =>
        (step w (.openDocument ⟨"b"⟩ "two" ⟨"2"⟩ false .preview)).any fun _ =>
          (w.document ⟨0⟩).any fun d => d.isRecoverable = true ∧ d.path = ⟨"a"⟩ := by
    decide
  obtain ⟨w, hw, hend⟩ := (Option.any_eq_true _ _).mp hruns
  obtain ⟨w', hw', hend⟩ := (Option.any_eq_true _ _).mp hend
  obtain ⟨d, hd, hend⟩ := (Option.any_eq_true _ _).mp hend
  obtain ⟨hrec, hpath⟩ := of_decide_eq_true hend
  have hto : Runs step (fun _ _ => True) (new 0) w := Along.runs (by decide) hw
  refine ⟨w, w', d, hd, hrec, hw', (discard_law hto hw' hd hrec id).mpr fun hp _ => ?_⟩
  -- The path that is opened is another one.
  have hother : d.path = ⟨"b"⟩ := by simpa using List.find?_some hp
  rw [hpath] at hother
  exact absurd hother (by decide)

/-- Recovered text in a read-only document, which is then opened to edit. -/
theorem upgrade_discards : ∃ (ops : List EditorOp) (w w' : EditorWorkspace) (d d' : Document),
    ops.foldlM step (new 0) = some w ∧ w.document ⟨0⟩ = some d ∧ d.isRecoverable = true ∧
      d.buffer.text = "mine".toList ∧
      step w (.openDocument ⟨"a"⟩ "one" ⟨"1"⟩ false .pinned) = some w' ∧
      w'.document ⟨0⟩ = some d' ∧ d'.status = .clean ∧ d'.buffer.text = "one".toList := by
  let ops : List EditorOp := [.openDocument ⟨"a"⟩ "one" ⟨"1"⟩ true .pinned,
    .restoreRecovery ⟨0⟩ "mine"]
  have hruns : (ops.foldlM step (new 0)).any fun w =>
      (step w (.openDocument ⟨"a"⟩ "one" ⟨"1"⟩ false .pinned)).any fun w' =>
        (w.document ⟨0⟩).any fun d => (w'.document ⟨0⟩).any fun d' =>
          d.isRecoverable = true ∧ d.buffer.text = "mine".toList ∧ d'.status = .clean ∧
            d'.buffer.text = "one".toList := by
    decide
  obtain ⟨w, hw, hend⟩ := (Option.any_eq_true _ _).mp hruns
  obtain ⟨w', hw', hend⟩ := (Option.any_eq_true _ _).mp hend
  obtain ⟨d, hd, hend⟩ := (Option.any_eq_true _ _).mp hend
  obtain ⟨d', hd', hend⟩ := (Option.any_eq_true _ _).mp hend
  obtain ⟨hrec, htext, hclean, htext'⟩ := of_decide_eq_true hend
  exact ⟨ops, w, w', d, d', hw, hd, hrec, htext, hw', hd', hclean, htext'⟩

end EditorWorkspace
end Strukt
