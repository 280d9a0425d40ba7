import Strukt.App.DeskOpened

/-!
# What is shown, and what the language server is asked about

Two views follow the documents of the editor: the surfaces that the user types into, and the
bindings that the language coordinator keeps.

* **Surfaces** (`Mirrored`): every open document has a surface with its text, and nothing else has
  one. Only `DocumentOpened` can break it (`Careful`): with a preview that is taken the place of,
  or with a placeholder for a document that is open.
* **Bindings** (`InStep`): the documents that the coordinator holds are those that are open, and an
  eligible one has the document's revision and text. Beside `DocumentOpened`, every message that
  changes a text without a word to the coordinator breaks it (`Attentive`).
-/

namespace Strukt.App

open Strukt.Fs Method

namespace EditorDesk

variable {env : DeskEnv} {s s' : EditorDesk} {u : DeskUpdate} {m : EditorMessage}
  {id i : DocumentId}

/-! ## Surfaces -/

/-- Every open document has a surface with its text, and nothing else has a surface. -/
def Mirrored (s : EditorDesk) : Prop :=
  ∀ id, s.surfaces.get? id = (s.editor.document id).map (·.buffer.text)

theorem mirrored_iff : s.Mirrored ↔ ∀ id, s.surfaces.get? id = (s.buffer id).map (·.text) := by
  unfold Mirrored buffer
  simp only [Option.map_map]
  rfl

/-- No preview is taken the place of, and no placeholder is for an open document with a text. -/
def Careful (env : DeskEnv) (s : EditorDesk) (m : EditorMessage) : Prop :=
  ∀ o, s.opening env m = some o →
    match s.editor.documents.find? (·.path = o.path) with
    | none => s.editor.replacedPreview o.disposition = none
    | some d => o.placeholder = true → d.readOnly = true ∨ d.buffer.text = []

/-- Only `DocumentOpened` opens. -/
theorem opening_none (hm : ∀ root path disposition result,
    m ≠ .documentOpened root path disposition result) : s.opening env m = none := by
  cases m with
  | documentOpened => exact absurd rfl (hm _ _ _ _)
  | _ => rfl

theorem Move.mirrored {o : Option (DocumentId × DocumentOp)} (h : s.Move o s')
    (hs : s.Mirrored) : s'.Mirrored := by
  rw [mirrored_iff] at hs ⊢
  have same (i : DocumentId) (hi : SameAt s s' i) :
      s'.surfaces.get? i = (s'.buffer i).map (·.text) := by
    rw [hi.surface, hi.buffer]
    exact hs i
  have changed (id : DocumentId) (d d' : Document) (hd : s.editor.document id = some d)
      (hd' : s'.editor.document id = some d')
      (hsurf : s.surfaces.get? id = some d.buffer.text →
        s'.surfaces.get? id = some d'.buffer.text) :
      s'.surfaces.get? id = (s'.buffer id).map (·.text) := by
    have hid := hs id
    unfold buffer at hid ⊢
    rw [hd] at hid
    rw [hd']
    exact hsurf hid
  intro i
  cases h with
  | still h => exact same i (h i)
  | heard id d d' hd hd' hsurf hb ho =>
    by_cases hi : i = id
    · exact hi ▸ changed id d d' hd hd' hsurf
    · exact same i (ho i hi)
  | unheard id dop d d' hm hd hd' hsurf hr hb ho =>
    by_cases hi : i = id
    · exact hi ▸ changed id d d' hd hd' hsurf
    · exact same i (ho i hi)
  | closed id hd hsurf hb ho =>
    by_cases hi : i = id
    · subst hi
      have hnone : s'.buffer i = none := by
        unfold buffer
        rw [hd]
        rfl
      rw [hnone]
      obtain hsurf | ⟨hd₀, hsurf⟩ := hsurf
      · exact hsurf
      · rw [hsurf, hs i]
        unfold buffer
        rw [hd₀]
        rfl
    · exact same i (ho i hi)
  | rebound id binding binding' hd hsurf hb hb' hr ho =>
    by_cases hi : i = id
    · rw [hi, hsurf, hd]
      exact hs id
    · exact same i (ho i hi)
  | restarted hd hsurf hb =>
    rw [hsurf i]
    unfold buffer
    rw [hd i]
    rfl

/-- A placeholder has no text. -/
theorem opening_placeholder {o : Opening} (h : s.opening env m = some o)
    (hp : o.placeholder = true) : o.text = "" ∧ o.readOnly = false := by
  unfold opening at h
  split at h
  · split at h
    · cases h
    · split at h
      · split at h
        · obtain ⟨relative, -, rfl⟩ := Option.map_eq_some_iff.mp h
          cases hp
        · cases h
      · split at h
        · obtain ⟨relative, -, rfl⟩ := Option.map_eq_some_iff.mp h
          exact ⟨rfl, rfl⟩
        · cases h
  · cases h

/-- The preview that is taken the place of is an open document. -/
theorem replacedPreview_open {w : EditorWorkspace} {disposition : OpenDisposition}
    (h : w.replacedPreview disposition = some id) : ∃ d, w.document id = some d := by
  unfold EditorWorkspace.replacedPreview at h
  split at h
  · obtain ⟨-, hany⟩ := Option.filter_eq_some_iff.mp h
    exact Option.isSome_iff_exists.mp (Option.isSome_of_any hany)
  · cases h

theorem reopened_placeholder {d : Document} {diskRevision : DiskRevision} :
    (d.reopened "" diskRevision false).buffer = if d.readOnly then .new "" else d.buffer := by
  unfold Document.reopened
  cases d.readOnly <;> rfl

/-- A document that is opened keeps the surfaces in step exactly if the message is careful. -/
theorem OpenMove.mirrored_iff (h : s.OpenMove env m s') (hs : s.Mirrored) :
    s'.Mirrored ↔ s.Careful env m := by
  rw [EditorDesk.mirrored_iff] at hs ⊢
  obtain ⟨hnone, -, hsame⟩ | ⟨o, id, w', ho, hopened, hshown⟩ := h
  · refine ⟨fun _ o ho => ?_, fun _ i => ?_⟩
    · rw [hnone] at ho
      cases ho
    · rw [(hsame i).surface, (hsame i).buffer]
      exact hs i
  · have hcareful : s.Careful env m ↔
        match s.editor.documents.find? (·.path = o.path) with
        | none => s.editor.replacedPreview o.disposition = none
        | some d => o.placeholder = true → d.readOnly = true ∨ d.buffer.text = [] := by
      refine ⟨fun hc => hc o ho, fun hc o' ho' => ?_⟩
      obtain rfl := Option.some.inj (ho.symm.trans ho')
      exact hc
    have hself : ∀ b, s'.buffer id = some b →
        (s'.surfaces.get? id = (s'.buffer id).map (·.text) ↔
          (o.placeholder = true → b.text = [])) := by
      intro b hb
      rw [hshown.surface id, if_pos rfl, hb]
      cases o.placeholder with
      | false => simp
      | true => simp [eq_comm]
    rw [hcareful]
    cases hopened with
    | again d hpath hid hd hothers =>
      simp only [hpath]
      have hb : s'.buffer id = some (d.reopened o.text o.diskRevision o.readOnly).buffer := by
        rw [hshown.buffer id, hd]
        rfl
      have hempty : (o.placeholder = true →
          (d.reopened o.text o.diskRevision o.readOnly).buffer.text = []) ↔
            (o.placeholder = true → d.readOnly = true ∨ d.buffer.text = []) := by
        refine forall_congr' fun hp => ?_
        obtain ⟨ht, hro⟩ := opening_placeholder ho hp
        rw [ht, hro, reopened_placeholder]
        cases d.readOnly with
        | false => simp
        | true => simp [TextBuffer.new]
      rw [← hempty, ← hself _ hb]
      refine ⟨fun hm => hm id, fun hm i => ?_⟩
      by_cases hi : i = id
      · exact hi ▸ hm
      · rw [hshown.surface i, if_neg hi, hshown.buffer i, hothers i hi]
        exact hs i
    | new hpath hid hd hothers =>
      simp only [hpath]
      have hb : s'.buffer id = some (.new o.text) := by
        rw [hshown.buffer id, hd]
        rfl
      have hat : s'.surfaces.get? id = (s'.buffer id).map (·.text) := by
        refine (hself _ hb).mpr fun hp => ?_
        rw [(opening_placeholder ho hp).1]
        rfl
      have hrest : ∀ i, i ≠ id → (s'.surfaces.get? i = (s'.buffer i).map (·.text) ↔
          s.editor.replacedPreview o.disposition ≠ some i) := by
        intro i hi
        rw [hshown.surface i, if_neg hi, hshown.buffer i, hothers i hi, hs i]
        by_cases hr : s.editor.replacedPreview o.disposition = some i
        · obtain ⟨d, hd⟩ := replacedPreview_open hr
          simp [hr, buffer, hd]
        · simp [hr, buffer]
      constructor
      · intro hm
        cases hr : s.editor.replacedPreview o.disposition with
        | none => rfl
        | some p =>
          obtain ⟨d, hd⟩ := replacedPreview_open hr
          have hp : p ≠ id := fun he => by
            rw [he, hid] at hd
            cases hd
          exact absurd hr ((hrest p hp).mp (hm p))
      · intro hr i
        by_cases hi : i = id
        · exact hi ▸ hat
        · exact (hrest i hi).mpr fun he => by
            rw [hr] at he
            cases he

theorem mirrored_start (root : PathBuf) (workspaceId : String) (restored : RestoredLanguageSession)
    (tabs : SortedMap String RestoredTab) (active : Option String) (nextDocumentId : Nat) :
    (start root workspaceId restored tabs active nextDocumentId).Mirrored := fun _ => rfl

/-- After the message the surfaces are those of the documents. -/
def KeepsSurfaces (env : DeskEnv) (s : EditorDesk) (m : EditorMessage) : Prop :=
  ∀ s', s.step env m = some s' → s'.Mirrored

theorem keepsSurfaces_iff (hv : s.editor.Valid) (hs : s.Mirrored) :
    s.KeepsSurfaces env m ↔ s.Careful env m := by
  unfold KeepsSurfaces step
  by_cases hm : ∃ root path disposition result, m = .documentOpened root path disposition result
  · obtain ⟨root, path, disposition, result, rfl⟩ := hm
    obtain ⟨u, hu, hmove⟩ := opened_move hv env root path disposition result
    rw [hu, ← hmove.mirrored_iff hs]
    simp
  · have hm' : ∀ root path disposition result,
        m ≠ .documentOpened root path disposition result :=
      fun root path disposition result he => hm ⟨root, path, disposition, result, he⟩
    refine ⟨fun _ o ho => ?_, fun _ s' hs' => ?_⟩
    · rw [opening_none hm'] at ho
      cases ho
    · obtain ⟨u, hu, rfl⟩ := Option.map_eq_some_iff.mp hs'
      exact (update_move hv hm' hu).mirrored hs

/-- What is shown is what is edited after every message, exactly in the runs whose messages are
careful. -/
theorem surface_law (env : DeskEnv) (root : PathBuf) (workspaceId : String)
    (restored : RestoredLanguageSession) (tabs : SortedMap String RestoredTab)
    (active : Option String) (nextDocumentId : Nat) (messages : List EditorMessage) :
    Along (step env) (KeepsSurfaces env) messages
        (start root workspaceId restored tabs active nextDocumentId) ↔
      Along (step env) (Careful env) messages
        (start root workspaceId restored tabs active nextDocumentId) := by
  refine along_iff (I := fun s => s.editor.Valid ∧ s.Mirrored)
    ⟨EditorWorkspace.valid_new _, mirrored_start _ _ _ _ _ _⟩ ?_ ?_
  · exact fun s m ⟨hv, hs⟩ => keepsSurfaces_iff hv hs
  · intro s m s' ⟨hv, hs⟩ hk hs'
    obtain ⟨u, hu, rfl⟩ := Option.map_eq_some_iff.mp hs'
    exact ⟨update_valid hv hu, hk u.1 hs'⟩

/-- A path is its characters. -/
def plainDesk : DeskEnv :=
  ⟨⟨fun _ => "rust", fun _ => none⟩,
    fun path => String.ofList (path.bytes.map (Char.ofNat ·.toNat)), true⟩

def readOf (text : String) : DocumentRead :=
  ⟨.text false false, some text, text.utf8ByteSize, ⟨text⟩⟩

/-- Two files are previewed one after the other. -/
def previews : List EditorMessage :=
  [.documentOpened ⟨[]⟩ ⟨[97]⟩ .preview (.ok (readOf "first")),
    .documentOpened ⟨[]⟩ ⟨[98]⟩ .preview (.ok (readOf "second"))]

/-- The surface of the first one is left when its document has gone. -/
theorem preview_surface_left :
    ¬∀ (env : DeskEnv) (root : PathBuf) (workspaceId : String) (restored : RestoredLanguageSession)
      (tabs : SortedMap String RestoredTab) (active : Option String) (nextDocumentId : Nat)
      (messages : List EditorMessage) (s : EditorDesk),
      messages.foldlM (step env) (start root workspaceId restored tabs active nextDocumentId) =
        some s → s.Mirrored := by
  intro h
  have hrun : (previews.foldlM (step plainDesk)
      (start ⟨[]⟩ "w" ⟨[], [], false⟩ .empty none 0)).any fun s =>
        (s.surfaces.get? ⟨0⟩).isSome && (s.editor.document ⟨0⟩).isNone := by
    decide
  obtain ⟨s, hr, hs⟩ := (Option.any_eq_true _ _).mp hrun
  obtain ⟨hsurface, hdocument⟩ := Bool.and_eq_true_iff.mp hs
  have hm := h plainDesk _ _ _ _ _ _ previews s hr ⟨0⟩
  rw [Option.isNone_iff_eq_none.mp hdocument] at hm
  rw [hm] at hsurface
  cases hsurface

/-! ## Bindings -/

/-- The documents that the coordinator holds are those that are open, and an eligible one has the
document's revision and text. -/
structure InStep (s : EditorDesk) : Prop where
  held : ∀ id, (s.language.documents.get? id).isSome = (s.editor.document id).isSome
  current : ∀ id d b, s.editor.document id = some d → s.language.documents.get? id = some b →
    b.eligible = true →
      b.revision = d.buffer.revision.value ∧ b.text = String.ofList d.buffer.text

/-- The binding is what the language server is to know of the buffer. -/
structure Seen (buffer : Option TextBuffer) (binding : Option DocumentBinding) : Prop where
  held : binding.isSome = buffer.isSome
  current : ∀ t b, buffer = some t → binding = some b → b.eligible = true →
    b.revision = t.revision.value ∧ b.text = String.ofList t.text

theorem inStep_iff : s.InStep ↔ ∀ id, Seen (s.buffer id) (s.language.documents.get? id) := by
  constructor
  · intro h id
    refine ⟨?_, fun t b ht hb he => ?_⟩
    · rw [h.held id]
      unfold buffer
      rw [Option.isSome_map]
    · obtain ⟨d, hd, rfl⟩ := Option.map_eq_some_iff.mp ht
      exact h.current id d b hd hb he
  · intro h
    refine ⟨fun id => ?_, fun id d b hd hb he => (h id).current _ b ?_ hb he⟩
    · rw [(h id).held]
      unfold buffer
      rw [Option.isSome_map]
    · unfold buffer
      rw [hd]
      rfl

/-- The document is not opened behind the coordinator's back, and it is not rewritten so. -/
structure Attentive (env : DeskEnv) (s : EditorDesk) (m : EditorMessage) : Prop where
  opening : ∀ o, s.opening env m = some o →
    match s.editor.documents.find? (·.path = o.path) with
    | none => o.placeholder = false ∧ s.editor.replacedPreview o.disposition = none
    | some d => o.placeholder = true → d.readOnly = true →
      ∀ b, s.language.documents.get? d.id = some b → b.eligible = true →
        d.buffer.revision = .initial ∧ d.buffer.text = []
  unheard : ∀ id dop d b, s.unheard m = some (id, dop) → s.editor.document id = some d →
    s.language.documents.get? id = some b → d.Rewrites dop → b.eligible = false

theorem Move.inStep (h : s.Move (s.unheard m) s') (hs : s.InStep)
    (hm : ∀ id dop d b, s.unheard m = some (id, dop) → s.editor.document id = some d →
      s.language.documents.get? id = some b → d.Rewrites dop → b.eligible = false) :
    s'.InStep := by
  rw [inStep_iff] at hs ⊢
  have same (i : DocumentId) (hi : SameAt s s' i) :
      Seen (s'.buffer i) (s'.language.documents.get? i) := by
    rw [hi.buffer, hi.binding]
    exact hs i
  intro i
  cases h with
  | still h => exact same i (h i)
  | heard id d d' hd hd' hsurf hb ho =>
    by_cases hi : i = id
    · subst hi
      have hheld := (hs i).held
      rw [hb]
      unfold buffer at hheld ⊢
      rw [hd] at hheld
      rw [hd']
      refine ⟨?_, fun t b ht hb' he => ?_⟩
      · rw [Option.isSome_map]
        exact hheld
      · obtain ⟨b₀, -, rfl⟩ := Option.map_eq_some_iff.mp hb'
        cases ht
        exact ⟨rfl, rfl⟩
    · exact same i (ho i hi)
  | unheard id dop d d' hunheard hd hd' hsurf hr hb ho =>
    by_cases hi : i = id
    · subst hi
      rw [hb]
      by_cases hrw : d.Rewrites dop
      · have hheld := (hs i).held
        unfold buffer at hheld ⊢
        rw [hd] at hheld
        rw [hd']
        refine ⟨hheld, fun t b _ hb' he => ?_⟩
        rw [hm i dop d b hunheard hd hb' hrw] at he
        cases he
      · have hkept : s'.buffer i = s.buffer i := by
          unfold buffer
          rw [hd, hd']
          exact congrArg some (hr.stays hrw)
        rw [hkept]
        exact hs i
    · exact same i (ho i hi)
  | closed id hd hsurf hb ho =>
    by_cases hi : i = id
    · subst hi
      unfold buffer
      rw [hd, hb]
      exact ⟨rfl, fun t b ht => by cases ht⟩
    · exact same i (ho i hi)
  | rebound id b b' hd hsurf hb hb' hr ho =>
    by_cases hi : i = id
    · subst hi
      obtain ⟨hrevision, htext⟩ := hr
      rw [hd, hb']
      have hseen := hs i
      rw [hb] at hseen
      refine ⟨hseen.held, fun t b'' ht hb'' he => ?_⟩
      cases hb''
      obtain ⟨he', ht'⟩ := htext he
      obtain ⟨hr₁, ht₁⟩ := hseen.current t b ht rfl he'
      exact ⟨hrevision.trans hr₁, ht'.trans ht₁⟩
    · exact same i (ho i hi)
  | restarted hd hsurf hb =>
    unfold buffer
    rw [hd i, hb i]
    exact ⟨rfl, fun t b ht => by cases ht⟩

/-- A document that is opened keeps the bindings in step exactly if the message is attentive. -/
theorem OpenMove.inStep_iff (h : s.OpenMove env m s') (hs : s.InStep) (hm : s.unheard m = none) :
    s'.InStep ↔ s.Attentive env m := by
  rw [EditorDesk.inStep_iff] at hs ⊢
  have hattentive : s.Attentive env m ↔ ∀ o, s.opening env m = some o →
      match s.editor.documents.find? (·.path = o.path) with
      | none => o.placeholder = false ∧ s.editor.replacedPreview o.disposition = none
      | some d => o.placeholder = true → d.readOnly = true →
        ∀ b, s.language.documents.get? d.id = some b → b.eligible = true →
          d.buffer.revision = .initial ∧ d.buffer.text = [] := by
    refine ⟨fun ha => ha.opening, fun ho => ⟨ho, fun id dop d b hunheard => ?_⟩⟩
    rw [hm] at hunheard
    cases hunheard
  rw [hattentive]
  obtain ⟨hnone, -, hsame⟩ | ⟨o, id, w', ho, hopened, hshown⟩ := h
  · refine ⟨fun _ o ho => ?_, fun _ i => ?_⟩
    · rw [hnone] at ho
      cases ho
    · rw [(hsame i).binding, (hsame i).buffer]
      exact hs i
  · have hsome : ∀ (p : Opening → Prop), (∀ o', s.opening env m = some o' → p o') ↔ p o := by
      refine fun p => ⟨fun hp => hp o ho, fun hp o' ho' => ?_⟩
      obtain rfl := Option.some.inj (ho.symm.trans ho')
      exact hp
    rw [hsome]
    have hbound : ∀ t, s'.buffer id = some t → o.placeholder = false →
        Seen (s'.buffer id) (s'.language.documents.get? id) := by
      intro t ht hp
      obtain ⟨b, hb, hcurrent⟩ := hshown.bound hp
      rw [hb]
      refine ⟨by rw [ht]; rfl, fun t' b' ht' hb' he => ?_⟩
      obtain rfl := Option.some.inj hb'
      exact hcurrent he t' ht'
    cases hopened with
    | again d hpath hid hd hothers =>
      simp only [hpath]
      have hdid : d.id = id := (EditorWorkspace.mem_of_document hid).2
      have hb : s'.buffer id = some (d.reopened o.text o.diskRevision o.readOnly).buffer := by
        rw [hshown.buffer id, hd]
        rfl
      have hrest : ∀ i, i ≠ id → Seen (s'.buffer i) (s'.language.documents.get? i) := by
        intro i hi
        rw [hshown.others i hi, hshown.buffer i, hothers i hi]
        exact hs i
      have hall : (∀ i, Seen (s'.buffer i) (s'.language.documents.get? i)) ↔
          Seen (s'.buffer id) (s'.language.documents.get? id) := by
        refine ⟨fun h => h id, fun h i => ?_⟩
        by_cases hi : i = id
        · exact hi ▸ h
        · exact hrest i hi
      rw [hall, hdid]
      cases hp : o.placeholder with
      | false => exact iff_of_true (hbound _ hb hp) fun h => by cases h
      | true =>
        obtain ⟨ht, hro⟩ := opening_placeholder ho hp
        have hseen : Seen (some d.buffer) (s.language.documents.get? id) := by
          have hseen := hs id
          unfold buffer at hseen
          rw [hid] at hseen
          exact hseen
        rw [hb, hshown.kept hp, ht, hro, reopened_placeholder]
        cases hread : d.readOnly with
        | false => exact iff_of_true hseen fun _ h => by cases h
        | true =>
          constructor
          · intro hnew _ _ b hb' he
            obtain ⟨hr₁, ht₁⟩ := hseen.current _ b rfl hb' he
            obtain ⟨hr₂, ht₂⟩ := hnew.current _ b rfl hb' he
            refine ⟨congrArg Revision.mk (hr₁.symm.trans hr₂), ?_⟩
            have htext := congrArg String.toList (ht₁.symm.trans ht₂)
            simpa [TextBuffer.new] using htext
          · intro hempty
            refine ⟨hseen.held, fun t b htb hb' he => ?_⟩
            obtain ⟨hr₁, ht₁⟩ := hseen.current _ b rfl hb' he
            obtain ⟨hr₂, ht₂⟩ := hempty rfl rfl b hb' he
            cases htb
            rw [hr₂] at hr₁
            rw [ht₂] at ht₁
            exact ⟨hr₁, ht₁⟩
    | new hpath hid hd hothers =>
      simp only [hpath]
      have hb : s'.buffer id = some (.new o.text) := by
        rw [hshown.buffer id, hd]
        rfl
      have hrest : ∀ i, i ≠ id → (Seen (s'.buffer i) (s'.language.documents.get? i) ↔
          s.editor.replacedPreview o.disposition ≠ some i) := by
        intro i hi
        rw [hshown.others i hi, hshown.buffer i, hothers i hi]
        by_cases hr : s.editor.replacedPreview o.disposition = some i
        · obtain ⟨d, hd⟩ := replacedPreview_open hr
          have hheld := (hs i).held
          unfold buffer at hheld
          rw [hd] at hheld
          rw [if_pos hr]
          refine iff_of_false (fun hseen => ?_) (not_not_intro hr)
          have hnone := hseen.held
          rw [hheld] at hnone
          cases hnone
        · rw [if_neg hr]
          exact iff_of_true (hs i) hr
      constructor
      · intro hm
        refine ⟨?_, ?_⟩
        · cases hp : o.placeholder with
          | false => rfl
          | true =>
            have hheld := (hm id).held
            rw [hshown.kept hp, (hs id).held, hb] at hheld
            unfold buffer at hheld
            rw [hid] at hheld
            cases hheld
        · cases hr : s.editor.replacedPreview o.disposition with
          | none => rfl
          | some p =>
            obtain ⟨d, hd⟩ := replacedPreview_open hr
            have hp : p ≠ id := fun he => by
              rw [he, hid] at hd
              cases hd
            exact absurd hr ((hrest p hp).mp (hm p))
      · intro ⟨hp, hr⟩ i
        by_cases hi : i = id
        · exact hi ▸ hbound _ hb hp
        · exact (hrest i hi).mpr fun he => by
            rw [hr] at he
            cases he

/-- After the message the bindings are those of the documents. -/
def KeepsBindings (env : DeskEnv) (s : EditorDesk) (m : EditorMessage) : Prop :=
  ∀ s', s.step env m = some s' → s'.InStep

theorem keepsBindings_iff (hv : s.editor.Valid) (hs : s.InStep) :
    s.KeepsBindings env m ↔ s.Attentive env m := by
  unfold KeepsBindings step
  by_cases hm : ∃ root path disposition result, m = .documentOpened root path disposition result
  · obtain ⟨root, path, disposition, result, rfl⟩ := hm
    obtain ⟨u, hu, hmove⟩ := opened_move hv env root path disposition result
    rw [hu, ← hmove.inStep_iff hs rfl]
    simp
  · have hm' : ∀ root path disposition result,
        m ≠ .documentOpened root path disposition result :=
      fun root path disposition result he => hm ⟨root, path, disposition, result, he⟩
    constructor
    · intro hk
      refine ⟨fun o ho => ?_, fun id dop d b hunheard hd hb hr => ?_⟩
      · rw [opening_none hm'] at ho
        cases ho
      · -- The document has another revision after the message, and the binding the old one.
        obtain ⟨u, d', hu, hd', hne, hl⟩ := unheard_taken hv hunheard hd hr env
        have hin := hk u.1 (Option.map_eq_some_iff.mpr ⟨u, hu, rfl⟩)
        cases he : b.eligible with
        | false => rfl
        | true =>
          have hnew := (hin.current id d' b hd' (hl ▸ hb) he).1
          have hold := (hs.current id d b hd hb he).1
          exact absurd (congrArg Revision.mk (hnew.symm.trans hold)) hne
    · intro ha s' hs'
      obtain ⟨u, hu, rfl⟩ := Option.map_eq_some_iff.mp hs'
      exact (update_move hv hm' hu).inStep hs ha.unheard

theorem inStep_start (root : PathBuf) (workspaceId : String) (restored : RestoredLanguageSession)
    (tabs : SortedMap String RestoredTab) (active : Option String) (nextDocumentId : Nat) :
    (start root workspaceId restored tabs active nextDocumentId).InStep :=
  ⟨fun _ => rfl, fun _ _ _ hd => by cases hd⟩

/-- The coordinator holds what is open, as it is, after every message, exactly in the runs whose
messages are attentive. -/
theorem binding_law (env : DeskEnv) (root : PathBuf) (workspaceId : String)
    (restored : RestoredLanguageSession) (tabs : SortedMap String RestoredTab)
    (active : Option String) (nextDocumentId : Nat) (messages : List EditorMessage) :
    Along (step env) (KeepsBindings env) messages
        (start root workspaceId restored tabs active nextDocumentId) ↔
      Along (step env) (Attentive env) messages
        (start root workspaceId restored tabs active nextDocumentId) := by
  refine along_iff (I := fun s => s.editor.Valid ∧ s.InStep)
    ⟨EditorWorkspace.valid_new _, inStep_start _ _ _ _ _ _⟩ ?_ ?_
  · exact fun s m ⟨hv, hs⟩ => keepsBindings_iff hv hs
  · intro s m s' ⟨hv, hs⟩ hk hs'
    obtain ⟨u, hu, rfl⟩ := Option.map_eq_some_iff.mp hs'
    exact ⟨update_valid hv hu, hk u.1 hs'⟩

/-- A clean document is read again when its file has another text. -/
def reread : List EditorMessage :=
  [.documentOpened ⟨[]⟩ ⟨[97]⟩ .pinned (.ok (readOf "first")),
    .documentDiskObserved ⟨[]⟩ ⟨0⟩ .initial (.ok (.present (readOf "second")))]

/-- The coordinator keeps the text that was there. -/
theorem reread_unheard :
    ¬∀ (env : DeskEnv) (root : PathBuf) (workspaceId : String) (restored : RestoredLanguageSession)
      (tabs : SortedMap String RestoredTab) (active : Option String) (nextDocumentId : Nat)
      (messages : List EditorMessage) (s : EditorDesk),
      messages.foldlM (step env) (start root workspaceId restored tabs active nextDocumentId) =
        some s → s.InStep := by
  intro h
  have hrun : (reread.foldlM (step plainDesk)
      (start ⟨[]⟩ "w" ⟨[], [], false⟩ .empty none 0)).any fun s =>
        (s.editor.document ⟨0⟩).any (·.buffer.text = "second".toList) &&
          (s.language.documents.get? ⟨0⟩).any fun b => b.eligible && b.text = "first" := by
    decide
  obtain ⟨s, hr, hs⟩ := (Option.any_eq_true _ _).mp hrun
  obtain ⟨hdocument, hbinding⟩ := Bool.and_eq_true_iff.mp hs
  obtain ⟨d, hd, htext⟩ := (Option.any_eq_true _ _).mp hdocument
  obtain ⟨b, hb, hstale⟩ := (Option.any_eq_true _ _).mp hbinding
  obtain ⟨heligible, hfirst⟩ := Bool.and_eq_true_iff.mp hstale
  have hcurrent := ((h plainDesk _ _ _ _ _ _ reread s hr).current ⟨0⟩ d b hd hb heligible).2
  rw [of_decide_eq_true hfirst, of_decide_eq_true htext] at hcurrent
  revert hcurrent
  decide

end EditorDesk
end Strukt.App
