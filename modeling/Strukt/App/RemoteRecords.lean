import Strukt.App.RemoteOperations

/-!
# Records of the connections that were made

When an attempt succeeds, the app keeps a record under the identifier of the attempt. The record is
built from the inputs as they are at that moment, and these stay editable while the attempt is under
way.

* **Runs** (`record_law`): each record describes its attempt exactly in the runs where the inputs at
  the completion are those of the attempt, and the record has room for the other roots.
* **Another alias** (`alias_edited_meanwhile`): an edit of the alias while the attempt is under way
  puts the edited alias under the identifier of the host that was reached.
-/

namespace Strukt.App

namespace KeptRecord

/-- The roots that were remembered under the identifier, but the attempt's. -/
def otherRoots (k : KeptRecord) : List String :=
  (k.previous.elim [] (·.recentRoots)).filter (· ≠ k.attempt.root)

/-- The record is of the attempt, and has what was remembered under its identifier. -/
structure Describes (k : KeptRecord) : Prop where
  connectionId : k.record.connectionId = k.attempt.connectionId
  aliasLabel : k.record.aliasLabel = k.attempt.aliasLabel
  recentRoots : k.record.recentRoots = k.attempt.root :: k.otherRoots
  displayName : k.record.displayName = k.previous.bind (·.displayName)
  helper : k.record.helper = k.previous.bind (·.helper)
  provider : k.record.preferredSessionProvider = k.previous.bind (·.preferredSessionProvider)

theorem describes_iff (k : KeptRecord) : k.Describes ↔
    k.record.connectionId = k.attempt.connectionId ∧ k.record.aliasLabel = k.attempt.aliasLabel ∧
      k.record.recentRoots = k.attempt.root :: k.otherRoots ∧
      k.record.displayName = k.previous.bind (·.displayName) ∧
      k.record.helper = k.previous.bind (·.helper) ∧
      k.record.preferredSessionProvider = k.previous.bind (·.preferredSessionProvider) :=
  ⟨fun h => ⟨h.1, h.2, h.3, h.4, h.5, h.6⟩,
    fun ⟨h₁, h₂, h₃, h₄, h₅, h₆⟩ => ⟨h₁, h₂, h₃, h₄, h₅, h₆⟩⟩

instance (k : KeptRecord) : Decidable k.Describes := decidable_of_iff' _ k.describes_iff

end KeptRecord

namespace RemoteDesk

/-- The message leads to records that describe their attempts. -/
def KeepsRecords (json : ArgumentsJson) (d : RemoteDesk) (message : DeskMessage) : Prop :=
  ∀ d' ∈ d.step json message, ∀ k ∈ d'.kept, k.Describes

instance (json : ArgumentsJson) (d : RemoteDesk) (message : DeskMessage) :
    Decidable (d.KeepsRecords json message) :=
  inferInstanceAs (Decidable (∀ d' ∈ d.step json message, ∀ k ∈ d'.kept, k.Describes))

/-- The inputs are those of the attempt, and its record has room for the other roots. -/
structure Unedited (d : RemoteDesk) (attempt : ConnectAttempt) : Prop where
  aliasInput : d.surfaces.aliasInput = attempt.aliasLabel
  rootInput : d.surfaces.rootInput = attempt.root
  room : (((d.recordOf attempt.connectionId).elim [] (·.recentRoots)).filter
    (· ≠ attempt.root)).length < maxRecentRoots

/-- An attempt of the present generation that succeeds, and whose record goes to the store, finds
the inputs that it was begun with. -/
def InputsLeft (d : RemoteDesk) : DeskMessage → Prop
  | .deliver index (.connected (.ok _)) => ∀ job ∈ d.jobs[index]?, ∀ attempt,
      job.work = .connect attempt → job.generation = d.surfaces.generation → d.store = true →
      d.currentRecordFor attempt.connectionId ≠ none → d.Unedited attempt
  | _ => True

variable {json : ArgumentsJson} {d d' : RemoteDesk} {message : DeskMessage}

/-! ## The record of an attempt -/

theorem currentRecordFor_eq_some {connectionId : String} {record : RemoteConnectionRecord}
    (h : d.currentRecordFor connectionId = some record) :
    record =
      { connectionId := connectionId
        aliasLabel := d.surfaces.aliasInput
        displayName := (d.recordOf connectionId).bind (·.displayName)
        recentRoots := (d.surfaces.rootInput ::
          ((d.recordOf connectionId).elim [] (·.recentRoots)).filter
            (· ≠ d.surfaces.rootInput)).take maxRecentRoots
        helper := (d.recordOf connectionId).bind (·.helper)
        preferredSessionProvider :=
          (d.recordOf connectionId).bind (·.preferredSessionProvider) } := by
  unfold currentRecordFor at h
  dsimp only at h
  split at h
  · exact (Option.some.inj h).symm
  · cases h

/-- A bounded list of roots is whole where there is room. -/
theorem take_roots_iff {root root' : String} {roots : List String} :
    (root :: roots.filter (· ≠ root)).take maxRecentRoots = root' :: roots.filter (· ≠ root') ↔
      root = root' ∧ (roots.filter (· ≠ root')).length < maxRecentRoots := by
  constructor
  · intro h
    have hhead : root = root' := by
      have := congrArg List.head? h
      simpa [maxRecentRoots] using this
    subst hhead
    refine ⟨rfl, ?_⟩
    have := congrArg List.length h
    simp only [List.length_take, List.length_cons] at this
    omega
  · rintro ⟨rfl, hroom⟩
    exact List.take_of_length_le hroom

/-- The record that is kept describes its attempt exactly where the inputs were left. -/
theorem describes_current_iff {attempt : ConnectAttempt} {record : RemoteConnectionRecord}
    (h : d.currentRecordFor attempt.connectionId = some record) :
    KeptRecord.Describes ⟨attempt, d.recordOf attempt.connectionId, record⟩ ↔
      d.Unedited attempt := by
  obtain rfl := currentRecordFor_eq_some h
  rw [KeptRecord.describes_iff]
  constructor
  · rintro ⟨-, halias, hroots, -, -, -⟩
    obtain ⟨hroot, hroom⟩ := take_roots_iff.mp hroots
    exact ⟨halias, hroot, hroom⟩
  · intro hleft
    exact ⟨rfl, hleft.aliasInput, take_roots_iff.mpr ⟨hleft.rootInput, hleft.room⟩, rfl, rfl, rfl⟩

/-- The record of the connection as the surfaces are after it: only the inputs are read. -/
theorem currentRecordFor_congr (d : RemoteDesk) (h : d'.records = d.records)
    (halias : d'.surfaces.aliasInput = d.surfaces.aliasInput)
    (hroot : d'.surfaces.rootInput = d.surfaces.rootInput) {connectionId : String} :
    d'.currentRecordFor connectionId = d.currentRecordFor connectionId := by
  unfold currentRecordFor recordOf
  rw [h, halias, hroot]

theorem kept_keepRecord (d : RemoteDesk) (attempt : ConnectAttempt) :
    (d.keepRecord attempt).kept =
      if d.store = true then
        d.kept ++ ((d.currentRecordFor attempt.connectionId).map fun record =>
          ⟨attempt, d.recordOf attempt.connectionId, record⟩).toList
      else d.kept := by
  unfold keepRecord
  cases d.currentRecordFor attempt.connectionId with
  | none => simp
  | some record =>
    by_cases hstore : d.store = true
    · simp only [hstore, if_true, Option.map_some, Option.toList_some]
    · simp only [hstore, Bool.false_eq_true, if_false]

/-- What a success has the app keep. -/
theorem kept_connected (d : RemoteDesk) (generation : UInt64) (attempt : ConnectAttempt)
    (host : String × List RemoteCapability) :
    (d.connected generation attempt (.ok host)).kept =
      if generation = d.surfaces.generation ∧ d.store = true then
        d.kept ++ ((d.currentRecordFor attempt.connectionId).map fun record =>
          ⟨attempt, d.recordOf attempt.connectionId, record⟩).toList
      else d.kept := by
  by_cases hg : generation = d.surfaces.generation
  · unfold connected RemoteSurfaces.finishConnect
    rw [if_neg (not_not.mpr hg), if_neg (not_not.mpr hg)]
    dsimp only [Except.map]
    rw [kept_keepRecord, currentRecordFor_congr d rfl rfl rfl]
    by_cases hstore : d.store = true
    · rw [if_pos hstore, if_pos ⟨hg, hstore⟩]
      rfl
    · rw [if_neg hstore, if_neg fun h => hstore h.2]
  · have hstale : d.connected generation attempt (.ok host) = d := if_pos hg
    rw [hstale, if_neg fun h => hg h.1]

/-! ## Steps -/

theorem kept_begins (d : RemoteDesk) (work : Option RemoteWork) :
    (d.begins work).kept = d.kept := by
  unfold begins
  cases d.surfaces.beginOperation with
  | none => rfl
  | some surfaces =>
    dsimp only
    split
    · rfl
    · rfl

theorem kept_refreshFiles (d : RemoteDesk) : d.refreshFiles.kept = d.kept := by
  unfold refreshFiles
  cases d.surfaces.beginOperation with
  | none => rfl
  | some surfaces =>
    dsimp only
    split
    · rfl
    · rfl

theorem kept_verifyLanguage (d : RemoteDesk) (checked : Except String Unit) :
    (d.verifyLanguage checked).kept = d.kept := by
  cases checked with
  | error error => rfl
  | ok _ =>
    unfold verifyLanguage
    dsimp only
    split
    · rfl
    · exact d.kept_begins _

theorem kept_reviewTask (d : RemoteDesk) : (d.reviewTask json).kept = d.kept := by
  unfold reviewTask
  split
  · rfl
  · split
    · rfl
    · rfl

theorem kept_confirmTask (d : RemoteDesk) : (d.confirmTask json).kept = d.kept := by
  unfold confirmTask
  split
  · rfl
  split
  · rfl
  split
  · rfl
  · dsimp only
    split
    · rfl
    · rfl

theorem kept_withCapability (capability : RemoteCapability) (f : RemoteDesk → RemoteDesk)
    (h : (f d).kept = d.kept) : (d.withCapability capability f).kept = d.kept := by
  rcases d.withCapability_cases capability f with he | he
  · rwa [he]
  · rw [he]

/-- Only the success of an attempt keeps a record. -/
theorem kept_complete {job : RemoteJob} {outcome : RemoteOutcome}
    (hno : ∀ host, outcome ≠ .connected (.ok host)) (h : d.complete job outcome = some d') :
    d'.kept = d.kept := by
  unfold complete at h
  cases outcome with
  | connected result =>
    cases result with
    | ok host => exact absurd rfl (hno host)
    | error error =>
      dsimp only at h
      split at h
      · cases h
        unfold connected
        split
        · rfl
        · rfl
      · cases h
  | files | document | saved | found | git | task | language | installed =>
    dsimp only at h
    split at h
    · cases h
      rfl
    · cases h

theorem kept_step (hno : ∀ index host, message ≠ .deliver index (.connected (.ok host)))
    (h : d.step json message = some d') : d'.kept = d.kept := by
  cases message with
  | deliver index outcome =>
    obtain ⟨job, -, hcomplete⟩ := step_deliver h
    have hkept := kept_complete (fun host he => hno index host (by rw [he])) hcomplete
    exact hkept
  | recordsLoaded result =>
    cases result with
    | ok records => cases h; rfl
    | error error => cases h; rfl
  | aliasChanged | rootChanged | forgetRecord | taskExecutableChanged | taskArgumentsChanged
  | cancelTask | disconnectRemote | documentAction =>
    cases h
    rfl
  | connectRemote checked =>
    cases h
    cases checked with
    | ok fresh => rfl
    | error error => rfl
  | refreshFiles => cases h; exact d.kept_refreshFiles
  | openDocument path => cases h; exact d.kept_begins _
  | saveDocument => cases h; exact d.kept_begins _
  | confirmHelperInstall checked =>
    cases h
    cases checked with
    | ok _ => rfl
    | error error => rfl
  | selectRecord index =>
    cases h
    unfold selectRecord
    split
    · split
      · rfl
      · rfl
    · rfl
  | selectSessionProvider fresh provider =>
    cases h
    unfold rememberSessionProvider
    split
    · rfl
    · rfl
  | runSearch => cases h; exact kept_withCapability _ _ (d.kept_begins _)
  | refreshGit => cases h; exact kept_withCapability _ _ (d.kept_begins _)
  | verifyLanguage checked => cases h; exact kept_withCapability _ _ (d.kept_verifyLanguage checked)
  | reviewTask => cases h; exact kept_withCapability _ _ d.kept_reviewTask
  | confirmTask => cases h; exact kept_withCapability _ _ d.kept_confirmTask

/-- A success of an attempt keeps a record of it exactly where the inputs were left. -/
theorem keepsRecords_connected {index : Nat} {host : String × List RemoteCapability}
    (hd : ∀ k ∈ d.kept, k.Describes) :
    d.KeepsRecords json (.deliver index (.connected (.ok host))) ↔
      d.InputsLeft (.deliver index (.connected (.ok host))) := by
  cases hjob : d.jobs[index]? with
  | none =>
    have hstep : d.step json (.deliver index (.connected (.ok host))) = none := by
      show d.jobs[index]?.bind _ = none
      rw [hjob]
      rfl
    simp [KeepsRecords, InputsLeft, hstep, hjob]
  | some job =>
    have hstep := step_deliver_eq json (.connected (.ok host)) hjob
    cases hwork : job.work with
    | connect attempt =>
      have hafter : d.step json (.deliver index (.connected (.ok host))) =
          some (connected { d with jobs := d.jobs.eraseIdx index } job.generation attempt
            (.ok host)) := by
        rw [hstep]
        simp [complete, hwork]
      have hkept := kept_connected { d with jobs := d.jobs.eraseIdx index } job.generation attempt
        host
      have hleft : d.InputsLeft (.deliver index (.connected (.ok host))) ↔
          (job.generation = d.surfaces.generation → d.store = true →
            d.currentRecordFor attempt.connectionId ≠ none → d.Unedited attempt) := by
        simp only [InputsLeft, hjob, Option.mem_def, Option.some.injEq, forall_eq', hwork,
          RemoteWork.connect.injEq]
      have hkeeps : d.KeepsRecords json (.deliver index (.connected (.ok host))) ↔
          ∀ k ∈ (connected { d with jobs := d.jobs.eraseIdx index } job.generation attempt
            (.ok host)).kept, k.Describes := by
        simp only [KeepsRecords, hafter, Option.mem_def, Option.some.injEq, forall_eq']
      rw [hleft, hkeeps, hkept]
      by_cases hkeep : job.generation = d.surfaces.generation ∧ d.store = true
      · rw [if_pos hkeep]
        refine ⟨fun h _ _ hsome => ?_, fun h k hk => ?_⟩
        · obtain ⟨record, hrecord⟩ := Option.ne_none_iff_exists'.mp hsome
          refine (describes_current_iff hrecord).mp (h _ (List.mem_append_right _ ?_))
          rw [Option.mem_toList]
          exact Option.map_eq_some_iff.mpr ⟨record, hrecord, rfl⟩
        · rcases List.mem_append.mp hk with hk | hk
          · exact hd k hk
          · rw [Option.mem_toList] at hk
            obtain ⟨record, hrecord, rfl⟩ := Option.map_eq_some_iff.mp hk
            have hsome : d.currentRecordFor attempt.connectionId ≠ none :=
              Option.ne_none_iff_exists'.mpr ⟨record, hrecord⟩
            obtain ⟨halias, hroot, hroom⟩ := h hkeep.1 hkeep.2 hsome
            exact (describes_current_iff hrecord).mpr ⟨halias, hroot, hroom⟩
      · rw [if_neg hkeep]
        exact ⟨fun _ hg hstore => absurd ⟨hg, hstore⟩ hkeep, fun _ => hd⟩
    | listFiles | read | save | search | git | task | language | install =>
      have hnone : d.step json (.deliver index (.connected (.ok host))) = none := by
        rw [hstep]
        simp [complete, hwork]
      simp [KeepsRecords, InputsLeft, hnone, hjob, hwork]

theorem keepsRecords_iff (hd : ∀ k ∈ d.kept, k.Describes) :
    d.KeepsRecords json message ↔ d.InputsLeft message := by
  by_cases hm : ∃ index host, message = .deliver index (.connected (.ok host))
  · obtain ⟨index, host, rfl⟩ := hm
    exact keepsRecords_connected hd
  · have hno : ∀ index host, message ≠ .deliver index (.connected (.ok host)) :=
      fun index host he => hm ⟨index, host, he⟩
    refine ⟨fun _ => ?_, fun _ d' h => ?_⟩
    · unfold InputsLeft
      split
      · exact absurd rfl (hno _ _)
      · trivial
    · rw [kept_step hno h]
      exact hd

/-- In a run of the app every record that is kept after an attempt describes it exactly where the
inputs at the completion are those of the attempt. -/
theorem record_law (json : ArgumentsJson) (messages : List DeskMessage)
    (records : List RemoteConnectionRecord) (store : Bool) :
    Along (step json) (KeepsRecords json) messages (start records store) ↔
      Along (step json) InputsLeft messages (start records store) := by
  refine along_iff (I := fun d => ∀ k ∈ d.kept, k.Describes) nofun
    (fun d message h => keepsRecords_iff h) ?_
  intro d message d' _ hkeeps h
  exact hkeeps d' h

/-- The alias is edited while the attempt is under way: the identifier of the saved host gets the
edited alias. -/
theorem alias_edited_meanwhile :
    ¬Along (step ⟨fun _ => none, fun _ => ""⟩) (KeepsRecords ⟨fun _ => none, fun _ => ""⟩)
      [.recordsLoaded (.ok [⟨"00000000000000000000000000000001", "staging", none, ["/srv"], none,
          none⟩]), .connectRemote (.ok "00000000000000000000000000000002"),
        .aliasChanged "production", .deliver 0 (.connected (.ok ("/srv", [])))]
      (start [] true) := by
  decide

end RemoteDesk
end Strukt.App
