import Strukt.App.RemoteOperations

/-!
# Consent to remote tasks

The user reviews a task as one text: the host, the executable and the arguments. A confirmation runs
whatever the inputs and the runtime are by then. Each run should be the task of the last review
before it, on the host that the review names, and no review should allow two runs.

* **Runs** (`consent_law`): so it is exactly in the runs where each confirmation that starts a task
  finds the consent text of the connection that will run it.
* **Another host** (`confirmed_on_another_host`): a connection to another host leaves the consent as
  it is, and the task runs there.
-/

namespace Strukt.App.RemoteDesk

/-- Each run is the last task reviewed before it, and has a review of its own. -/
def Reviewed (d : RemoteDesk) : Prop :=
  (∀ run ∈ d.runs, (d.reviews.take run.reviews).getLast? = some run.task) ∧
    (d.runs.map (·.reviews)).Nodup

instance (d : RemoteDesk) : Decidable d.Reviewed := inferInstanceAs (Decidable (_ ∧ _))

/-- The message leads to reviewed runs only. -/
def BindsConsent (json : ArgumentsJson) (d : RemoteDesk) (message : DeskMessage) : Prop :=
  ∀ d' ∈ d.step json message, d'.Reviewed

instance (json : ArgumentsJson) (d : RemoteDesk) (message : DeskMessage) :
    Decidable (d.BindsConsent json message) :=
  inferInstanceAs (Decidable (∀ d' ∈ d.step json message, d'.Reviewed))

/-- A confirmation that starts a task finds the consent text of the present connection. -/
def Confirms (json : ArgumentsJson) (d : RemoteDesk) : DeskMessage → Prop
  | .confirmTask => .processes ∈ d.surfaces.capabilities → d.surfaces.beginOperation ≠ none →
      ∀ text ∈ d.surfaces.taskConsent, ∀ arguments ∈ json.parse d.taskArgumentsJson,
      ∀ runtime ∈ d.runtime,
      text = consentText json ⟨runtime.aliasLabel, d.taskExecutable, arguments⟩
  | _ => True

/-- What is displayed is the last review, of the present inputs, and it has no run yet. -/
structure Displays (json : ArgumentsJson) (d : RemoteDesk) : Prop where
  counted : ∀ run ∈ d.runs, run.reviews ≤ d.reviews.length
  shown : ∀ text, d.surfaces.taskConsent = some text → ∃ task,
    d.reviews.getLast? = some task ∧ text = consentText json task ∧
      task.executable = d.taskExecutable ∧
      json.parse d.taskArgumentsJson = some task.arguments ∧
      ∀ run ∈ d.runs, run.reviews < d.reviews.length

/-- No task was reviewed or run, and a consent that is left is for the inputs of before. -/
structure Calm (d d' : RemoteDesk) : Prop where
  runs : d'.runs = d.runs
  reviews : d'.reviews = d.reviews
  consent : d'.surfaces.taskConsent = none ∨
    (d'.surfaces.taskConsent = d.surfaces.taskConsent ∧ d'.taskExecutable = d.taskExecutable ∧
      d'.taskArgumentsJson = d.taskArgumentsJson)

variable {json : ArgumentsJson} {d d' : RemoteDesk} {message : DeskMessage}

/-! ## Messages that neither review nor run -/

theorem Calm.of_same (hruns : d'.runs = d.runs) (hreviews : d'.reviews = d.reviews)
    (hconsent : d'.surfaces.taskConsent = d.surfaces.taskConsent)
    (hexecutable : d'.taskExecutable = d.taskExecutable)
    (harguments : d'.taskArgumentsJson = d.taskArgumentsJson) : Calm d d' :=
  ⟨hruns, hreviews, .inr ⟨hconsent, hexecutable, harguments⟩⟩

theorem Calm.refl (d : RemoteDesk) : Calm d d := .of_same rfl rfl rfl rfl rfl

theorem Calm.displays (h : Calm d d') (hd : Displays json d) : Displays json d' := by
  constructor
  · rw [h.runs, h.reviews]
    exact hd.counted
  · intro text htext
    rw [h.runs, h.reviews]
    rcases h.consent with hnone | ⟨hconsent, hexecutable, harguments⟩
    · rw [hnone] at htext
      cases htext
    · rw [hexecutable, harguments]
      exact hd.shown text (hconsent ▸ htext)

theorem Calm.reviewed (h : Calm d d') (hd : d.Reviewed) : d'.Reviewed := by
  unfold Reviewed
  rw [h.runs, h.reviews]
  exact hd

theorem calm_fail (d : RemoteDesk) (error : String) : Calm d (d.fail error) :=
  .of_same rfl rfl rfl rfl rfl

theorem calm_connect (d : RemoteDesk) (checked : Except String String) :
    Calm d (d.connect checked) := by
  cases checked with
  | error error => exact .of_same rfl rfl rfl rfl rfl
  | ok fresh => exact .of_same rfl rfl rfl rfl rfl

theorem calm_refreshFiles (d : RemoteDesk) : Calm d d.refreshFiles := by
  unfold refreshFiles
  cases hb : d.surfaces.beginOperation with
  | none => exact .refl d
  | some surfaces =>
    obtain ⟨-, -, rfl⟩ := beginOperation_eq_some hb
    cases d.runtime with
    | none => exact .of_same rfl rfl rfl rfl rfl
    | some runtime => exact .of_same rfl rfl rfl rfl rfl

theorem calm_begins (d : RemoteDesk) (work : Option RemoteWork) : Calm d (d.begins work) := by
  unfold begins
  cases hb : d.surfaces.beginOperation with
  | none => exact .refl d
  | some surfaces =>
    obtain ⟨-, -, rfl⟩ := beginOperation_eq_some hb
    dsimp only
    split
    · exact .of_same rfl rfl rfl rfl rfl
    · exact .of_same rfl rfl rfl rfl rfl

theorem calm_verifyLanguage (d : RemoteDesk) (checked : Except String Unit) :
    Calm d (d.verifyLanguage checked) := by
  cases checked with
  | error error => exact d.calm_fail error
  | ok _ =>
    unfold verifyLanguage
    dsimp only
    split
    · exact d.calm_fail _
    · exact d.calm_begins _

theorem calm_confirmHelperInstall (d : RemoteDesk) (checked : Except String Unit) :
    Calm d (d.confirmHelperInstall checked) := by
  cases checked with
  | error error => exact .of_same rfl rfl rfl rfl rfl
  | ok _ => exact .of_same rfl rfl rfl rfl rfl

theorem calm_editDocument (d : RemoteDesk) (action : String → String) :
    Calm d { d with surfaces := d.surfaces.editDocument action } := by
  unfold RemoteSurfaces.editDocument
  split
  · exact .of_same rfl rfl rfl rfl rfl
  · exact .refl d

theorem calm_restoreRecords (d : RemoteDesk) (records : List RemoteConnectionRecord) :
    Calm d (d.restoreRecords records) := by
  unfold restoreRecords
  cases records.head? with
  | none => exact .of_same rfl rfl rfl rfl rfl
  | some record => exact .of_same rfl rfl rfl rfl rfl

theorem calm_selectRecord (d : RemoteDesk) (index : Nat) : Calm d (d.selectRecord index) := by
  unfold selectRecord
  split
  · split
    · exact .of_same rfl rfl rfl rfl rfl
    · exact .refl d
  · exact .refl d

theorem calm_rememberSessionProvider (d : RemoteDesk) (fresh : String)
    (provider : RemoteSessionProviderPreference) :
    Calm d (d.rememberSessionProvider fresh provider) := by
  unfold rememberSessionProvider
  split
  · exact .of_same rfl rfl rfl rfl rfl
  · exact .refl d

theorem calm_withCapability (capability : RemoteCapability) (f : RemoteDesk → RemoteDesk)
    (h : Calm d (f d)) : Calm d (d.withCapability capability f) := by
  rcases d.withCapability_cases capability f with he | he
  · rwa [he]
  · rw [he]
    exact .refl d

theorem calm_keepRecord (d : RemoteDesk) (attempt : ConnectAttempt) :
    (d.keepRecord attempt).runs = d.runs ∧ (d.keepRecord attempt).reviews = d.reviews ∧
      (d.keepRecord attempt).surfaces.taskConsent = d.surfaces.taskConsent ∧
      (d.keepRecord attempt).taskExecutable = d.taskExecutable ∧
      (d.keepRecord attempt).taskArgumentsJson = d.taskArgumentsJson := by
  unfold keepRecord
  split
  · split
    · exact ⟨rfl, rfl, rfl, rfl, rfl⟩
    · exact ⟨rfl, rfl, rfl, rfl, rfl⟩
  · exact ⟨rfl, rfl, rfl, rfl, rfl⟩

/-- An attempt that succeeds leaves the consent, whichever host it was to. -/
theorem calm_connected (d : RemoteDesk) (generation : UInt64) (attempt : ConnectAttempt)
    (result : Except String (String × List RemoteCapability)) :
    Calm d (d.connected generation attempt result) := by
  unfold connected
  split
  · exact .refl d
  · rename_i h
    unfold RemoteSurfaces.finishConnect
    rw [if_neg h]
    cases result with
    | ok host =>
      dsimp only
      obtain ⟨hruns, hreviews, hconsent, hexecutable, harguments⟩ := calm_keepRecord _ attempt
      exact .of_same hruns hreviews hconsent hexecutable harguments
    | error error => exact .of_same rfl rfl rfl rfl rfl

/-- A completion leaves the consent or clears it. -/
theorem calm_finish {α : Type} (d : RemoteDesk) (generation : UInt64) (result : Except String α)
    {ok : RemoteSurfaces → α → RemoteSurfaces} {fail : RemoteSurfaces → RemoteSurfaces}
    (hok : ∀ s a, (ok s a).taskConsent = none ∨ (ok s a).taskConsent = s.taskConsent)
    (hfail : ∀ s, (fail s).taskConsent = none ∨ (fail s).taskConsent = s.taskConsent) :
    Calm d { d with surfaces := d.surfaces.finish generation result ok fail } := by
  refine ⟨rfl, rfl, ?_⟩
  unfold RemoteSurfaces.finish
  split
  · exact .inr ⟨rfl, rfl, rfl⟩
  · cases result with
    | ok a =>
      rcases hok { d.surfaces with operationInFlight := false } a with h | h
      · exact .inl h
      · exact .inr ⟨h, rfl, rfl⟩
    | error error =>
      rcases hfail { d.surfaces with operationInFlight := false } with h | h
      · exact .inl h
      · exact .inr ⟨h, rfl, rfl⟩

theorem calm_complete {job : RemoteJob} {outcome : RemoteOutcome}
    (h : d.complete job outcome = some d') : Calm d d' := by
  unfold complete at h
  cases outcome with
  | connected result =>
    dsimp only at h
    split at h
    · cases h
      exact d.calm_connected _ _ _
    · cases h
  | files result =>
    dsimp only at h
    split at h
    · cases h
      exact d.calm_finish _ _ (fun _ _ => .inr rfl) fun _ => .inr rfl
    · cases h
  | document result =>
    dsimp only at h
    split at h
    · cases h
      exact d.calm_finish _ _ (fun _ _ => .inr rfl) fun _ => .inr rfl
    · cases h
  | saved result =>
    dsimp only at h
    split at h
    · cases h
      exact d.calm_finish _ _ (fun _ _ => .inr rfl) fun _ => .inr rfl
    · cases h
  | found result =>
    dsimp only at h
    split at h
    · cases h
      exact d.calm_finish _ _ (fun _ _ => .inr rfl) fun _ => .inr rfl
    · cases h
  | git result =>
    dsimp only at h
    split at h
    · cases h
      exact d.calm_finish _ _ (fun _ _ => .inr rfl) fun _ => .inr rfl
    · cases h
  | task result =>
    dsimp only at h
    split at h
    · cases h
      exact d.calm_finish _ _ (fun _ _ => .inl rfl) fun _ => .inl rfl
    · cases h
  | language result =>
    dsimp only at h
    split at h
    · cases h
      exact d.calm_finish _ _ (fun _ _ => .inr rfl) fun _ => .inr rfl
    · cases h
  | installed result =>
    dsimp only at h
    split at h
    · cases h
      cases result with
      | ok _ => exact .of_same rfl rfl rfl rfl rfl
      | error error => exact .of_same rfl rfl rfl rfl rfl
    · cases h

theorem calm_deliver {index : Nat} {outcome : RemoteOutcome}
    (h : d.step json (.deliver index outcome) = some d') : Calm d d' := by
  obtain ⟨job, -, hcomplete⟩ := step_deliver h
  have hcalm := calm_complete hcomplete
  exact ⟨hcalm.runs, hcalm.reviews, hcalm.consent⟩

/-! ## Reviews and confirmations -/

theorem consentText_injective {host host' executable : String} {arguments : List String}
    (h : consentText json ⟨host, executable, arguments⟩ =
      consentText json ⟨host', executable, arguments⟩) : host = host' := by
  simpa [consentText, String.append_assoc] using h

/-- A review shows the task, and counts as the last one. -/
theorem displays_review (hd : Displays json d) : Displays json (d.reviewTask json) := by
  unfold reviewTask
  split
  · exact (d.calm_fail _).displays hd
  · split
    · exact (d.calm_fail _).displays hd
    · rename_i arguments hparse
      constructor
      · intro run hrun
        have := hd.counted run hrun
        simp only [List.length_append, List.length_singleton]
        omega
      · intro text htext
        refine ⟨_, List.getLast?_concat, (Option.some.inj htext).symm, rfl, hparse, ?_⟩
        intro run hrun
        have := hd.counted run hrun
        simp only [List.length_append, List.length_singleton]
        omega

theorem take_of_counted {α : Type} {l : List α} {n : Nat} (a : α) (h : n ≤ l.length) :
    (l ++ [a]).take n = l.take n := List.take_append_of_le_length h

theorem reviewed_review (hd : Displays json d) (hr : d.Reviewed) :
    (d.reviewTask json).Reviewed := by
  unfold reviewTask
  split
  · exact (d.calm_fail _).reviewed hr
  · split
    · exact (d.calm_fail _).reviewed hr
    · refine ⟨fun run hrun => ?_, hr.2⟩
      dsimp only
      rw [take_of_counted _ (hd.counted run hrun)]
      exact hr.1 run hrun

/-- A run of the last review is reviewed exactly where it is the task of that review. -/
theorem reviewed_run_iff (surfaces : RemoteSurfaces) (jobs : List RemoteJob)
    {task : HostedTask} (run : HostedTask) (hr : d.Reviewed)
    (hlast : d.reviews.getLast? = some task) (hnew : ∀ r ∈ d.runs, r.reviews < d.reviews.length) :
    Reviewed { d with
      surfaces := surfaces
      jobs := jobs
      runs := d.runs ++ [⟨d.reviews.length, run⟩] } ↔ task = run := by
  have hnumbers : ((d.runs ++ [(⟨d.reviews.length, run⟩ : TaskRun)]).map (·.reviews)).Nodup := by
    rw [List.map_append]
    refine List.Nodup.append hr.2 (List.nodup_singleton _) ?_
    intro number hold hmem
    obtain ⟨r, hrun, rfl⟩ := List.mem_map.mp hold
    exact absurd (List.mem_singleton.mp hmem) (hnew r hrun).ne
  constructor
  · intro h
    have hrun := h.1 _ (List.mem_append_right _ (List.mem_singleton_self _))
    dsimp only at hrun
    rw [List.take_length, hlast] at hrun
    exact Option.some.inj hrun
  · rintro rfl
    refine ⟨fun r hrun => ?_, hnumbers⟩
    rcases List.mem_append.mp hrun with hrun | hrun
    · exact hr.1 r hrun
    · obtain rfl := List.mem_singleton.mp hrun
      dsimp only
      rw [List.take_length, hlast]

/-- A confirmation that starts a task runs the reviewed one exactly where the consent is for the
present connection. -/
theorem confirm_spec (hd : Displays json d) (hr : d.Reviewed)
    (hcapable : .processes ∈ d.surfaces.capabilities) :
    Displays json (d.confirmTask json) ∧
      ((d.confirmTask json).Reviewed ↔ d.Confirms json .confirmTask) := by
  unfold confirmTask Confirms
  cases hconsent : d.surfaces.taskConsent with
  | none => exact ⟨(d.calm_fail _).displays hd, by simpa using (d.calm_fail _).reviewed hr⟩
  | some text =>
    rw [if_neg (by simp)]
    cases hparse : json.parse d.taskArgumentsJson with
    | none => exact ⟨(d.calm_fail _).displays hd, by simpa using (d.calm_fail _).reviewed hr⟩
    | some arguments =>
      cases hb : d.surfaces.beginOperation with
      | none => exact ⟨hd, by simpa using hr⟩
      | some surfaces =>
        cases hruntime : d.runtime with
        | none =>
          refine ⟨⟨hd.counted, nofun⟩, ?_⟩
          have hreviewed : Reviewed
              { d with surfaces := { surfaces with taskConsent := none }, runtime := none } := hr
          simpa using hreviewed
        | some runtime =>
          obtain ⟨task, hlast, rfl, hexecutable, harguments, hnew⟩ := hd.shown text hconsent
          obtain rfl := Option.some.inj (hparse.symm.trans harguments)
          obtain ⟨host, executable, arguments⟩ := task
          dsimp only at hexecutable
          subst hexecutable
          have hiff := reviewed_run_iff { surfaces with taskConsent := none }
            (d.jobs ++ [⟨surfaces.generation, .task d.taskExecutable arguments⟩])
            ⟨runtime.aliasLabel, d.taskExecutable, arguments⟩ hr hlast hnew
          refine ⟨⟨fun run hrun => ?_, nofun⟩, ?_⟩
          · rcases List.mem_append.mp hrun with hrun | hrun
            · exact hd.counted run hrun
            · obtain rfl := List.mem_singleton.mp hrun
              exact le_rfl
          · refine hiff.trans ⟨fun he => ?_, fun h => ?_⟩
            · intro _ _ shown hshown passed hpassed connection hconnection
              obtain rfl := Option.some.inj hshown
              obtain rfl := Option.some.inj hpassed
              obtain rfl := Option.some.inj hconnection
              rw [he]
            · have htext := h hcapable (by simp) _ rfl _ rfl _ rfl
              rw [consentText_injective htext]

/-! ## Runs -/

/-- The invariant of runs: what is displayed is the last review, and the runs are reviewed. -/
def Consented (json : ArgumentsJson) (d : RemoteDesk) : Prop := Displays json d ∧ d.Reviewed

theorem Calm.consented (h : Calm d d') (hd : Consented json d) : Consented json d' :=
  ⟨h.displays hd.1, h.reviewed hd.2⟩

/-- Every message but a confirmation keeps the invariant. -/
theorem consented_step (hd : Consented json d) (hno : message ≠ .confirmTask)
    (h : d.step json message = some d') : Consented json d' := by
  cases message with
  | confirmTask => exact absurd rfl hno
  | deliver index outcome => exact (calm_deliver h).consented hd
  | recordsLoaded result =>
    cases result with
    | ok records => cases h; exact (d.calm_restoreRecords records).consented hd
    | error error => cases h; exact (d.calm_fail error).consented hd
  | aliasChanged | rootChanged | forgetRecord =>
    cases h
    exact Calm.consented (d := d) (.of_same rfl rfl rfl rfl rfl) hd
  | taskExecutableChanged | taskArgumentsChanged | cancelTask | disconnectRemote =>
    cases h
    exact Calm.consented (d := d) ⟨rfl, rfl, .inl rfl⟩ hd
  | connectRemote checked => cases h; exact (d.calm_connect checked).consented hd
  | refreshFiles => cases h; exact d.calm_refreshFiles.consented hd
  | openDocument path => cases h; exact (d.calm_begins _).consented hd
  | documentAction action => cases h; exact (d.calm_editDocument action).consented hd
  | saveDocument => cases h; exact (d.calm_begins _).consented hd
  | confirmHelperInstall checked =>
    cases h
    exact (d.calm_confirmHelperInstall checked).consented hd
  | selectRecord index => cases h; exact (d.calm_selectRecord index).consented hd
  | selectSessionProvider fresh provider =>
    cases h
    exact (d.calm_rememberSessionProvider fresh provider).consented hd
  | runSearch => cases h; exact (calm_withCapability _ _ (d.calm_begins _)).consented hd
  | refreshGit => cases h; exact (calm_withCapability _ _ (d.calm_begins _)).consented hd
  | verifyLanguage checked =>
    cases h
    exact (calm_withCapability _ _ (d.calm_verifyLanguage checked)).consented hd
  | reviewTask =>
    cases h
    rcases d.withCapability_cases .processes (reviewTask json) with he | he
    · rw [he]
      exact ⟨displays_review hd.1, reviewed_review hd.1 hd.2⟩
    · rwa [he]

theorem confirm_step (hd : Consented json d) (h : d.step json .confirmTask = some d') :
    Displays json d' ∧ (d'.Reviewed ↔ d.Confirms json .confirmTask) := by
  cases h
  by_cases hcapable : .processes ∈ d.surfaces.capabilities
  · rw [withCapability, if_pos hcapable]
    exact confirm_spec hd.1 hd.2 hcapable
  · rw [withCapability, if_neg hcapable]
    exact ⟨hd.1, fun _ h => absurd h hcapable, fun _ => hd.2⟩

theorem bindsConsent_iff (hd : Consented json d) :
    d.BindsConsent json message ↔ d.Confirms json message := by
  by_cases hm : message = .confirmTask
  · subst hm
    have hstep : d.step json .confirmTask =
        some (d.withCapability .processes (confirmTask json)) := rfl
    rw [← (confirm_step hd hstep).2]
    exact ⟨fun h => h _ hstep, fun h d' hd' => by cases hd'; exact h⟩
  · refine ⟨fun _ => ?_, fun _ d' h => (consented_step hd hm h).2⟩
    unfold Confirms
    split
    · exact absurd rfl hm
    · trivial

/-- In a run of the app every task that starts is the one last reviewed, on the host of the review
and once, exactly where each confirmation finds the consent of the present connection. -/
theorem consent_law (json : ArgumentsJson) (messages : List DeskMessage)
    (records : List RemoteConnectionRecord) (store : Bool) :
    Along (step json) (BindsConsent json) messages (start records store) ↔
      Along (step json) (Confirms json) messages (start records store) := by
  have h₀ : Consented json (start records store) := ⟨⟨nofun, nofun⟩, nofun, List.nodup_nil⟩
  refine along_iff (I := Consented json) h₀ (fun d message h => bindsConsent_iff h) ?_
  intro d message d' hd hbinds h
  by_cases hm : message = .confirmTask
  · subst hm
    exact ⟨(confirm_step hd h).1, hbinds d' h⟩
  · exact consented_step hd hm h

/-- A task reviewed for one host runs on another, to which the app connected in between. -/
theorem confirmed_on_another_host :
    ¬Along (step ⟨fun _ => some [], fun _ => "[]"⟩) (BindsConsent ⟨fun _ => some [], fun _ => "[]"⟩)
      [.aliasChanged "staging", .connectRemote (.ok "00000000000000000000000000000001"),
        .deliver 0 (.connected (.ok ("/srv", [.processes]))),
        .refreshFiles, .deliver 0 (.files (.ok [])),
        .taskExecutableChanged "deploy", .reviewTask,
        .aliasChanged "production", .connectRemote (.ok "00000000000000000000000000000002"),
        .deliver 0 (.connected (.ok ("/srv", [.processes]))),
        .refreshFiles, .deliver 0 (.files (.ok [])), .confirmTask] (start [] true) := by
  decide

end Strukt.App.RemoteDesk
