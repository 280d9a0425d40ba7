import Strukt.App.RemoteDesk

/-!
# The flag of remote operations

One flag says that a remote operation is under way, and no other begins while it is set. It should
be set only while a job of the present connection, or an install of the helper, is outstanding, and
a job that began before the present connection should not clear it for a newer one.

* **Runs** (`operation_law`): so it is exactly in the runs whose messages are `Orderly`: no
  connection is begun under the flag, a save finds a document, and an install completes before another
  connection has operations of its own.
* **Stuck** (`save_without_document`): a save without a document sets the flag, and nothing is under
  way that would clear it.
-/

namespace Strukt.App

/-- The work sets the flag and clears it. -/
def RemoteWork.flagged : RemoteWork → Bool
  | .connect _ => false
  | _ => true

namespace RemoteJob

/-- The job accounts for the flag of a connection of the generation. -/
def Holds (generation : UInt64) (job : RemoteJob) : Prop :=
  job.work = .install ∨ (job.work.flagged = true ∧ job.generation = generation)

instance (generation : UInt64) (job : RemoteJob) : Decidable (job.Holds generation) :=
  inferInstanceAs (Decidable (_ ∨ _))

/-- The job sets the flag, and it began for the generation. -/
def BegunFor (generation : UInt64) (job : RemoteJob) : Prop :=
  job.work.flagged = true ∧ job.generation = generation

instance (generation : UInt64) (job : RemoteJob) : Decidable (job.BegunFor generation) :=
  inferInstanceAs (Decidable (_ ∧ _))

end RemoteJob

namespace RemoteDesk

/-- The flag is set only while a job holds it. -/
def FlagHeld (d : RemoteDesk) : Prop :=
  d.surfaces.operationInFlight = true → ∃ job ∈ d.jobs, job.Holds d.surfaces.generation

instance (d : RemoteDesk) : Decidable d.FlagHeld := inferInstanceAs (Decidable (_ → _))

/-- A job of an earlier generation does not clear the flag of a newer one. -/
def KeepsFlag (json : ArgumentsJson) (d : RemoteDesk) : DeskMessage → Prop
  | .deliver index outcome => ∀ job ∈ d.jobs[index]?, job.generation ≠ d.surfaces.generation →
      d.surfaces.operationInFlight = true →
      (∃ newer ∈ d.jobs.eraseIdx index, newer.BegunFor d.surfaces.generation) →
      ∀ d' ∈ d.step json (.deliver index outcome), d'.surfaces.operationInFlight = true
  | _ => True

instance (json : ArgumentsJson) (d : RemoteDesk) :
    ∀ message, Decidable (d.KeepsFlag json message)
  | .deliver index outcome => inferInstanceAs (Decidable (∀ job ∈ d.jobs[index]?,
      job.generation ≠ d.surfaces.generation → d.surfaces.operationInFlight = true →
      (∃ newer ∈ d.jobs.eraseIdx index, newer.BegunFor d.surfaces.generation) →
      ∀ d' ∈ d.step json (.deliver index outcome), d'.surfaces.operationInFlight = true))
  | .aliasChanged _ | .rootChanged _ | .connectRemote _ | .refreshFiles | .openDocument _
  | .documentAction _ | .saveDocument | .disconnectRemote | .confirmHelperInstall _
  | .recordsLoaded _ | .selectRecord _ | .forgetRecord _ | .selectSessionProvider _ _ | .runSearch
  | .refreshGit | .taskExecutableChanged _ | .taskArgumentsChanged _ | .reviewTask | .confirmTask
  | .cancelTask | .verifyLanguage _ => isTrue trivial

/-- After the message the flag is held, and it was not cleared for a newer job. -/
def Steady (json : ArgumentsJson) (d : RemoteDesk) (message : DeskMessage) : Prop :=
  (∀ d', d.step json message = some d' → d'.FlagHeld) ∧ d.KeepsFlag json message

instance (json : ArgumentsJson) (d : RemoteDesk) (message : DeskMessage) :
    Decidable (d.Steady json message) :=
  inferInstanceAs (Decidable ((∀ d' ∈ d.step json message, d'.FlagHeld) ∧ d.KeepsFlag json message))

/-- The message does not leave the flag to nobody, nor take it from a newer job. -/
def Orderly (d : RemoteDesk) : DeskMessage → Prop
  | .connectRemote (.ok _) => d.surfaces.operationInFlight = true →
      ∃ job ∈ d.jobs, job.Holds d.surfaces.nextGeneration
  | .saveDocument => d.surfaces.beginOperation ≠ none →
      d.saveWork ≠ none ∨ ∃ job ∈ d.jobs, job.Holds d.surfaces.generation
  | .deliver index (.installed _) => ∀ job ∈ d.jobs[index]?, job.work = .install →
      job.generation ≠ d.surfaces.generation → d.surfaces.operationInFlight = true →
      ¬∃ newer ∈ d.jobs.eraseIdx index, newer.BegunFor d.surfaces.generation
  | _ => True

/-- A ready connection has a runtime. -/
def Linked (d : RemoteDesk) : Prop := d.surfaces.status = .ready → d.runtime.isSome

variable {json : ArgumentsJson} {d d' : RemoteDesk} {message : DeskMessage} {work : RemoteWork}

/-! ## Messages that leave the flag -/

/-- The connection, its jobs and the flag are those of before. -/
structure Idle (d d' : RemoteDesk) : Prop where
  flag : d'.surfaces.operationInFlight = d.surfaces.operationInFlight
  generation : d'.surfaces.generation = d.surfaces.generation
  jobs : d'.jobs = d.jobs
  status : d'.surfaces.status = d.surfaces.status
  runtime : d'.runtime = d.runtime

theorem Idle.refl (d : RemoteDesk) : Idle d d := ⟨rfl, rfl, rfl, rfl, rfl⟩

theorem Idle.held (h : Idle d d') (hd : d.FlagHeld) : d'.FlagHeld := by
  intro hflag
  rw [h.jobs, h.generation]
  exact hd (h.flag ▸ hflag)

theorem Idle.linked (h : Idle d d') (hd : d.Linked) : d'.Linked := by
  intro hready
  rw [h.runtime]
  exact hd (h.status ▸ hready)

theorem idle_fail (d : RemoteDesk) (error : String) : Idle d (d.fail error) :=
  ⟨rfl, rfl, rfl, rfl, rfl⟩

theorem idle_setConsent (d : RemoteDesk) (consent : Option String) :
    Idle d (d.setConsent consent) :=
  ⟨rfl, rfl, rfl, rfl, rfl⟩

theorem idle_reviewTask (d : RemoteDesk) : Idle d (d.reviewTask json) := by
  unfold reviewTask
  split
  · exact d.idle_fail _
  · split
    · exact d.idle_fail _
    · exact ⟨rfl, rfl, rfl, rfl, rfl⟩

theorem idle_restoreRecords (d : RemoteDesk) (records : List RemoteConnectionRecord) :
    Idle d (d.restoreRecords records) := by
  unfold restoreRecords
  cases records.head? with
  | none => exact ⟨rfl, rfl, rfl, rfl, rfl⟩
  | some record => exact ⟨rfl, rfl, rfl, rfl, rfl⟩

theorem idle_selectRecord (d : RemoteDesk) (index : Nat) : Idle d (d.selectRecord index) := by
  unfold selectRecord
  split
  · split
    · exact ⟨rfl, rfl, rfl, rfl, rfl⟩
    · exact .refl d
  · exact .refl d

theorem idle_rememberSessionProvider (d : RemoteDesk) (fresh : String)
    (provider : RemoteSessionProviderPreference) :
    Idle d (d.rememberSessionProvider fresh provider) := by
  unfold rememberSessionProvider
  split
  · exact ⟨rfl, rfl, rfl, rfl, rfl⟩
  · exact .refl d

theorem idle_editDocument (d : RemoteDesk) (action : String → String) :
    Idle d { d with surfaces := d.surfaces.editDocument action } := by
  unfold RemoteSurfaces.editDocument
  split
  · exact ⟨rfl, rfl, rfl, rfl, rfl⟩
  · exact .refl d

theorem keepRecord_idle (d : RemoteDesk) (attempt : ConnectAttempt) :
    Idle d (d.keepRecord attempt) := by
  unfold keepRecord
  split
  · split
    · exact ⟨rfl, rfl, rfl, rfl, rfl⟩
    · exact .refl d
  · exact .refl d

/-! ## Operations -/

theorem beginOperation_eq_some {s s' : RemoteSurfaces} (h : s.beginOperation = some s') :
    s.status = .ready ∧ s.operationInFlight = false ∧
      s' = { s with operationInFlight := true } := by
  unfold RemoteSurfaces.beginOperation at h
  split at h
  · cases h
  · rename_i hno
    cases h
    exact ⟨not_not.mp (not_or.mp hno).1, by simpa using (not_or.mp hno).2, rfl⟩

/-- A begun job holds the flag. -/
theorem held_push (d : RemoteDesk) (work : RemoteWork) (hwork : work.flagged = true) :
    (d.push work).FlagHeld := fun _ =>
  ⟨_, List.mem_append_right _ (List.mem_singleton_self _), .inr ⟨hwork, rfl⟩⟩

/-- An operation that has a job, or that does not begin, keeps the flag held. -/
theorem held_begins (hd : d.FlagHeld) (hl : d.Linked) (hwork : work.flagged = true) :
    (d.begins (some work)).FlagHeld := by
  unfold begins
  cases hb : d.surfaces.beginOperation with
  | none => exact hd
  | some surfaces =>
    obtain ⟨hready, -, rfl⟩ := beginOperation_eq_some hb
    obtain ⟨runtime, hr⟩ := Option.isSome_iff_exists.mp (hl hready)
    rw [hr]
    exact held_push _ _ hwork

theorem linked_begins (hl : d.Linked) (work : Option RemoteWork) : (d.begins work).Linked := by
  unfold begins
  cases hb : d.surfaces.beginOperation with
  | none => exact hl
  | some surfaces =>
    obtain ⟨-, -, rfl⟩ := beginOperation_eq_some hb
    dsimp only
    split
    · exact hl
    · exact hl

theorem held_refreshFiles (hd : d.FlagHeld) (hl : d.Linked) : d.refreshFiles.FlagHeld := by
  unfold refreshFiles
  cases hb : d.surfaces.beginOperation with
  | none => exact hd
  | some surfaces =>
    obtain ⟨hready, -, rfl⟩ := beginOperation_eq_some hb
    obtain ⟨runtime, hr⟩ := Option.isSome_iff_exists.mp (hl hready)
    rw [hr]
    exact held_push _ .listFiles rfl

theorem linked_refreshFiles (hl : d.Linked) : d.refreshFiles.Linked := by
  unfold refreshFiles
  cases hb : d.surfaces.beginOperation with
  | none => exact hl
  | some surfaces =>
    obtain ⟨-, -, rfl⟩ := beginOperation_eq_some hb
    dsimp only
    split
    · exact hl
    · exact hl

theorem held_confirmTask (hd : d.FlagHeld) (hl : d.Linked) : (d.confirmTask json).FlagHeld := by
  unfold confirmTask
  split
  · exact (d.idle_fail _).held hd
  split
  · exact (d.idle_fail _).held hd
  cases hb : d.surfaces.beginOperation with
  | none => exact hd
  | some surfaces =>
    obtain ⟨hready, -, rfl⟩ := beginOperation_eq_some hb
    obtain ⟨runtime, hr⟩ := Option.isSome_iff_exists.mp (hl hready)
    rw [hr]
    exact fun _ => ⟨_, List.mem_append_right _ (List.mem_singleton_self _), .inr ⟨rfl, rfl⟩⟩

theorem linked_confirmTask (hl : d.Linked) : (d.confirmTask json).Linked := by
  unfold confirmTask
  split
  · exact (d.idle_fail _).linked hl
  split
  · exact (d.idle_fail _).linked hl
  cases hb : d.surfaces.beginOperation with
  | none => exact hl
  | some surfaces =>
    obtain ⟨-, -, rfl⟩ := beginOperation_eq_some hb
    dsimp only
    split
    · exact hl
    · exact hl

theorem held_verifyLanguage (hd : d.FlagHeld) (hl : d.Linked) (checked : Except String Unit) :
    (d.verifyLanguage checked).FlagHeld := by
  cases checked with
  | error error => exact (d.idle_fail _).held hd
  | ok _ =>
    unfold verifyLanguage
    dsimp only
    split
    · exact (d.idle_fail _).held hd
    · exact held_begins hd hl rfl

theorem linked_verifyLanguage (hl : d.Linked) (checked : Except String Unit) :
    (d.verifyLanguage checked).Linked := by
  cases checked with
  | error error => exact (d.idle_fail _).linked hl
  | ok _ =>
    unfold verifyLanguage
    dsimp only
    split
    · exact (d.idle_fail _).linked hl
    · exact linked_begins hl _

theorem withCapability_cases (capability : RemoteCapability) (f : RemoteDesk → RemoteDesk) :
    d.withCapability capability f = f d ∨ d.withCapability capability f = d := by
  unfold withCapability
  split
  · exact .inl rfl
  · exact .inr rfl

/-- A save finds a document, or another job holds the flag that it sets. -/
theorem held_save_iff (hd : d.FlagHeld) (hl : d.Linked) :
    (d.begins d.saveWork).FlagHeld ↔ d.Orderly .saveDocument := by
  unfold Orderly begins
  cases hb : d.surfaces.beginOperation with
  | none => simpa using hd
  | some surfaces =>
    obtain ⟨hready, -, rfl⟩ := beginOperation_eq_some hb
    obtain ⟨runtime, hr⟩ := Option.isSome_iff_exists.mp (hl hready)
    cases hw : d.saveWork with
    | none =>
      rw [hr]
      simp [FlagHeld]
    | some work =>
      have hflagged : work.flagged = true := by
        obtain ⟨path, -, hw⟩ := Option.bind_eq_some_iff.mp hw
        obtain ⟨revision, -, hw⟩ := Option.bind_eq_some_iff.mp hw
        cases hw
        rfl
      rw [hr]
      exact ⟨fun _ _ => .inl nofun, fun _ => held_push _ _ hflagged⟩

/-! ## Completions -/

theorem mem_eraseIdx_of_ne {α : Type} {l : List α} {a b : α} {i : Nat} (ha : a ∈ l)
    (hb : l[i]? = some b) (hne : a ≠ b) : a ∈ l.eraseIdx i := by
  obtain ⟨j, hj⟩ := List.mem_iff_getElem?.mp ha
  refine List.mem_eraseIdx_iff_getElem?.mpr ⟨j, fun hij => ?_, hj⟩
  rw [hij, hb] at hj
  exact hne (Option.some.inj hj).symm

/-- Without a job that does not hold the flag, it is held. -/
theorem held_erase {index : Nat} {job : RemoteJob} (hd : d.FlagHeld)
    (hjob : d.jobs[index]? = some job) (hno : ¬job.Holds d.surfaces.generation) :
    FlagHeld { d with jobs := d.jobs.eraseIdx index } := by
  intro hflag
  obtain ⟨holder, hmem, hholds⟩ := hd hflag
  exact ⟨holder, mem_eraseIdx_of_ne hmem hjob fun he => hno (he ▸ hholds), hholds⟩

/-- A completion of an operation clears the flag of its own generation, and only that. -/
structure Finishes (generation : UInt64) (d d' : RemoteDesk) : Prop where
  stale : generation ≠ d.surfaces.generation → d' = d
  done : generation = d.surfaces.generation → d'.surfaces.operationInFlight = false
  linked : d.Linked → d'.Linked

theorem finishes {α : Type} (d : RemoteDesk) (generation : UInt64) (result : Except String α)
    {ok : RemoteSurfaces → α → RemoteSurfaces} {fail : RemoteSurfaces → RemoteSurfaces}
    (hok : ∀ s a, (ok s a).operationInFlight = s.operationInFlight ∧ (ok s a).status = s.status)
    (hfail : ∀ s, (fail s).operationInFlight = s.operationInFlight ∧
      ((fail s).status = .ready → s.status = .ready)) :
    Finishes generation d { d with surfaces := d.surfaces.finish generation result ok fail } := by
  by_cases h : generation ≠ d.surfaces.generation
  · have hfinish : d.surfaces.finish generation result ok fail = d.surfaces := if_pos h
    rw [hfinish]
    exact ⟨fun _ => rfl, fun he => absurd he h, id⟩
  · refine ⟨fun hne => absurd hne h, fun _ => ?_, fun hl hready => hl ?_⟩
    · unfold RemoteSurfaces.finish
      rw [if_neg h]
      cases result with
      | ok a => exact (hok _ a).1
      | error error => exact (hfail _).1
    · unfold RemoteSurfaces.finish at hready
      rw [if_neg h] at hready
      cases result with
      | ok a =>
        have hstatus := (hok { d.surfaces with operationInFlight := false } a).2
        exact hstatus.symm.trans hready
      | error error => exact (hfail { d.surfaces with operationInFlight := false }).2 hready

theorem finishFiles_finishes (d : RemoteDesk) (generation : UInt64)
    (result : Except String (List String)) :
    Finishes generation d { d with surfaces := d.surfaces.finishFiles generation result } :=
  finishes d generation result (fun _ _ => ⟨rfl, rfl⟩) fun _ => ⟨rfl, nofun⟩

theorem finishDocument_finishes (d : RemoteDesk) (generation : UInt64)
    (result : Except String RemoteDocument) :
    Finishes generation d { d with surfaces := d.surfaces.finishDocument generation result } :=
  finishes d generation result (fun _ _ => ⟨rfl, rfl⟩) fun _ => ⟨rfl, id⟩

theorem finishSave_finishes (d : RemoteDesk) (generation : UInt64)
    (result : Except String String) :
    Finishes generation d { d with surfaces := d.surfaces.finishSave generation result } :=
  finishes d generation result (fun _ _ => ⟨rfl, rfl⟩) fun _ => ⟨rfl, id⟩

theorem finishSearch_finishes (d : RemoteDesk) (generation : UInt64)
    (result : Except String (List String)) :
    Finishes generation d { d with surfaces := d.surfaces.finishSearch generation result } :=
  finishes d generation result (fun _ _ => ⟨rfl, rfl⟩) fun _ => ⟨rfl, id⟩

theorem finishGit_finishes (d : RemoteDesk) (generation : UInt64)
    (result : Except String (List String)) :
    Finishes generation d { d with surfaces := d.surfaces.finishGit generation result } :=
  finishes d generation result (fun _ _ => ⟨rfl, rfl⟩) fun _ => ⟨rfl, id⟩

theorem finishTask_finishes (d : RemoteDesk) (generation : UInt64)
    (result : Except String String) :
    Finishes generation d { d with surfaces := d.surfaces.finishTask generation result } :=
  finishes d generation result (fun _ _ => ⟨rfl, rfl⟩) fun _ => ⟨rfl, id⟩

theorem finishLanguage_finishes (d : RemoteDesk) (generation : UInt64)
    (result : Except String String) :
    Finishes generation d { d with surfaces := d.surfaces.finishLanguage generation result } :=
  finishes d generation result (fun _ _ => ⟨rfl, rfl⟩) fun _ => ⟨rfl, id⟩

/-- The completion of an attempt leaves the flag and the jobs. -/
theorem connected_spec (d : RemoteDesk) (generation : UInt64) (attempt : ConnectAttempt)
    (result : Except String (String × List RemoteCapability)) :
    (d.connected generation attempt result).surfaces.operationInFlight =
        d.surfaces.operationInFlight ∧
      (d.connected generation attempt result).surfaces.generation = d.surfaces.generation ∧
      (d.connected generation attempt result).jobs = d.jobs ∧
      (d.Linked → (d.connected generation attempt result).Linked) := by
  unfold connected
  by_cases h : generation ≠ d.surfaces.generation
  · rw [if_pos h]
    exact ⟨rfl, rfl, rfl, id⟩
  · rw [if_neg h]
    unfold RemoteSurfaces.finishConnect
    rw [if_neg h]
    cases result with
    | ok host =>
      have hkept := keepRecord_idle
        { d with
          surfaces :=
            { d.surfaces with
              status := .ready
              capabilities := (runtimeOf attempt host).capabilities
              hostLabel := some (runtimeOf attempt host).aliasLabel
              rootLabel := some (runtimeOf attempt host).root
              error := none }
          runtime := some (runtimeOf attempt host) } attempt
      refine ⟨hkept.flag, hkept.generation, hkept.jobs, fun _ => hkept.linked fun _ => rfl⟩
    | error error => exact ⟨rfl, rfl, rfl, fun _ => nofun⟩

/-- What a completion does to the flag: an operation of another generation and an attempt leave it,
an operation of this one and an install clear it. -/
theorem complete_cases {job : RemoteJob} {outcome : RemoteOutcome}
    (h : d.complete job outcome = some d') :
    (d.Linked → d'.Linked) ∧
      ((d'.surfaces.operationInFlight = d.surfaces.operationInFlight ∧
          d'.surfaces.generation = d.surfaces.generation ∧ d'.jobs = d.jobs ∧
          ¬job.Holds d.surfaces.generation) ∨
        (d'.surfaces.operationInFlight = false ∧
          (job.work = .install ∧ (∃ result, outcome = .installed result) ∨
            job.generation = d.surfaces.generation))) := by
  have hop : ∀ {e : RemoteDesk}, Finishes job.generation d e → job.work ≠ .install →
      (d.Linked → e.Linked) ∧
        ((e.surfaces.operationInFlight = d.surfaces.operationInFlight ∧
            e.surfaces.generation = d.surfaces.generation ∧ e.jobs = d.jobs ∧
            ¬job.Holds d.surfaces.generation) ∨
          (e.surfaces.operationInFlight = false ∧
            (job.work = .install ∧ (∃ result, outcome = .installed result) ∨
              job.generation = d.surfaces.generation))) := by
    intro e hf hwork
    refine ⟨hf.linked, ?_⟩
    by_cases hg : job.generation = d.surfaces.generation
    · exact .inr ⟨hf.done hg, .inr hg⟩
    · obtain rfl := hf.stale hg
      exact .inl ⟨rfl, rfl, rfl, fun hh => hh.elim hwork fun hh => hg hh.2⟩
  unfold complete at h
  cases outcome with
  | connected result =>
    cases hw : job.work with
    | connect attempt =>
      rw [hw] at h
      cases h
      obtain ⟨hflag, hgen, hjobs, hlinked⟩ := d.connected_spec job.generation attempt result
      refine ⟨hlinked, .inl ⟨hflag, hgen, hjobs, ?_⟩⟩
      rintro (hi | ⟨hf, -⟩)
      · rw [hw] at hi
        cases hi
      · rw [hw] at hf
        cases hf
    | listFiles | read | save | search | git | task | language | install =>
      rw [hw] at h
      cases h
  | files result =>
    dsimp only at h
    split at h
    · rename_i hw
      cases h
      exact hop (d.finishFiles_finishes _ _) (by simp [hw])
    · cases h
  | document result =>
    dsimp only at h
    split at h
    · rename_i hw
      cases h
      exact hop (d.finishDocument_finishes _ _) (by simp [hw])
    · cases h
  | saved result =>
    dsimp only at h
    split at h
    · rename_i hw
      cases h
      exact hop (d.finishSave_finishes _ _) (by simp [hw])
    · cases h
  | found result =>
    dsimp only at h
    split at h
    · rename_i hw
      cases h
      exact hop (d.finishSearch_finishes _ _) (by simp [hw])
    · cases h
  | git result =>
    dsimp only at h
    split at h
    · rename_i hw
      cases h
      exact hop (d.finishGit_finishes _ _) (by simp [hw])
    · cases h
  | task result =>
    dsimp only at h
    split at h
    · rename_i hw
      cases h
      exact hop (d.finishTask_finishes _ _) (by simp [hw])
    · cases h
  | language result =>
    dsimp only at h
    split at h
    · rename_i hw
      cases h
      exact hop (d.finishLanguage_finishes _ _) (by simp [hw])
    · cases h
  | installed result =>
    dsimp only at h
    split at h
    · rename_i hw
      cases h
      cases result with
      | ok _ => exact ⟨fun _ => nofun, .inr ⟨rfl, .inl ⟨hw, _, rfl⟩⟩⟩
      | error error => exact ⟨id, .inr ⟨rfl, .inl ⟨hw, _, rfl⟩⟩⟩
    · cases h

/-! ## Steps -/

theorem complete_installed {job : RemoteJob} {result : Except String Unit}
    (h : d.complete job (.installed result) = some d') : job.work = .install := by
  unfold complete at h
  dsimp only at h
  split at h
  · assumption
  · cases h

theorem step_deliver {index : Nat} {outcome : RemoteOutcome}
    (h : d.step json (.deliver index outcome) = some d') : ∃ job, d.jobs[index]? = some job ∧
      complete { d with jobs := d.jobs.eraseIdx index } job outcome = some d' :=
  Option.bind_eq_some_iff.mp h

theorem step_deliver_eq (json : ArgumentsJson) {index : Nat} {job : RemoteJob}
    (outcome : RemoteOutcome)
    (hjob : d.jobs[index]? = some job) : d.step json (.deliver index outcome) =
      complete { d with jobs := d.jobs.eraseIdx index } job outcome := by
  show d.jobs[index]?.bind _ = _
  rw [hjob]
  rfl

/-- An attempt leaves the flag, and with it the generation that a job must have to hold it. -/
theorem held_connect_iff (checked : Except String String) (hd : d.FlagHeld) :
    (d.connect checked).FlagHeld ↔ d.Orderly (.connectRemote checked) := by
  cases checked with
  | error error => exact ⟨fun _ => trivial, fun _ => hd⟩
  | ok fresh =>
    have hattempt : ∀ attempt, ¬RemoteJob.Holds d.surfaces.nextGeneration
        ⟨d.surfaces.nextGeneration, .connect attempt⟩ := by
      rintro attempt (h | ⟨h, -⟩)
      · cases h
      · cases h
    refine imp_congr_right fun _ => ⟨fun ⟨job, hmem, hholds⟩ => ?_, fun ⟨job, hmem, hholds⟩ => ?_⟩
    · rcases List.mem_append.mp hmem with hmem | hmem
      · exact ⟨job, hmem, hholds⟩
      · obtain rfl := List.mem_singleton.mp hmem
        exact absurd hholds (hattempt _)
    · exact ⟨job, List.mem_append_left _ hmem, hholds⟩

/-- A completion leaves the flag held, and keeps it for newer jobs in the orderly case. -/
theorem steady_deliver_iff (index : Nat) (outcome : RemoteOutcome) (hd : d.FlagHeld) :
    d.Steady json (.deliver index outcome) ↔ d.Orderly (.deliver index outcome) := by
  cases hs : d.step json (.deliver index outcome) with
  | none =>
    refine ⟨fun _ => ?_, fun _ => ⟨fun d' h => ?_, fun job hjob _ _ _ d' h => ?_⟩⟩
    · cases outcome with
      | installed result =>
        intro job hjob hwork
        rw [step_deliver_eq json _ hjob] at hs
        simp [complete, hwork] at hs
      | _ => trivial
    · cases hs.symm.trans h
    · cases hs.symm.trans h
  | some d' =>
    obtain ⟨job, hjob, hcomplete⟩ := step_deliver hs
    have hkeeps : d.KeepsFlag json (.deliver index outcome) ↔
        (job.generation ≠ d.surfaces.generation → d.surfaces.operationInFlight = true →
          (∃ newer ∈ d.jobs.eraseIdx index, newer.BegunFor d.surfaces.generation) →
          d'.surfaces.operationInFlight = true) := by
      simp only [KeepsFlag, hjob, hs, Option.mem_def, Option.some.injEq, forall_eq']
    have hsteady : d.Steady json (.deliver index outcome) ↔
        d'.FlagHeld ∧ d.KeepsFlag json (.deliver index outcome) := by
      unfold Steady
      rw [hs]
      simp
    rw [hsteady, hkeeps]
    rcases (complete_cases hcomplete).2 with ⟨hflag, hgen, hjobs, hno⟩ | ⟨hflag, hwhy⟩
    · -- The job did not hold the flag: the flag is as before, and another job holds it.
      have hheld : d'.FlagHeld := by
        have he := held_erase hd hjob hno
        intro hf
        rw [hjobs, hgen]
        exact he (hflag ▸ hf)
      refine ⟨fun _ => ?_, fun _ => ⟨hheld, fun _ hf _ => hflag.trans hf⟩⟩
      cases outcome with
      | installed result => exact absurd (.inl (complete_installed hcomplete)) hno
      | _ => trivial
    · -- The flag is cleared, so no job of the generation may be left under it.
      have hheld : d'.FlagHeld := fun hf => by rw [hflag] at hf; cases hf
      rw [hflag]
      constructor
      · rintro ⟨-, hkeep⟩
        cases outcome with
        | installed result =>
          intro job' hjob' hwork hne hf hnewer
          obtain rfl := Option.some.inj (hjob.symm.trans hjob')
          exact absurd (hkeep hne hf hnewer) Bool.false_ne_true
        | _ => trivial
      · intro horderly
        refine ⟨hheld, fun hne hf hnewer => ?_⟩
        rcases hwhy with ⟨hwork, result, rfl⟩ | hgen
        · exact absurd hnewer (horderly job hjob hwork hne hf)
        · exact absurd hgen hne

/-- A message whose state holds the flag is steady, and orderly where nothing else is asked. -/
theorem steady_iff (hs : d.step json message = some d') (hkeep : d.KeepsFlag json message)
    (h : d'.FlagHeld ↔ d.Orderly message) : d.Steady json message ↔ d.Orderly message := by
  rw [← h]
  refine ⟨fun hst => hst.1 d' hs, fun hd' => ⟨fun e he => ?_, hkeep⟩⟩
  obtain rfl := Option.some.inj (hs.symm.trans he)
  exact hd'

theorem steady_of_idle (hs : d.step json message = some d') (hkeep : d.KeepsFlag json message)
    (ho : d.Orderly message) (hidle : Idle d d') (hd : d.FlagHeld) :
    d.Steady json message ↔ d.Orderly message :=
  steady_iff hs hkeep ⟨fun _ => ho, fun _ => hidle.held hd⟩

/-- An operation that its capability lets through. -/
theorem held_withCapability (capability : RemoteCapability) (f : RemoteDesk → RemoteDesk)
    (hd : d.FlagHeld) (h : (f d).FlagHeld) : (d.withCapability capability f).FlagHeld := by
  rcases d.withCapability_cases capability f with he | he
  · rwa [he]
  · rwa [he]

theorem linked_withCapability (capability : RemoteCapability) (f : RemoteDesk → RemoteDesk)
    (hl : d.Linked) (h : (f d).Linked) : (d.withCapability capability f).Linked := by
  rcases d.withCapability_cases capability f with he | he
  · rwa [he]
  · rwa [he]

theorem held_confirmHelperInstall (hd : d.FlagHeld) (checked : Except String Unit) :
    (d.confirmHelperInstall checked).FlagHeld := by
  cases checked with
  | error error => exact hd
  | ok _ => exact held_push { d with surfaces := d.surfaces.beginInstall (.ok ()) } .install rfl

theorem linked_confirmHelperInstall (hl : d.Linked) (checked : Except String Unit) :
    (d.confirmHelperInstall checked).Linked := by
  cases checked with
  | error error => exact hl
  | ok _ => exact hl

theorem linked_connect (hl : d.Linked) (checked : Except String String) :
    (d.connect checked).Linked := by
  cases checked with
  | error error => exact hl
  | ok fresh => exact nofun

theorem steady_iff_orderly (message : DeskMessage) (hd : d.FlagHeld) (hl : d.Linked) :
    d.Steady json message ↔ d.Orderly message := by
  cases message with
  | aliasChanged value => exact steady_of_idle rfl trivial trivial ⟨rfl, rfl, rfl, rfl, rfl⟩ hd
  | rootChanged value => exact steady_of_idle rfl trivial trivial ⟨rfl, rfl, rfl, rfl, rfl⟩ hd
  | connectRemote checked => exact steady_iff rfl trivial (held_connect_iff checked hd)
  | refreshFiles =>
    exact steady_iff rfl trivial ⟨fun _ => trivial, fun _ => held_refreshFiles hd hl⟩
  | openDocument path =>
    exact steady_iff rfl trivial ⟨fun _ => trivial, fun _ => held_begins hd hl rfl⟩
  | documentAction action =>
    exact steady_of_idle rfl trivial trivial (d.idle_editDocument action) hd
  | saveDocument => exact steady_iff rfl trivial (held_save_iff hd hl)
  | disconnectRemote => exact steady_iff rfl trivial ⟨fun _ => trivial, fun _ => nofun⟩
  | confirmHelperInstall checked =>
    exact steady_iff rfl trivial ⟨fun _ => trivial, fun _ => held_confirmHelperInstall hd checked⟩
  | recordsLoaded result =>
    cases result with
    | ok records => exact steady_of_idle rfl trivial trivial (d.idle_restoreRecords records) hd
    | error error => exact steady_of_idle rfl trivial trivial (d.idle_fail error) hd
  | selectRecord index => exact steady_of_idle rfl trivial trivial (d.idle_selectRecord index) hd
  | forgetRecord connectionId =>
    exact steady_of_idle rfl trivial trivial ⟨rfl, rfl, rfl, rfl, rfl⟩ hd
  | selectSessionProvider fresh provider =>
    exact steady_of_idle rfl trivial trivial (d.idle_rememberSessionProvider fresh provider) hd
  | runSearch =>
    have h := held_withCapability .search (·.begins (some .search)) hd (held_begins hd hl rfl)
    exact steady_iff rfl trivial ⟨fun _ => trivial, fun _ => h⟩
  | refreshGit =>
    have h := held_withCapability .git (·.begins (some .git)) hd (held_begins hd hl rfl)
    exact steady_iff rfl trivial ⟨fun _ => trivial, fun _ => h⟩
  | taskExecutableChanged value =>
    exact steady_of_idle rfl trivial trivial ⟨rfl, rfl, rfl, rfl, rfl⟩ hd
  | taskArgumentsChanged value =>
    exact steady_of_idle rfl trivial trivial ⟨rfl, rfl, rfl, rfl, rfl⟩ hd
  | reviewTask =>
    have h := held_withCapability .processes (reviewTask json) hd ((idle_reviewTask d).held hd)
    exact steady_iff rfl trivial ⟨fun _ => trivial, fun _ => h⟩
  | confirmTask =>
    have h := held_withCapability .processes (confirmTask json) hd (held_confirmTask hd hl)
    exact steady_iff rfl trivial ⟨fun _ => trivial, fun _ => h⟩
  | cancelTask => exact steady_of_idle rfl trivial trivial (d.idle_setConsent none) hd
  | verifyLanguage checked =>
    have h := held_withCapability .language (·.verifyLanguage checked) hd
      (held_verifyLanguage hd hl checked)
    exact steady_iff rfl trivial ⟨fun _ => trivial, fun _ => h⟩
  | deliver index outcome => exact steady_deliver_iff index outcome hd

/-- A ready connection keeps its runtime. -/
theorem linked_step (h : d.step json message = some d') (hl : d.Linked) : d'.Linked := by
  cases message with
  | deliver index outcome =>
    obtain ⟨job, -, hcomplete⟩ := step_deliver h
    exact (complete_cases hcomplete).1 hl
  | recordsLoaded result =>
    cases result with
    | ok records => cases h; exact (d.idle_restoreRecords records).linked hl
    | error error => cases h; exact (d.idle_fail error).linked hl
  | aliasChanged | rootChanged | forgetRecord | taskExecutableChanged | taskArgumentsChanged =>
    cases h
    exact hl
  | connectRemote checked => cases h; exact linked_connect hl checked
  | refreshFiles => cases h; exact linked_refreshFiles hl
  | openDocument path => cases h; exact linked_begins hl _
  | documentAction action => cases h; exact (d.idle_editDocument action).linked hl
  | saveDocument => cases h; exact linked_begins hl _
  | disconnectRemote => cases h; exact nofun
  | confirmHelperInstall checked => cases h; exact linked_confirmHelperInstall hl checked
  | selectRecord index => cases h; exact (d.idle_selectRecord index).linked hl
  | selectSessionProvider fresh provider =>
    cases h
    exact (d.idle_rememberSessionProvider fresh provider).linked hl
  | runSearch => cases h; exact linked_withCapability _ _ hl (linked_begins hl _)
  | refreshGit => cases h; exact linked_withCapability _ _ hl (linked_begins hl _)
  | reviewTask => cases h; exact linked_withCapability _ _ hl ((idle_reviewTask d).linked hl)
  | confirmTask => cases h; exact linked_withCapability _ _ hl (linked_confirmTask hl)
  | cancelTask => cases h; exact (d.idle_setConsent none).linked hl
  | verifyLanguage checked =>
    cases h
    exact linked_withCapability _ _ hl (linked_verifyLanguage hl checked)

/-! ## Runs -/

/-- In a run of the app the flag is always held, and kept for newer operations, exactly where every
message is orderly. -/
theorem operation_law (json : ArgumentsJson) (messages : List DeskMessage)
    (records : List RemoteConnectionRecord) (store : Bool) :
    Along (step json) (Steady json) messages (start records store) ↔
      Along (step json) Orderly messages (start records store) := by
  have h₀ : (start records store).FlagHeld ∧ (start records store).Linked := ⟨nofun, nofun⟩
  refine along_iff (I := fun d => d.FlagHeld ∧ d.Linked) h₀
    (fun d message h => steady_iff_orderly message h.1 h.2) ?_
  intro d message d' h hst hs
  exact ⟨hst.1 d' hs, linked_step hs h.2⟩

/-- A save right after the connection was made sets the flag, and no job is under way. -/
theorem save_without_document :
    ¬Along (step ⟨fun _ => none, fun _ => ""⟩) (Steady ⟨fun _ => none, fun _ => ""⟩)
      [.aliasChanged "host", .rootChanged "/srv",
        .connectRemote (.ok "0123456789abcdef0123456789abcdef"),
        .deliver 0 (.connected (.ok ("/srv", []))), .refreshFiles,
        .deliver 0 (.files (.ok [])), .saveDocument] (start [] true) := by
  decide

end RemoteDesk
end Strukt.App
