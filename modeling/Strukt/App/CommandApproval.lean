import Strukt.App.Discoveries
import Strukt.Lib.Log

/-!
# Starting the commands of a workspace

A descriptor of the workspace may name any command, so its server is started only with an approval.
A discovery runs in the background with the approvals of the moment it was asked for; its result
comes back as a message, after anything else that happened.

* **Tasks** (`DiscoveryTask`): the discoveries under way, also those of an earlier opening of the
  workspace, in which the generations began at 0 too.
* **The log** (`ApprovalEvent`) has what the user approved and denied, and what was started.
* **The law** (`approval_law`): what is started was approved and not denied since, in runs in which
  no result is taken for that of a later discovery, and approvals are restored as they were given.
* **Left over** (`stale_start`): a result of an earlier opening is taken, after a denial.
-/

namespace Strukt.App

open Strukt.Language

inductive ApprovalStatus where
  | unreviewed
  | approved (record : CommandApproval)
  | denied
  deriving DecidableEq

inductive DiscoveryOutcome where
  | available (server : DiscoveredServer)
  | approvalRequired (server : DiscoveredServer)
  | unavailable
  | disabled
  deriving DecidableEq

/-- What a discovery finds on disk, when it runs: no descriptor or executable, a descriptor that is
not enabled, or the source of a descriptor and its command. -/
inductive Resolution where
  | failed
  | unavailable
  | disabled
  | resolved (source : DescriptorSource) (command : ResolvedCommand)
  deriving DecidableEq

/-- `LanguageDiscoveryCompletion`, or the error of the discovery. -/
abbrev LanguageDiscoveryCompletion := Option DiscoveryOutcome

structure DiscoveryTask where
  workspaceId : String
  languageId : String
  generation : UInt64
  approvals : List ApprovalSnapshot
  deriving DecidableEq

def ApprovalSnapshot.matches (hash : List UInt8 → BitVec 256) (approval : ApprovalSnapshot)
    (command : ResolvedCommand) : Bool :=
  approval.commandFingerprint = command.fingerprint hash

section Discovery

variable (hash : List UInt8 → BitVec 256)

def discover (resolution : Resolution) (workspaceId : String) (approval : ApprovalStatus) :
    Option DiscoveryOutcome :=
  if approval = .denied then some .disabled
  else
    match resolution with
    | .failed => none
    | .unavailable => some .unavailable
    | .disabled => some .disabled
    | .resolved source command =>
      let server := DiscoveredServer.new hash source command
      if source ≠ .workspace then some (.available server)
      else
        match approval with
        | .approved record =>
          if record.authorizes hash workspaceId command then some (.available server)
          else some (.approvalRequired server)
        | .unreviewed => some (.approvalRequired server)
        | .denied => some .disabled

def discoverWorkspaceLanguage (resolution : Resolution) (task : DiscoveryTask) :
    LanguageDiscoveryCompletion :=
  match discover hash resolution task.workspaceId .unreviewed with
  | some (.approvalRequired server) =>
    if task.approvals.any fun approval =>
        approval.languageId = task.languageId && approval.matches hash server.command then
      some (.available server)
    else some (.approvalRequired server)
  | completion => completion

end Discovery

/-- What the message tells the coordinator. -/
def resultOf : LanguageDiscoveryCompletion → DiscoveryResult
  | some (.available _) => .available
  | some (.approvalRequired server) => .approvalRequired server
  | some .unavailable => .unavailable
  | some .disabled => .disabled
  | none => .error

/-! ## The app -/

inductive ApprovalEvent where
  | approved (workspaceId languageId : String) (command : ResolvedCommand)
  | denied (workspaceId languageId : String)
  | started (workspaceId languageId : String) (server : DiscoveredServer)
  deriving DecidableEq

structure ApprovalDesk where
  language : LanguageCoordinator
  inFlight : List DiscoveryTask
  log : List ApprovalEvent
  deriving DecidableEq

inductive ApprovalOp where
  /-- `Message::WorkspaceOpened`, with what is persisted of the workspace. -/
  | opened (workspaceId : String) (restored : RestoredLanguageSession)
  /-- `Message::LanguageDiscovered`: one of the discoveries under way is complete. -/
  | completed (index : Nat) (resolution : Resolution)
  | run (op : CoordinatorOp)

namespace ApprovalDesk

/-- A workspace that was never opened before. -/
def first (workspaceId : String) : ApprovalDesk :=
  ⟨.restore workspaceId ⟨[], [], false⟩, [], []⟩

/-- `language_effects_task`: the discoveries run with the approvals of now. -/
def tasksOf (language : LanguageCoordinator) (effects : List LanguageEffect) :
    List DiscoveryTask :=
  (effects.filterMap LanguageEffect.discovery).map fun e =>
    ⟨e.1, e.2.1, e.2.2, language.approvals⟩

/-- The server that a discovery's result starts, where the coordinator waits for it. -/
def startedBy (language : LanguageCoordinator) (task : DiscoveryTask) :
    LanguageDiscoveryCompletion → List ApprovalEvent
  | some (.available server) =>
    if (language.discovering task.workspaceId task.languageId task.generation).isSome then
      [.started task.workspaceId task.languageId server]
    else []
  | _ => []

def completed (hash : List UInt8 → BitVec 256) (d : ApprovalDesk) (index : Nat)
    (task : DiscoveryTask) (resolution : Resolution) : ApprovalDesk :=
  let completion := discoverWorkspaceLanguage hash resolution task
  { language := d.language.discovered task.workspaceId task.languageId task.generation
      (resultOf completion)
    inFlight := d.inFlight.eraseIdx index
    log := d.log ++ startedBy d.language task completion }

def approved (d : ApprovalDesk) (languageId : String) : ApprovalDesk :=
  let (language, granted) := d.language.approve languageId
  match granted with
  | none => { d with language }
  | some (_, server) =>
    { d with
      language
      log := d.log ++ [.approved d.language.workspaceId languageId server.command,
        .started d.language.workspaceId languageId server] }

def denied (d : ApprovalDesk) (languageId : String) : ApprovalDesk :=
  { d with
    language := d.language.deny languageId
    log := d.log ++
      if ((d.language.servers.get? languageId).filter (·.state = .approvalRequired)).isSome then
        [.denied d.language.workspaceId languageId]
      else [] }

def step (env : LanguageEnv) (hash : List UInt8 → BitVec 256) (d : ApprovalDesk) :
    ApprovalOp → Option ApprovalDesk
  | .opened workspaceId restored => some { d with language := .restore workspaceId restored }
  | .completed index resolution =>
    d.inFlight[index]?.map fun task => d.completed hash index task resolution
  | .run (.approve languageId) => some (d.approved languageId)
  | .run (.deny languageId) => some (d.denied languageId)
  | .run (.discovered ..) => none
  | .run op =>
    let r := op.run env d.language
    some { d with language := r.1, inFlight := d.inFlight ++ tasksOf r.1 r.2 }

/-! ## Approvals that stand -/

/-- The approval is of a command that the user approved, and did not deny since. -/
def Standing (hash : List UInt8 → BitVec 256) (met : ResolvedCommand → Prop)
    (log : List ApprovalEvent) (workspaceId : String) (approval : ApprovalSnapshot) : Prop :=
  ∃ command, met command ∧ approval.commandFingerprint = command.fingerprint hash ∧
    Since (· = .approved workspaceId approval.languageId command)
      (· ≠ .denied workspaceId approval.languageId) log

/-- A server of a workspace's descriptor is started as it was approved, and not denied since. -/
def Allowed (log : List ApprovalEvent) : ApprovalEvent → Prop
  | .started workspaceId languageId server => server.source = .workspace →
    Since (· = .approved workspaceId languageId server.command)
      (· ≠ .denied workspaceId languageId) log
  | _ => True

/-- Restored approvals stand. A result that the coordinator waits for is that of its own last
discovery for the language. The commands are among those that are met. -/
def Sound (hash : List UInt8 → BitVec 256) (met : ResolvedCommand → Prop) (d : ApprovalDesk) :
    ApprovalOp → Prop
  | .opened workspaceId restored =>
    ∀ approval ∈ restored.approvals, Standing hash met d.log workspaceId approval
  | .completed index resolution =>
    (∀ source command, resolution = .resolved source command → met command) ∧
      ∀ task, d.inFlight[index]? = some task →
        (d.language.discovering task.workspaceId task.languageId task.generation).isSome →
          ∀ later ∈ d.inFlight.drop (index + 1), later.languageId ≠ task.languageId
  | .run _ => True

/-- The discovery for the language that was asked for last. -/
structure Last (d : ApprovalDesk) (l : String) (front : List DiscoveryTask) (task : DiscoveryTask)
    (back : List DiscoveryTask) : Prop where
  inFlight : d.inFlight = front ++ task :: back
  workspaceId : task.workspaceId = d.language.workspaceId
  languageId : task.languageId = l
  generation : task.generation = (d.language.serverOrNew l).generation
  later : ∀ later ∈ back, later.languageId ≠ l
  approvals : ∀ a ∈ task.approvals, a.languageId = l → a ∈ d.language.approvals

structure Guarded (hash : List UInt8 → BitVec 256) (met : ResolvedCommand → Prop)
    (d : ApprovalDesk) : Prop where
  standing : ∀ a ∈ d.language.approvals, Standing hash met d.log d.language.workspaceId a
  pending : ∀ l found, (d.language.serverOrNew l).pendingApproval = some found →
    found.fingerprint = found.command.fingerprint hash ∧ met found.command
  last : ∀ l, (d.language.serverOrNew l).state = .discovering →
    ∃ front task back, d.Last l front task back
  log : Each Allowed d.log

variable {env : LanguageEnv} {hash : List UInt8 → BitVec 256} {met : ResolvedCommand → Prop}
  {d d' : ApprovalDesk} {l : String}

/-! ## What a step keeps -/

theorem Standing.append {log log' : List ApprovalEvent} {workspaceId : String}
    {a : ApprovalSnapshot} (h : Standing hash met log workspaceId a)
    (hlog : ∀ e ∈ log', e ≠ .denied workspaceId a.languageId) :
    Standing hash met (log ++ log') workspaceId a := by
  obtain ⟨command, hmet, hprint, hsince⟩ := h
  exact ⟨command, hmet, hprint, hsince.append hlog⟩

theorem guarded_first (workspaceId : String) : (first workspaceId).Guarded hash met := by
  refine ⟨nofun, fun l found h => ?_, fun l h => ?_, each_nil⟩
  · cases h
  · cases h

theorem Guarded.opened (h : d.Guarded hash met) {workspaceId : String}
    {restored : RestoredLanguageSession}
    (hstanding : ∀ a ∈ restored.approvals, Standing hash met d.log workspaceId a) :
    Guarded hash met { d with language := .restore workspaceId restored } := by
  refine ⟨hstanding, fun l found hf => ?_, fun l hl => ?_, h.log⟩
  · cases hf
  · cases hl

variable {task : DiscoveryTask}

/-- The last discovery for a language stays that, if the language has no later task. -/
theorem Last.append {front back : List DiscoveryTask}
    (h : d.Last l front task back) {language : LanguageCoordinator} {tasks : List DiscoveryTask}
    (hworkspace : language.workspaceId = d.language.workspaceId)
    (hgeneration : (language.serverOrNew l).generation = (d.language.serverOrNew l).generation)
    (happrovals : language.approvals = d.language.approvals)
    (htasks : ∀ later ∈ tasks, later.languageId ≠ l) :
    Last { d with language, inFlight := d.inFlight ++ tasks } l front task (back ++ tasks) := by
  refine ⟨?_, h.workspaceId.trans hworkspace.symm, h.languageId,
    h.generation.trans hgeneration.symm, fun later hmem => ?_, fun a ha hl => ?_⟩
  · rw [h.inFlight, List.append_assoc, List.cons_append]
  · obtain hmem | hmem := List.mem_append.mp hmem
    · exact h.later later hmem
    · exact htasks later hmem
  · rw [happrovals]
    exact h.approvals a ha hl

theorem Guarded.announced (h : d.Guarded hash met)
    {r : LanguageCoordinator × List LanguageEffect} (hr : d.language.Announced r) :
    Guarded hash met { d with language := r.1, inFlight := d.inFlight ++ tasksOf r.1 r.2 } := by
  refine ⟨fun a ha => ?_, fun l found hf => h.pending l found (hr.pending l found hf),
    fun l hl => ?_, h.log⟩
  · dsimp only at ha ⊢
    rw [hr.approvals] at ha
    rw [hr.workspaceId]
    exact h.standing a ha
  · dsimp only at hl
    obtain ⟨hnone, hcalm⟩ | ⟨k, hone, hcalm⟩ := hr.discovering
    · obtain ⟨hd, hgeneration⟩ := hcalm l hl
      obtain ⟨front, task, back, hlast⟩ := h.last l hd
      refine ⟨front, task, _, hlast.append hr.workspaceId hgeneration hr.approvals ?_⟩
      unfold tasksOf
      rw [hnone]
      nofun
    · have htasks : tasksOf r.1 r.2 =
          [⟨d.language.workspaceId, k, (r.1.serverOrNew k).generation, r.1.approvals⟩] := by
        unfold tasksOf
        rw [hone]
        rfl
      by_cases hk : l = k
      · subst hk
        exact ⟨d.inFlight, _, [], congrArg (d.inFlight ++ ·) htasks, hr.workspaceId.symm, rfl, rfl,
          nofun, fun a ha _ => ha⟩
      · obtain ⟨hd, hgeneration⟩ := hcalm l hk hl
        obtain ⟨front, task, back, hlast⟩ := h.last l hd
        refine ⟨front, task, _, hlast.append hr.workspaceId hgeneration hr.approvals ?_⟩
        rw [htasks]
        intro later hmem
        rw [List.mem_singleton.mp hmem]
        exact Ne.symm hk

/-- An answer of the user for one language, which is not discovered then. -/
theorem Guarded.answered (h : d.Guarded hash met) {language : LanguageCoordinator}
    {server : ServerBinding} {events : List ApprovalEvent}
    (hservers : language.servers = d.language.servers.insert l server)
    (hworkspace : language.workspaceId = d.language.workspaceId)
    (hkept : ∀ a ∈ d.language.approvals, a.languageId ≠ l → a ∈ language.approvals)
    (hstate : server.state ≠ .discovering) (hpending : server.pendingApproval = none)
    (hstanding : ∀ a ∈ language.approvals,
      Standing hash met (d.log ++ events) language.workspaceId a)
    (hlog : Each (fun pre e => Allowed (d.log ++ pre) e) events) :
    Guarded hash met ⟨language, d.inFlight, d.log ++ events⟩ := by
  refine ⟨hstanding, fun k found hf => ?_, fun k hk => ?_, h.log.append hlog⟩
  · dsimp only at hf
    rw [LanguageCoordinator.serverOrNew_of_insert hservers] at hf
    split at hf
    · rw [hpending] at hf
      cases hf
    · exact h.pending k found hf
  · dsimp only at hk
    rw [LanguageCoordinator.serverOrNew_of_insert hservers] at hk
    split at hk
    · exact absurd hk hstate
    · next hne =>
      obtain ⟨front, task, back, hlast⟩ := h.last k hk
      refine ⟨front, task, back, hlast.inFlight, hlast.workspaceId.trans hworkspace.symm,
        hlast.languageId, ?_, hlast.later, fun a ha hl => ?_⟩
      · dsimp only
        rw [LanguageCoordinator.serverOrNew_of_insert hservers, if_neg hne]
        exact hlast.generation
      · exact hkept a (hlast.approvals a ha hl) (hl ▸ hne)

theorem since_granted (log : List ApprovalEvent) (workspaceId l : String)
    (command : ResolvedCommand) (server : DiscoveredServer) :
    Since (· = .approved workspaceId l command) (· ≠ .denied workspaceId l)
      (log ++ [.approved workspaceId l command, .started workspaceId l server]) := by
  have hgranted : Since (· = .approved workspaceId l command) (· ≠ .denied workspaceId l)
      (log ++ [.approved workspaceId l command]) := since_concat rfl
  have hlog : log ++ [.approved workspaceId l command, .started workspaceId l server] =
      log ++ [.approved workspaceId l command] ++ [.started workspaceId l server] := by
    rw [List.append_assoc, List.singleton_append]
  rw [hlog]
  refine hgranted.append fun e he => ?_
  obtain rfl := List.mem_singleton.mp he
  nofun

theorem allowed_granted (log : List ApprovalEvent) (workspaceId l : String)
    (server : DiscoveredServer) :
    Each (fun pre e => Allowed (log ++ pre) e)
      [.approved workspaceId l server.command, .started workspaceId l server] := by
  have hone : Each (fun pre e => Allowed (log ++ pre) e)
      ([] ++ [.approved workspaceId l server.command]) := each_concat.mpr ⟨each_nil, trivial⟩
  have hstarted : Allowed (log ++ [.approved workspaceId l server.command])
      (.started workspaceId l server) := fun _ => since_concat rfl
  exact each_concat.mpr ⟨hone, hstarted⟩

theorem Guarded.approved (h : d.Guarded hash met) (l : String) : (d.approved l).Guarded hash met := by
  have hsame : Guarded hash met { d with language := d.language } := h
  unfold ApprovalDesk.approved LanguageCoordinator.approve
  cases hf : (d.language.servers.get? l).filter (·.state = .approvalRequired) with
  | none => exact hsame
  | some server =>
    obtain ⟨hg, hp⟩ := LanguageCoordinator.get?_filter_eq_some.mp hf
    have hstate := of_decide_eq_true hp
    dsimp only
    cases hfound : server.pendingApproval with
    | none => exact hsame
    | some found =>
      obtain ⟨hprint, hmet⟩ := h.pending l found (by
        rw [LanguageCoordinator.serverOrNew_of_get? hg]
        exact hfound)
      dsimp only
      cases hsnapshot : ApprovalSnapshot.new l found.fingerprint with
      | none =>
        let quiet := { server with pendingApproval := none }
        have hquiet : Guarded hash met ⟨d.language.setServer l quiet, d.inFlight, d.log ++ []⟩ :=
          h.answered rfl rfl (fun _ ha _ => ha) (by rw [hstate]; nofun) rfl
            (by rw [List.append_nil]; exact h.standing) each_nil
        rwa [List.append_nil] at hquiet
      | some approval =>
        have happroval : approval = ⟨l, found.fingerprint⟩ := by
          unfold ApprovalSnapshot.new at hsnapshot
          split at hsnapshot
          · exact (Option.some.inj hsnapshot).symm
          · cases hsnapshot
        subst happroval
        refine h.answered (l := l) rfl rfl (fun a ha hne => ?_) nofun rfl (fun a ha => ?_) ?_
        · exact List.mem_append_left _ (List.mem_filter.mpr ⟨ha, decide_eq_true hne⟩)
        · obtain ha | ha := List.mem_append.mp ha
          · obtain ⟨ha, -⟩ := List.mem_filter.mp ha
            refine (h.standing a ha).append fun e he => ?_
            simp only [List.mem_cons, List.not_mem_nil, or_false] at he
            obtain rfl | rfl := he <;> nofun
          · obtain rfl := List.mem_singleton.mp ha
            exact ⟨found.command, hmet, hprint, since_granted _ _ _ _ _⟩
        · exact allowed_granted _ _ _ _

theorem Guarded.denied (h : d.Guarded hash met) (l : String) : (d.denied l).Guarded hash met := by
  unfold ApprovalDesk.denied LanguageCoordinator.deny
  cases hf : (d.language.servers.get? l).filter (·.state = .approvalRequired) with
  | none =>
    dsimp only
    rw [Option.isSome_none, if_neg Bool.false_ne_true, List.append_nil]
    exact h
  | some server =>
    dsimp only
    rw [Option.isSome_some, if_pos rfl]
    refine h.answered (l := l) rfl rfl (fun a ha hne => ?_) nofun rfl (fun a ha => ?_)
      (each_of_forall fun e he _ => ?_)
    · exact List.mem_filter.mpr ⟨ha, decide_eq_true hne⟩
    · obtain ⟨ha, hne⟩ := List.mem_filter.mp ha
      refine (h.standing a ha).append fun e he => ?_
      obtain rfl := List.mem_singleton.mp he
      intro heq
      exact of_decide_eq_true hne (ApprovalEvent.denied.inj heq).2.symm
    · obtain rfl := List.mem_singleton.mp he
      trivial

/-! ## Results of discoveries -/

/-- What a discovery makes of a command of the workspace. -/
theorem discoverWorkspaceLanguage_available {resolution : Resolution}
    {server : DiscoveredServer}
    (h : discoverWorkspaceLanguage hash resolution task = some (.available server)) :
    ∃ source command, resolution = .resolved source command ∧
      server = .new hash source command ∧ (source = .workspace →
        ∃ a ∈ task.approvals, a.languageId = task.languageId ∧
          a.commandFingerprint = command.fingerprint hash) := by
  unfold discoverWorkspaceLanguage discover at h
  rw [if_neg nofun] at h
  cases resolution with
  | failed | unavailable | disabled => cases h
  | resolved source command =>
    refine ⟨source, command, rfl, ?_⟩
    dsimp only at h
    by_cases hsource : source = .workspace
    · rw [if_neg (not_not.mpr hsource)] at h
      dsimp only at h
      split at h
      · next hany =>
        cases h
        refine ⟨rfl, fun _ => ?_⟩
        obtain ⟨a, ha, hmatch⟩ := List.any_eq_true.mp hany
        rw [Bool.and_eq_true, decide_eq_true_iff] at hmatch
        exact ⟨a, ha, hmatch.1, of_decide_eq_true hmatch.2⟩
      · cases h
    · rw [if_pos hsource] at h
      cases h
      exact ⟨rfl, fun hbad => absurd hbad hsource⟩

theorem discoverWorkspaceLanguage_required {resolution : Resolution}
    {server : DiscoveredServer}
    (h : discoverWorkspaceLanguage hash resolution task = some (.approvalRequired server)) :
    ∃ source command, resolution = .resolved source command ∧
      server = .new hash source command := by
  unfold discoverWorkspaceLanguage discover at h
  rw [if_neg nofun] at h
  cases resolution with
  | failed | unavailable | disabled => cases h
  | resolved source command =>
    refine ⟨source, command, rfl, ?_⟩
    dsimp only at h
    by_cases hsource : source = .workspace
    · rw [if_neg (not_not.mpr hsource)] at h
      dsimp only at h
      split at h
      · cases h
      · cases h
        rfl
    · rw [if_pos hsource] at h
      cases h

/-- The task that the coordinator waits for, where no later one is for its language. -/
theorem Last.unique {front back : List DiscoveryTask} {task task' : DiscoveryTask}
    (h : d.Last l front task back) {index : Nat} (hget : d.inFlight[index]? = some task')
    (hl : task'.languageId = l)
    (hlater : ∀ later ∈ d.inFlight.drop (index + 1), later.languageId ≠ task'.languageId) :
    index = front.length ∧ task' = task := by
  rw [h.inFlight] at hget hlater
  obtain hlt | rfl | hgt := Nat.lt_trichotomy index front.length
  · refine absurd h.languageId (hl ▸ hlater task ?_)
    rw [List.drop_append_of_le_length hlt]
    exact List.mem_append_right _ List.mem_cons_self
  · rw [List.getElem?_append_right (Nat.le_refl _), Nat.sub_self, List.getElem?_cons_zero] at hget
    exact ⟨rfl, (Option.some.inj hget).symm⟩
  · rw [List.getElem?_append_right (Nat.le_of_lt hgt)] at hget
    obtain ⟨k, hk⟩ := Nat.exists_eq_add_of_lt hgt
    have hsub : index - front.length = k + 1 := by omega
    rw [hsub, List.getElem?_cons_succ] at hget
    exact absurd hl (h.later task' (List.mem_of_getElem? hget))

/-- Another task than the last one is taken out. -/
theorem Last.eraseIdx {front back : List DiscoveryTask}
    (h : d.Last l front task back) {index : Nat} (hne : index ≠ front.length)
    {language : LanguageCoordinator} {log : List ApprovalEvent}
    (hworkspace : language.workspaceId = d.language.workspaceId)
    (hserver : language.serverOrNew l = d.language.serverOrNew l)
    (happrovals : language.approvals = d.language.approvals) :
    ∃ front' task' back', Last ⟨language, d.inFlight.eraseIdx index, log⟩ l front' task' back' := by
  have key : ∃ front' back', d.inFlight.eraseIdx index = front' ++ task :: back' ∧
      ∀ later ∈ back', later ∈ back := by
    rw [h.inFlight]
    obtain hlt | hgt := Nat.lt_or_gt_of_ne hne
    · exact ⟨front.eraseIdx index, back, List.eraseIdx_append_of_lt_length hlt _, fun _ hm => hm⟩
    · obtain ⟨k, hk⟩ := Nat.exists_eq_add_of_lt hgt
      have hsub : index - front.length = k + 1 := by omega
      refine ⟨front, back.eraseIdx k, ?_, fun _ hm => List.mem_of_mem_eraseIdx hm⟩
      rw [List.eraseIdx_append_of_length_le (Nat.le_of_lt hgt), hsub, List.eraseIdx_cons_succ]
  obtain ⟨front', back', hlist, hback⟩ := key
  exact ⟨front', task, back', hlist, h.workspaceId.trans hworkspace.symm, h.languageId,
    h.generation.trans (congrArg ServerBinding.generation hserver.symm),
    fun later hm => h.later later (hback later hm), fun a ha hl => happrovals ▸ h.approvals a ha hl⟩

/-- The last discovery for a language that is discovered is the one that is waited for. -/
theorem Last.discovering {front back : List DiscoveryTask}
    (h : d.Last l front task back) (hstate : (d.language.serverOrNew l).state = .discovering) :
    (d.language.discovering task.workspaceId task.languageId task.generation).isSome := by
  have hg : d.language.servers.get? l = some (d.language.serverOrNew l) := by
    cases hserver : d.language.servers.get? l with
    | none =>
      unfold LanguageCoordinator.serverOrNew at hstate
      rw [hserver] at hstate
      cases hstate
    | some server => rw [LanguageCoordinator.serverOrNew_of_get? hserver]
  unfold LanguageCoordinator.discovering
  rw [h.languageId, hg, h.workspaceId, h.generation, Option.filter_some]
  simp [hstate]

theorem Guarded.completed (h : d.Guarded hash met) (hhash : NoCollision hash met) {index : Nat}
    {resolution : Resolution} (hsound : d.Sound hash met (.completed index resolution))
    (hget : d.inFlight[index]? = some task) :
    (d.completed hash index task resolution).Guarded hash met := by
  obtain ⟨hcommands, hlater⟩ := hsound
  have hlater := hlater task hget
  unfold ApprovalDesk.completed
  dsimp only
  generalize hcompletion : discoverWorkspaceLanguage hash resolution task = completion
  cases hd : d.language.discovering task.workspaceId task.languageId task.generation with
  | none =>
    -- Nobody waits for the result, so it is not that of a last discovery.
    have hstarted : startedBy d.language task completion = [] := by
      unfold startedBy
      rw [hd]
      split <;> rfl
    rw [LanguageCoordinator.discovered_none hd, hstarted, List.append_nil]
    refine ⟨h.standing, h.pending, fun l hl => ?_, h.log⟩
    obtain ⟨front, task', back, hlast⟩ := h.last l hl
    refine hlast.eraseIdx (fun hindex => ?_) rfl rfl rfl
    rw [hlast.inFlight, hindex, List.getElem?_append_right (Nat.le_refl _), Nat.sub_self,
      List.getElem?_cons_zero] at hget
    have hsome := hlast.discovering hl
    rw [Option.some.inj hget, hd] at hsome
    cases hsome
  | some server =>
    rw [hd] at hlater
    obtain ⟨hg, -, hst⟩ := LanguageCoordinator.discovering_eq_some hd
    obtain ⟨front, task', back, hlast⟩ := h.last task.languageId (by
      rw [LanguageCoordinator.serverOrNew_of_get? hg]
      exact hst)
    obtain ⟨hindex, rfl⟩ := hlast.unique hget rfl (hlater rfl)
    obtain ⟨pendingApproval, hmoved, hfound⟩ :=
      LanguageCoordinator.discovered_some hd (resultOf completion)
    rw [hmoved]
    have hservers : (d.language.setServer task.languageId { server with
        state := LanguageCoordinator.DiscoveryResult.state (resultOf completion)
        pendingApproval }).servers = d.language.servers.insert task.languageId { server with
          state := LanguageCoordinator.DiscoveryResult.state (resultOf completion)
          pendingApproval } := rfl
    have hevents : startedBy d.language task completion = [] ∨ ∃ found,
        completion = some (.available found) ∧ startedBy d.language task completion =
          [.started task.workspaceId task.languageId found] := by
      unfold startedBy
      split
      · next found => exact .inr ⟨found, rfl, if_pos (by rw [hd]; rfl)⟩
      · exact .inl rfl
    refine ⟨fun a ha => ?_, fun k found hf => ?_, fun k hk => ?_, ?_⟩
    · refine (h.standing a ha).append fun e he => ?_
      obtain hnone | ⟨found, -, hone⟩ := hevents
      · rw [hnone] at he
        cases he
      · rw [hone] at he
        obtain rfl := List.mem_singleton.mp he
        nofun
    · rw [LanguageCoordinator.serverOrNew_of_insert hservers] at hf
      split at hf
      · obtain hold | hnew := hfound found hf
        · refine h.pending task.languageId found ?_
          rw [LanguageCoordinator.serverOrNew_of_get? hg]
          exact hold
        · have hrequired : completion = some (.approvalRequired found) := by
            unfold resultOf at hnew
            split at hnew <;> cases hnew
            rfl
          obtain ⟨source, command, hresolution, rfl⟩ :=
            discoverWorkspaceLanguage_required (hcompletion.trans hrequired)
          exact ⟨rfl, hcommands source command hresolution⟩
      · exact h.pending k found hf
    · rw [LanguageCoordinator.serverOrNew_of_insert hservers] at hk
      split at hk
      · exact absurd hk (LanguageCoordinator.DiscoveryResult.state_ne _)
      · next hne =>
        obtain ⟨front', task', back', hlast'⟩ := h.last k hk
        refine hlast'.eraseIdx (fun hindex' => hne ?_) rfl ?_ rfl
        · rw [hlast'.inFlight, hindex', List.getElem?_append_right (Nat.le_refl _), Nat.sub_self,
            List.getElem?_cons_zero] at hget
          rw [← hlast'.languageId, Option.some.inj hget]
        · rw [LanguageCoordinator.serverOrNew_of_insert hservers, if_neg hne]
    · obtain hnone | ⟨found, havailable, hone⟩ := hevents
      · rw [hnone, List.append_nil]
        exact h.log
      · rw [hone, each_concat]
        refine ⟨h.log, fun hsource => ?_⟩
        obtain ⟨source, command, hresolution, rfl, happroved⟩ :=
          discoverWorkspaceLanguage_available (hcompletion.trans havailable)
        obtain ⟨a, ha, hl, hprint⟩ := happroved hsource
        obtain ⟨command', hmet, hprint', hsince⟩ := h.standing a (hlast.approvals a ha hl)
        obtain rfl := ResolvedCommand.fingerprint_inj hhash (hcommands source command hresolution)
          hmet (hprint.symm.trans hprint')
        rw [hl, ← hlast.workspaceId] at hsince
        exact hsince

theorem Guarded.step (h : d.Guarded hash met) (hhash : NoCollision hash met) {op : ApprovalOp}
    (hsound : d.Sound hash met op) (hs : d.step env hash op = some d') : d'.Guarded hash met := by
  cases op with
  | opened workspaceId restored =>
    cases hs
    exact h.opened hsound
  | completed index resolution =>
    obtain ⟨task, hget, rfl⟩ := Option.map_eq_some_iff.mp hs
    exact h.completed hhash hsound hget
  | run op =>
    cases op with
    | approve l =>
      cases hs
      exact h.approved l
    | deny l =>
      cases hs
      exact h.denied l
    | discovered => cases hs
    | _ =>
      cases hs
      exact h.announced (CoordinatorOp.announced_run env d.language _ id)

end ApprovalDesk

/-- Commands with the same approval are the same, and in every run in which approvals are restored
as they were given and no result is taken for that of a later discovery, a server of a workspace's
descriptor is started only with the command that was approved for its language, and not denied
since. -/
theorem approval_law {env : LanguageEnv} {hash : List UInt8 → BitVec 256}
    {met : ResolvedCommand → Prop} (hhash : NoCollision hash met) :
    (∀ workspaceId c c', met c → met c' →
      (CommandApproval.grant hash workspaceId c = .grant hash workspaceId c' ↔ c = c')) ∧
    ∀ workspaceId d, Runs (ApprovalDesk.step env hash) (ApprovalDesk.Sound hash met)
        (.first workspaceId) d → Each ApprovalDesk.Allowed d.log := by
  refine ⟨fun workspaceId c c' hc hc' => ⟨fun heq => ?_, fun heq => heq ▸ rfl⟩,
    fun workspaceId d hruns => ?_⟩
  · exact ResolvedCommand.fingerprint_inj hhash hc hc' (CommandApproval.mk.inj heq).2
  · have hguarded := hruns.invariant (I := ApprovalDesk.Guarded hash met)
      (ApprovalDesk.guarded_first workspaceId) fun _ _ _ hI hc hs => hI.step hhash hc hs
    exact hguarded.log

/-! ## Runs -/

/-- Every document is in Rust, for which there is a descriptor. -/
def rustEnv : LanguageEnv := ⟨fun _ => "rust", fun _ => some "r"⟩

/-- The bytes as the digits of a number. -/
def digitsHash (bytes : List UInt8) : BitVec 256 :=
  BitVec.ofNat 256 (bytes.foldl (fun n b => 256 * n + b.toNat) 0)

/-- A command is found, approved and started. -/
theorem approval_law_approved : ∃ (met : ResolvedCommand → Prop) (d : ApprovalDesk),
    Runs (ApprovalDesk.step rustEnv digitsHash) (ApprovalDesk.Sound digitsHash met) (.first "w") d ∧
      d.log.length = 2 ∧ Each ApprovalDesk.Allowed d.log := by
  let a : ResolvedCommand := ⟨⟨[47, 97]⟩, [], rfl, by decide, by decide⟩
  let open₁ : ApprovalOp := .run (.openDocument ⟨0⟩ ⟨[114]⟩ none 0 (some ""))
  let found : ApprovalOp := .completed 0 (.resolved .workspace a)
  have hruns : ((ApprovalDesk.step rustEnv digitsHash (.first "w") open₁)).any fun d₁ =>
      d₁.inFlight.drop 1 = [] ∧
        ([found, .run (.approve "rust")].foldlM (ApprovalDesk.step rustEnv digitsHash) d₁).any
          fun d₂ => d₂.log.length = 2 := by
    decide
  obtain ⟨d₁, hd₁, hend⟩ := (Option.any_eq_true _ _).mp hruns
  obtain ⟨hlater, hruns₂⟩ := of_decide_eq_true hend
  obtain ⟨d₂, hd₂, hlog₂⟩ := (Option.any_eq_true _ _).mp hruns₂
  have hsound : d₁.Sound digitsHash (· = a) found := by
    refine ⟨fun source command h => ?_, fun task _ _ => ?_⟩
    · cases h
      rfl
    · rw [hlater]
      nofun
  have halong : Along (ApprovalDesk.step rustEnv digitsHash)
      (ApprovalDesk.Sound digitsHash (· = a)) [found, .run (.approve "rust")] d₁ :=
    ⟨hsound, fun _ _ => ⟨trivial, fun _ _ => trivial⟩⟩
  have hto : Runs (ApprovalDesk.step rustEnv digitsHash) (ApprovalDesk.Sound digitsHash (· = a))
      (.first "w") d₂ := (Runs.single trivial hd₁).trans (halong.runs hd₂)
  have hhash : NoCollision digitsHash (· = a) := by
    rintro c c' rfl rfl _
    rfl
  exact ⟨(· = a), d₂, hto, of_decide_eq_true hlog₂, (approval_law hhash).2 "w" d₂ hto⟩

/-! ## A result of an earlier opening -/

/-- The condition of the law, but for the results. -/
def ApprovalDesk.Given (hash : List UInt8 → BitVec 256) (met : ResolvedCommand → Prop)
    (d : ApprovalDesk) : ApprovalOp → Prop
  | .opened workspaceId restored =>
    ∀ approval ∈ restored.approvals, Standing hash met d.log workspaceId approval
  | .completed _ resolution =>
    ∀ source command, resolution = .resolved source command → met command
  | .run _ => True

/-- A command was approved. Its workspace is opened again, and a discovery left under way; another
command is denied; and when the workspace is opened for a third time, the result of that discovery
comes and is taken. -/
theorem stale_start : ∃ (met : ResolvedCommand → Prop) (d : ApprovalDesk),
    NoCollision digitsHash met ∧
      Runs (ApprovalDesk.step rustEnv digitsHash) (ApprovalDesk.Given digitsHash met) (.first "w") d ∧
        ¬ Each ApprovalDesk.Allowed d.log := by
  let a : ResolvedCommand := ⟨⟨[47, 97]⟩, [], rfl, by decide, by decide⟩
  let b : ResolvedCommand := ⟨⟨[47, 98]⟩, [], rfl, by decide, by decide⟩
  let open₁ : ApprovalOp := .run (.openDocument ⟨0⟩ ⟨[114]⟩ none 0 (some ""))
  let met : ResolvedCommand → Prop := fun c => c = a ∨ c = b
  let print := a.fingerprint digitsHash
  let ops₁ : List ApprovalOp :=
    [open₁, .completed 0 (.resolved .workspace a), .run (.approve "rust")]
  let again₁ : ApprovalOp := .opened "w" ⟨[], [⟨"rust", print⟩], false⟩
  let ops₂ : List ApprovalOp := [open₁, .run (.disableLanguage "rust"), .run (.enableLanguage "rust"),
    .completed 1 (.resolved .workspace b), .run (.deny "rust"), .opened "w" ⟨[], [], false⟩, open₁,
    .completed 0 (.resolved .workspace a)]
  have hruns : (ops₁.foldlM (ApprovalDesk.step rustEnv digitsHash) (.first "w")).any fun d₁ =>
      d₁.log = [.approved "w" "rust" a, .started "w" "rust" (.new digitsHash .workspace a)] ∧
        ((again₁ :: ops₂).foldlM (ApprovalDesk.step rustEnv digitsHash) d₁).any fun d₂ =>
          d₂.log = [.approved "w" "rust" a, .started "w" "rust" (.new digitsHash .workspace a),
            .denied "w" "rust", .started "w" "rust" (.new digitsHash .workspace a)] := by
    decide
  obtain ⟨d₁, hd₁, hend⟩ := (Option.any_eq_true _ _).mp hruns
  obtain ⟨hlog₁, hruns₂⟩ := of_decide_eq_true hend
  obtain ⟨d₂, hd₂, hlog₂⟩ := (Option.any_eq_true _ _).mp hruns₂
  have hlog₂ := of_decide_eq_true hlog₂
  have hgiven₁ : ∀ op ∈ ops₁, ∀ d : ApprovalDesk, d.Given digitsHash met op := by
    intro op hop d
    simp only [ops₁, List.mem_cons, List.not_mem_nil, or_false] at hop
    obtain rfl | rfl | rfl := hop
    · trivial
    · rintro source command ⟨⟩
      exact .inl rfl
    · trivial
  have hagain₁ : d₁.Given digitsHash met again₁ := by
    intro approval happroval
    obtain rfl := List.mem_singleton.mp happroval
    refine ⟨a, .inl rfl, rfl, [], _, _, hlog₁, rfl, fun e he => ?_⟩
    obtain rfl := List.mem_singleton.mp he
    nofun
  have hgiven₂ : ∀ op ∈ ops₂, ∀ d : ApprovalDesk, d.Given digitsHash met op := by
    intro op hop d
    simp only [ops₂, List.mem_cons, List.not_mem_nil, or_false] at hop
    obtain rfl | rfl | rfl | rfl | rfl | rfl | rfl | rfl := hop
    · trivial
    · trivial
    · trivial
    · rintro source command ⟨⟩
      exact .inr rfl
    · trivial
    · nofun
    · trivial
    · rintro source command ⟨⟩
      exact .inl rfl
  refine ⟨met, d₂, ?_, ?_, fun heach => ?_⟩
  · rintro c c' (rfl | rfl) (rfl | rfl) h
    · rfl
    · exact absurd h (by decide)
    · exact absurd h (by decide)
    · rfl
  · have hfirst := Along.runs (along_of_forall hgiven₁ _) hd₁
    have hsecond : Along (ApprovalDesk.step rustEnv digitsHash) (ApprovalDesk.Given digitsHash met)
        (again₁ :: ops₂) d₁ :=
      ⟨hagain₁, fun _ _ => along_of_forall hgiven₂ _⟩
    have hsecond := hsecond.runs hd₂
    exact hfirst.trans hsecond
  · -- The last start stands behind the denial.
    have hsince := heach [.approved "w" "rust" a, .started "w" "rust" (.new digitsHash .workspace a),
      .denied "w" "rust"] _ [] hlog₂ rfl
    rw [show ∀ x y z : ApprovalEvent, [x, y, z] = [x, y] ++ [z] from fun _ _ _ => rfl] at hsince
    obtain ⟨-, hdenied⟩ | ⟨pre, e, post, heq, he, -⟩ := since_append.mp hsince
    · exact hdenied _ List.mem_cons_self rfl
    · obtain ⟨rfl, rfl, rfl⟩ | ⟨-, h⟩ := List.singleton_eq_append_iff.mp heq
      · cases he
      · cases h

end Strukt.App
