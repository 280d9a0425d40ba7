import Strukt.App.LanguagePolls

/-!
# What a poll does

* **Generations**: nothing but a start changes the generation of a running language, so what a poll
  says of a language is of the generation that was up before it.
* **One language** (`pollLanguage_spec`): its events are ordinary ones that name it, and it makes at
  most one ending exactly if its poll is `Calm`. A failed read, bytes that are no frames and a frame
  that is rejected each make an ending, and only the first two end the loop over the reads; the exit
  is looked at after it in any case.
* **The runtime** (`pollAt_spec`): a process goes where a terminal event names it, and no event
  follows a terminal one of its source exactly if all polls of the languages are calm.
* **Other calls** keep all generations, and a start sets that of its language.
-/

namespace Strukt.App

open Strukt.Language Method

variable {P : Type}

/-! ## The generation of a language -/

namespace AttachedLanguage

variable {env : RuntimeEnv} {languageId : String} {now : Duration} {order : HashOrder}

abbrev KeepsGeneration (P : Type) {α : Type} (x : Method (AttachedLanguage P) String α) : Prop :=
  Preserves (fun running : AttachedLanguage P => running.generation) x

theorem keeps_onClient {α : Type} (x : ClientM α) : KeepsGeneration P (onClient x) :=
  preserves_focus fun _ _ => rfl

theorem keeps_onProcess {α : Type} (x : Method P String α) : KeepsGeneration P (onProcess x) :=
  preserves_focus fun _ _ => rfl

theorem keeps_decode (bytes : List UInt8) : KeepsGeneration P (decode bytes) := by
  refine preserves_get.bind fun running => ?_
  exact preserves_modify_bind (fun _ => rfl) (preserves_ofExcept _)

theorem keeps_handleTimeouts (timeouts : List ClientTimeout) (terminal : Option String) :
    KeepsGeneration P (handleTimeouts timeouts terminal) := by
  induction timeouts generalizing terminal with
  | nil => exact preserves_pure _
  | cons timeout timeouts ih =>
    cases timeout with
    | initialization => exact ih _
    | request id =>
      refine preserves_get.bind fun running => ?_
      split
      · exact ih _
      · refine preserves_modify_bind (fun _ => rfl) ?_
        exact (ih _).bind fun _ => preserves_pure _
    | shutdown => exact ih _
    | idleShutdown => exact preserves_modify_bind (fun _ => rfl) (ih _)

variable [LanguageProcess P]

theorem keeps_flushMessages (n : Nat) : KeepsGeneration P (flushMessages env n) := by
  induction n with
  | zero => exact preserves_pure ()
  | succ n ih =>
    refine (keeps_onClient _).bind fun message => ?_
    cases message with
    | none => exact preserves_pure ()
    | some message => exact (keeps_onProcess _).bind fun _ => ih

theorem keeps_flushClient : KeepsGeneration P (flushClient env) :=
  preserves_get.bind fun _ => keeps_flushMessages _

theorem keeps_handleResponse (response : ResponseMessage) :
    KeepsGeneration P (handleResponse env languageId response) := by
  refine preserves_get.bind fun running => ?_
  split
  · refine (preserves_okOr _ _).bind fun result => ?_
    refine (keeps_onClient _).bind fun _ => ?_
    exact keeps_flushClient.bind fun _ => preserves_pure _
  · split
    · refine (keeps_onClient _).bind fun _ => ?_
      refine preserves_modify_bind (fun _ => rfl) ?_
      exact keeps_flushClient.bind fun _ => preserves_pure _
    · split
      · exact preserves_pure _
      · refine preserves_modify_bind (fun _ => rfl) ?_
        refine (keeps_onClient _).bind fun disposition => ?_
        split
        · exact preserves_pure _
        · exact preserves_pure _

theorem keeps_handleFrame (body : List UInt8) :
    KeepsGeneration P (handleFrame env languageId body) := by
  refine (preserves_ofExcept _).bind fun message => ?_
  cases message with
  | response response => exact keeps_handleResponse response
  | notification message => exact preserves_get.bind fun _ => preserves_pure _
  | request request => exact (keeps_onProcess _).bind fun _ => preserves_pure _

theorem keeps_handleFrames (frames : List Frame) :
    KeepsGeneration P (handleFrames env languageId frames) := by
  induction frames with
  | nil => exact preserves_pure _
  | cons frame frames ih =>
    refine (keeps_handleFrame _).attempt.bind fun result => ?_
    cases result with
    | error message => exact preserves_pure _
    | ok event => exact ih.bind fun _ => preserves_pure _

theorem keeps_readRound : KeepsGeneration P (readRound env languageId) := by
  refine (keeps_onProcess _).attempt.bind fun result => ?_
  rcases result with message | _ | bytes
  · exact preserves_pure _
  · exact preserves_pure _
  · refine (keeps_decode bytes).attempt.bind fun frames => ?_
    cases frames with
    | error message => exact preserves_pure _
    | ok frames => exact (keeps_handleFrames frames).bind fun _ => preserves_pure _

theorem keeps_readRounds (n : Nat) : KeepsGeneration P (readRounds env languageId n) := by
  induction n with
  | zero => exact preserves_pure _
  | succ n ih =>
    refine keeps_readRound.bind fun round => ?_
    cases round with
    | idle => exact preserves_pure _
    | broken message => exact preserves_pure _
    | handled events rejected => exact ih.bind fun _ => preserves_pure _

theorem keeps_checkExit : KeepsGeneration P checkExit := by
  refine (keeps_onProcess _).attempt.bind fun result => ?_
  rcases result with message | _ | exit
  · exact preserves_pure _
  · exact preserves_pure _
  · refine preserves_get.bind fun running => ?_
    split
    · exact (keeps_onClient _).bind fun _ => preserves_pure _
    · exact preserves_pure _

theorem keeps_prepare : KeepsGeneration P (prepare env now) := by
  refine (keeps_onClient _).bind fun timeouts => ?_
  refine (keeps_handleTimeouts _ _).bind fun (events, terminal) => ?_
  cases terminal with
  | some message => exact (keeps_onProcess _).attempt.bind fun _ => preserves_pure _
  | none =>
    refine (keeps_onClient _).discard.bind fun _ => ?_
    refine keeps_flushClient.attempt.bind fun result => ?_
    cases result with
    | error message => exact preserves_pure _
    | ok _ => exact preserves_pure _

theorem keeps_findings : KeepsGeneration P (findings env languageId) :=
  (keeps_readRounds 64).bind fun _ => keeps_checkExit.bind fun _ => preserves_pure _

theorem start_spec {workspaceId : String} {generation : UInt64} {root : PathBuf} {process : P}
    (u : Unit) :
    wp (start env languageId workspaceId generation root process now)
      (fun running _ => running.generation = generation) (fun _ _ => True) True u := by
  unfold start
  dsimp only
  split
  · rw [wp_orPanic]
    exact ⟨fun _ h => absurd h (Option.some_ne_none _).symm, fun _ => trivial⟩
  · trivial
  · rw [wp_bind, wp_okOr]
    refine ⟨fun initializeId _ => ?_, fun _ => trivial⟩
    split
    · rw [wp_orPanic]
      exact ⟨fun _ h => absurd h (Option.some_ne_none _).symm, fun _ => trivial⟩
    · trivial
    · rfl

theorem keeps_applyEffect (effect : LanguageEffect) :
    KeepsGeneration P (applyEffect env now order effect) := by
  refine preserves_get.bind fun running => ?_
  cases effect with
  | discover _ _ _ _ => exact keeps_flushClient
  | «open» _ _ _ path revision text | change _ _ _ path revision text | save _ _ _ path
  | close _ _ _ path =>
    refine (preserves_ofExcept _).bind fun uri => ?_
    exact (keeps_onClient _).bind fun _ => keeps_flushClient

theorem keeps_requestFeature {path : PathBuf} {revision : UInt64} {kind : FeatureRequestKind}
    {position : LspPosition} :
    KeepsGeneration P (requestFeature env path revision kind position now order) := by
  refine preserves_get.bind fun running => ?_
  refine (preserves_ofExcept _).bind fun uri => ?_
  refine (keeps_onClient _).bind fun request => ?_
  refine preserves_modify_bind (fun _ => rfl) ?_
  exact keeps_flushClient.bind fun _ => preserves_pure _

theorem keeps_beginShutdown : KeepsGeneration P (beginShutdown env now) := by
  refine (keeps_onClient _).bind fun shutdown => ?_
  exact preserves_modify_bind (fun _ => rfl) (keeps_onProcess _)

end AttachedLanguage

/-! ## One poll of a language -/

/-- The event is not a terminal one, and names the language and the generation if it names any. -/
def LanguageRuntimeEvent.Ordinary (languageId : String) (generation : UInt64) :
    LanguageRuntimeEvent → Prop
  | .ready l g _ | .notification l g _ _ | .featureResponse l g _ _ _ =>
    l = languageId ∧ g = generation
  | .requestTimedOut _ => True
  | .failed .. | .stopped .. => False

theorem LanguageRuntimeEvent.Ordinary.terminal {languageId : String} {generation : UInt64}
    {event : LanguageRuntimeEvent} (h : event.Ordinary languageId generation) :
    event.terminal = false := by
  cases event with
  | failed _ _ _ => exact h.elim
  | stopped _ _ => exact h.elim
  | ready _ _ _ | notification _ _ _ _ | featureResponse _ _ _ _ _ | requestTimedOut _ => rfl

namespace AttachedLanguage

variable {env : RuntimeEnv} {languageId : String} {now : Duration} {running : AttachedLanguage P}

theorem handleTimeouts_spec (languageId : String) (generation : UInt64)
    (timeouts : List ClientTimeout) (terminal : Option String) :
    wp (handleTimeouts timeouts terminal)
      (fun found _ => ∀ event ∈ found.1, event.Ordinary languageId generation) (fun _ _ => False)
      True running := by
  induction timeouts generalizing terminal running with
  | nil => exact fun event hmem => absurd hmem List.not_mem_nil
  | cons timeout timeouts ih =>
    cases timeout with
    | initialization => exact ih _
    | request id =>
      rw [handleTimeouts, wp_bind, wp_get]
      split
      · exact ih _
      · rw [wp_bind, wp_modify, wp_bind]
        refine wp_mono (ih _) (fun found _ hfound => ?_) (fun _ _ h => h) fun h => h
        exact List.forall_mem_cons.mpr ⟨trivial, hfound⟩
    | shutdown => exact ih _
    | idleShutdown =>
      rw [handleTimeouts, wp_bind, wp_modify]
      exact ih _

variable [LanguageProcess P]

theorem handleResponse_spec (response : ResponseMessage) :
    wp (handleResponse env languageId response)
      (fun event _ => ∀ e ∈ event, e.Ordinary languageId running.generation) (fun _ _ => True) True
      running := by
  have hnone : ∀ e ∈ (none : Option LanguageRuntimeEvent),
      e.Ordinary languageId running.generation := fun e he => absurd he (Option.not_mem_none e)
  rw [handleResponse, wp_bind, wp_get]
  split
  · rw [wp_bind]
    refine wp_any (fun result _ => ?_) fun _ _ => trivial
    rw [wp_bind]
    refine wp_any (fun _ _ => ?_) fun _ _ => trivial
    rw [wp_bind]
    refine wp_any (fun _ _ => ?_) fun _ _ => trivial
    rintro e ⟨⟩
    exact ⟨rfl, rfl⟩
  · split
    · rw [wp_bind]
      refine wp_any (fun _ _ => ?_) fun _ _ => trivial
      rw [wp_bind, wp_modify, wp_bind]
      exact wp_any (fun _ _ => hnone) fun _ _ => trivial
    · split
      · exact hnone
      · rw [wp_bind, wp_modify, wp_bind]
        refine wp_any (fun disposition _ => ?_) fun _ _ => trivial
        split
        · exact hnone
        · rintro e ⟨⟩
          exact ⟨rfl, rfl⟩

theorem handleFrame_spec (body : List UInt8) :
    wp (handleFrame env languageId body)
      (fun event _ => ∀ e ∈ event, e.Ordinary languageId running.generation) (fun _ _ => True) True
      running := by
  rw [handleFrame, wp_bind, wp_ofExcept]
  refine ⟨fun message _ => ?_, fun _ _ => trivial⟩
  cases message with
  | response response => exact handleResponse_spec response
  | notification message =>
    rintro e ⟨⟩
    exact ⟨rfl, rfl⟩
  | request request =>
    rw [wp_bind]
    refine wp_any (fun _ _ => ?_) fun _ _ => trivial
    exact fun e he => absurd he (Option.not_mem_none e)

theorem handleFrames_spec (frames : List Frame) :
    wp (handleFrames env languageId frames)
      (fun found _ => ∀ e ∈ found.1, e.Ordinary languageId running.generation) (fun _ _ => False)
      True running := by
  induction frames generalizing running with
  | nil => exact fun e hmem => absurd hmem List.not_mem_nil
  | cons frame frames ih =>
    rw [handleFrames, wp_bind, wp_attempt]
    refine wp_mono ((keeps_handleFrame frame.body).wp_and (handleFrame_spec frame.body))
      (fun event next h => ?_) (fun _ _ _ e hmem => absurd hmem List.not_mem_nil) fun h => h
    obtain ⟨hevent, hgeneration⟩ := h
    rw [wp_bind]
    refine wp_mono ih (fun found _ hfound e hmem => ?_) (fun _ _ h => h) fun h => h
    obtain hmem | hmem := List.mem_append.mp hmem
    · exact hevent e (Option.mem_toList.mp hmem)
    · exact hgeneration ▸ hfound e hmem

theorem readRound_spec :
    wp (readRound env languageId)
      (fun round _ => ∀ e ∈ round.events, e.Ordinary languageId running.generation)
      (fun _ _ => False) True running := by
  have hnil : ∀ e ∈ ([] : List LanguageRuntimeEvent),
      e.Ordinary languageId running.generation := fun e hmem => absurd hmem List.not_mem_nil
  rw [readRound, wp_bind, wp_attempt]
  refine wp_mono ((keeps_onProcess _).wp running) (fun read next hread => ?_)
    (fun _ _ _ => hnil) fun h => h
  cases read with
  | none => exact hnil
  | some bytes =>
    rw [wp_bind, wp_attempt]
    refine wp_mono ((keeps_decode bytes).wp next) (fun frames decoded hdecoded => ?_)
      (fun _ _ _ => hnil) fun h => h
    rw [wp_bind]
    refine wp_mono (handleFrames_spec frames) (fun found _ hfound e hmem => ?_) (fun _ _ h => h)
      fun h => h
    exact (hdecoded.trans hread) ▸ hfound e hmem

theorem readRounds_spec (n : Nat) :
    wp (readRounds env languageId n)
      (fun rounds _ => ∀ e ∈ rounds.flatMap Round.events,
        e.Ordinary languageId running.generation)
      (fun _ _ => False) True running := by
  induction n generalizing running with
  | zero => exact fun e hmem => absurd hmem List.not_mem_nil
  | succ n ih =>
    rw [readRounds, wp_bind]
    refine wp_mono (keeps_readRound.wp_and readRound_spec) (fun round next h => ?_)
      (fun _ _ h => h.1) fun h => h
    obtain ⟨hround, hgeneration⟩ := h
    cases round with
    | idle => exact fun e hmem => absurd hmem List.not_mem_nil
    | broken message => exact fun e hmem => absurd hmem List.not_mem_nil
    | handled events rejected =>
      rw [wp_bind]
      refine wp_mono ih (fun rounds _ hrounds e hmem => ?_) (fun _ _ h => h) fun h => h
      rw [List.flatMap_cons] at hmem
      obtain hmem | hmem := List.mem_append.mp hmem
      · exact hround e hmem
      · exact hgeneration ▸ hrounds e hmem

theorem checkExit_spec :
    wp (checkExit (P := P)) (fun _ _ => True) (fun _ _ => False) True running := by
  rw [checkExit, wp_bind, wp_attempt]
  refine wp_any (fun exit next => ?_) fun _ _ => trivial
  cases exit with
  | none => trivial
  | some exit =>
    rw [wp_bind, wp_get, wp_ite, wp_bind]
    exact ⟨fun _ => trivial, fun _ => trivial⟩

theorem findings_spec :
    wp (findings env languageId)
      (fun found _ => ∀ e ∈ found.1.flatMap Round.events,
        e.Ordinary languageId running.generation)
      (fun _ _ => False) True running := by
  rw [findings, wp_bind]
  refine wp_mono (readRounds_spec 64) (fun rounds next hrounds => ?_) (fun _ _ h => h) fun h => h
  rw [wp_bind]
  exact wp_mono checkExit_spec (fun _ _ _ => hrounds) (fun _ _ h => h) fun h => h

theorem prepare_spec (languageId : String) :
    wp (prepare env now)
      (fun found _ => ∀ e ∈ found.1, e.Ordinary languageId running.generation)
      (fun _ _ => False) True running := by
  rw [prepare, wp_bind, onClient, wp_focus]
  refine wp_mono (pollTimeouts_spec now running.client)
    (fun timeouts client _ => ?_) (fun _ _ h => h) fun h => h
  rw [wp_bind]
  refine wp_mono (handleTimeouts_spec languageId running.generation timeouts none)
    (fun found next hfound => ?_) (fun _ _ h => h) fun h => h
  obtain ⟨events, terminal⟩ := found
  cases terminal with
  | some message =>
    rw [wp_bind, wp_attempt]
    exact wp_any (fun _ _ => hfound) fun _ _ => hfound
  | none =>
    rw [wp_bind, wp_discard, onClient, wp_focus, LanguageClient.wp_flushChanges, wp_bind,
      wp_attempt]
    exact wp_any (fun _ _ => hfound) fun _ _ => hfound

/-- At most one of what the process is found to have done ends the language, if the poll gets to
the reads at all. -/
def Calm (env : RuntimeEnv) (languageId : String) (now : Duration)
    (running : AttachedLanguage P) : Prop :=
  ∀ events settled rounds exit last,
    (prepare env now).exec running = some (.ok (events, none), settled) →
    (findings env languageId).exec settled = some (.ok (rounds, exit), last) →
    (rounds.filterMap Round.failure).length + exit.toList.length ≤ 1

theorem pollLanguage_spec :
    wp (pollLanguage env languageId now)
      (fun found running' => running'.generation = running.generation ∧
        (∀ e ∈ found.1, e.Ordinary languageId running.generation) ∧
        (found.2.length ≤ 1 ↔ running.Calm env languageId now))
      (fun _ _ => False) True running := by
  rw [pollLanguage, wp_bind]
  refine wp_mono (wp_and (keeps_prepare.wp_and (prepare_spec languageId)) (wp_self _ _))
    (fun found settled h => ?_) (fun _ _ h => h.1.1) fun _ => trivial
  obtain ⟨⟨hevents, hsettled⟩, hprepare⟩ := h
  obtain ⟨events, early⟩ := found
  cases early with
  | some ending =>
    refine ⟨hsettled, hevents, iff_of_true (Nat.le_refl 1) ?_⟩
    intro events' settled' rounds exit last hprepare'
    cases hprepare.symm.trans hprepare'
  | none =>
    rw [wp_bind]
    refine wp_mono (wp_and (keeps_findings.wp_and findings_spec) (wp_self _ _))
      (fun found last h => ?_) (fun _ _ h => h.1.1) fun _ => trivial
    obtain ⟨⟨hrounds, hlast⟩, hfindings⟩ := h
    refine ⟨hlast.trans hsettled, fun e hmem => ?_, ?_⟩
    · obtain hmem | hmem := List.mem_append.mp hmem
      · exact hevents e hmem
      · exact hsettled ▸ hrounds e hmem
    · rw [List.length_append]
      constructor
      · intro hle events' settled' rounds exit last' hprepare' hfindings'
        cases hprepare.symm.trans hprepare'
        cases hfindings.symm.trans hfindings'
        exact hle
      · exact fun hcalm => hcalm _ _ _ _ _ hprepare hfindings

end AttachedLanguage

/-! ## One poll of the runtime -/

namespace AttachedRuntime

variable {env : RuntimeEnv} {now : Duration} {runtime runtime' : AttachedRuntime P}

/-- The generation that is up of each language. -/
def generations (runtime : AttachedRuntime P) (languageId : String) : Option UInt64 :=
  (runtime.get? languageId).map (·.generation)

theorem generations_insert {languageId : String} {running : AttachedLanguage P} (l : String) :
    generations (runtime.insert languageId running) l =
      if l = languageId then some running.generation else runtime.generations l := by
  rw [generations, SortedMap.get?_insert]
  split
  · rfl
  · rfl

/-- A process that keeps its generation. -/
theorem generations_insert_self {languageId : String} {running running' : AttachedLanguage P}
    (h : runtime.get? languageId = some running)
    (hgeneration : running'.generation = running.generation) :
    generations (runtime.insert languageId running') = runtime.generations := by
  funext l
  rw [generations_insert]
  split
  · next hl => rw [hl, generations, h, hgeneration, Option.map_some]
  · rfl

theorem onLanguage_spec {α : Type} {l : String} {running : AttachedLanguage P}
    {x : Method (AttachedLanguage P) String α} (hl : runtime.get? l = some running)
    (hx : AttachedLanguage.KeepsGeneration P x) :
    wp (onLanguage l running x) (fun _ runtime' => runtime'.generations = runtime.generations)
      (fun _ runtime' => runtime'.generations = runtime.generations) True runtime := by
  rw [onLanguage, wp_focus]
  exact wp_mono (hx.wp running) (fun _ _ h => generations_insert_self hl h)
    (fun _ _ h => generations_insert_self hl h) fun h => h

theorem onCurrent_spec {α : Type} {l : String} {generation : UInt64}
    {x : Method (AttachedLanguage P) String α} (hx : AttachedLanguage.KeepsGeneration P x)
    (runtime : AttachedRuntime P) :
    wp (do onLanguage l (← current l generation) x)
      (fun _ runtime' => runtime'.generations = runtime.generations)
      (fun _ runtime' => runtime'.generations = runtime.generations) True runtime := by
  simp only [current, wp_bind, wp_get, wp_okOr, wp_ensure, wp_pure]
  exact ⟨fun running hl => ⟨fun _ => onLanguage_spec hl hx, fun _ => trivial⟩, fun _ => trivial⟩

/-- An event with its source. -/
abbrev Sourced := (String × UInt64) × LanguageRuntimeEvent

theorem get?_foldl_remove (events : List Sourced) (runtime : AttachedRuntime P) (l : String) :
    SortedMap.get? (events.foldl (fun runtime event => runtime.remove event.1.1) runtime) l =
      if l ∈ events.map (·.1.1) then none else runtime.get? l := by
  induction events generalizing runtime with
  | nil => rfl
  | cons e events ih =>
    rw [List.foldl_cons, ih, SortedMap.get?_remove, List.map_cons]
    by_cases hl : l = e.1.1
    · rw [if_pos hl, if_pos (List.mem_cons.mpr (.inl hl))]
      split <;> rfl
    · rw [if_neg hl]
      refine if_congr ?_ rfl rfl
      rw [List.mem_cons]
      exact (or_iff_right hl).symm

variable [LanguageProcess P]

/-- What the poll of a language adds. -/
structure Visited (env : RuntimeEnv) (now : Duration) (runtime : AttachedRuntime P) (v : Visit)
    (running : AttachedLanguage P) : Prop where
  up : runtime.get? v.source.1 = some running
  generation : running.generation = v.source.2
  ordinary : ∀ e ∈ v.events, e.Ordinary v.source.1 v.source.2
  calm_iff : v.endings.length ≤ 1 ↔ running.Calm env v.source.1 now

/-- Each of the languages is visited once, in the state that it was in. -/
theorem visit_spec {languages : List String} (hnodup : languages.Nodup)
    (runtime : AttachedRuntime P) :
    wp (visit env now languages)
      (fun visits runtime' =>
        visits.map (·.source.1) = languages.filter (runtime.containsKey ·) ∧
        (∀ v ∈ visits, ∃ running, Visited env now runtime v running) ∧
        runtime'.generations = runtime.generations)
      (fun _ _ => False) True runtime := by
  induction languages generalizing runtime with
  | nil => exact ⟨rfl, fun v hmem => absurd hmem List.not_mem_nil, rfl⟩
  | cons l languages ih =>
    obtain ⟨hnot, hnodup⟩ := List.nodup_cons.mp hnodup
    rw [visit, wp_bind, wp_get]
    cases hl : runtime.get? l with
    | none =>
      have hkey : runtime.containsKey l = false := by rw [SortedMap.containsKey, hl]; rfl
      rw [List.filter_cons_of_neg (by rw [hkey]; exact Bool.false_ne_true)]
      exact ih hnodup runtime
    | some running =>
      have hkey : runtime.containsKey l = true := by rw [SortedMap.containsKey, hl]; rfl
      rw [List.filter_cons_of_pos hkey, wp_bind, onLanguage, wp_focus]
      refine wp_mono AttachedLanguage.pollLanguage_spec (fun found running' h => ?_)
        (fun _ _ h => h) fun h => h
      obtain ⟨hgeneration, hordinary, hcalm⟩ := h
      have hsame := generations_insert_self hl hgeneration
      have hother : ∀ l' ∈ languages, (runtime.insert l running').get? l' = runtime.get? l' := by
        intro l' hmem
        rw [SortedMap.get?_insert, if_neg fun he : l' = l => hnot (he ▸ hmem)]
      rw [wp_bind]
      refine wp_mono (ih hnodup _) (fun visits last h => ?_) (fun _ _ h => h) fun h => h
      obtain ⟨hsources, hvisited, hlast⟩ := h
      have hfilter : languages.filter ((runtime.insert l running').containsKey ·) =
          languages.filter (runtime.containsKey ·) :=
        List.filter_congr fun l' hmem => by
          rw [SortedMap.containsKey, SortedMap.containsKey, hother l' hmem]
      refine ⟨?_, ?_, hlast.trans hsame⟩
      · rw [List.map_cons, hsources, hfilter]
      · refine List.forall_mem_cons.mpr ⟨⟨running, hl, rfl, hordinary, hcalm⟩, fun v hmem => ?_⟩
        obtain ⟨r, hv⟩ := hvisited v hmem
        have hmem' : v.source.1 ∈ languages :=
          (List.mem_filter.mp (hsources ▸ List.mem_map_of_mem hmem)).1
        exact ⟨r, (hother _ hmem') ▸ hv.up, hv.generation, hv.ordinary, hv.calm_iff⟩

theorem terminal_terminalEvents {visits : List Visit} {e : Sourced}
    (h : e ∈ terminalEvents visits) : e.2.terminal = true := by
  obtain h | h := List.mem_append.mp h
  all_goals
    obtain ⟨v, -, h⟩ := List.mem_flatMap.mp h
    obtain ⟨ending, -, rfl⟩ := List.mem_map.mp h
    cases ending with
    | stopped => rfl
    | failed message => rfl

/-- The sources of the terminal events, one for each ending. -/
theorem sources_terminalEvents (visits : List Visit) :
    ((terminalEvents visits).map (·.1)).Perm
      (visits.flatMap fun v => v.endings.map fun _ => v.source) := by
  have hended (p : Ending → Bool) : (visits.flatMap (Visit.ended p)).map (·.1) =
      visits.flatMap fun v => (v.endings.filter p).map fun _ => v.source := by
    rw [List.map_flatMap]
    refine List.flatMap_congr fun v _ => ?_
    rw [Visit.ended, List.map_map]
    rfl
  rw [terminalEvents, List.map_append, hended, hended]
  refine (List.flatMap_append_perm visits _ _).trans (List.Perm.flatMap_left visits fun v _ => ?_)
  rw [← List.map_append]
  refine List.Perm.map _ ?_
  have hnot : v.endings.filter (fun ending => decide (ending ≠ .stopped)) =
      v.endings.filter fun ending => !decide (ending = .stopped) :=
    List.filter_congr fun ending _ => decide_not
  rw [hnot]
  exact List.filter_append_perm _ v.endings

theorem mem_sources {visits : List Visit} {source : String × UInt64} :
    source ∈ (terminalEvents visits).map (·.1) ↔
      ∃ v ∈ visits, v.endings ≠ [] ∧ v.source = source := by
  rw [(sources_terminalEvents visits).mem_iff, List.mem_flatMap]
  refine exists_congr fun v => and_congr_right fun _ => ?_
  rw [List.mem_map]
  constructor
  · rintro ⟨ending, hmem, rfl⟩
    exact ⟨List.ne_nil_of_mem hmem, rfl⟩
  · rintro ⟨hne, rfl⟩
    obtain ⟨ending, hmem⟩ := List.exists_mem_of_ne_nil _ hne
    exact ⟨ending, hmem, rfl⟩

theorem nodup_sources {visits : List Visit} (h : (visits.map (·.source)).Nodup) :
    ((terminalEvents visits).map (·.1)).Nodup ↔ ∀ v ∈ visits, v.endings.length ≤ 1 := by
  have hreplicate (v : Visit) :
      (v.endings.map fun _ => v.source) = List.replicate v.endings.length v.source :=
    List.map_const'
  rw [(sources_terminalEvents visits).nodup_iff, List.nodup_flatMap]
  simp only [hreplicate, List.nodup_replicate]
  refine and_iff_left ?_
  refine (List.pairwise_map.mp h).imp fun hne => ?_
  refine List.disjoint_left.mpr fun source hv hw => hne ?_
  exact (List.eq_of_mem_replicate hv).symm.trans (List.eq_of_mem_replicate hw)

/-- What a poll returns, and the processes that it leaves. -/
structure PolledAt (env : RuntimeEnv) (now : Duration) (runtime : AttachedRuntime P)
    (events : List Sourced) (runtime' : AttachedRuntime P) : Prop where
  up : ∀ e ∈ events, runtime.generations e.1.1 = some e.1.2
  kept : ∀ l g, runtime'.generations l = some g → runtime.generations l = some g
  gone : ∀ l, runtime'.generations l = none ↔
    runtime.generations l = none ∨ ∃ e ∈ events, e.2.terminal ∧ e.1.1 = l
  once_iff : events.Pairwise (fun a b => a.2.terminal → a.1 ≠ b.1) ↔
    ∀ l running, runtime.get? l = some running → running.Calm env l now

/-- What the languages of a runtime add to a poll. -/
structure Visits (env : RuntimeEnv) (now : Duration) (runtime : AttachedRuntime P)
    (visits : List Visit) : Prop where
  languages : (visits.map (·.source.1)).Perm runtime.keys
  each : ∀ v ∈ visits, ∃ running, Visited env now runtime v running

namespace Visits

variable {visits : List Visit}

theorem distinct (h : Visits env now runtime visits) : (visits.map (·.source)).Nodup := by
  refine List.Nodup.of_map Prod.fst ?_
  rw [List.map_map]
  exact h.languages.nodup_iff.mpr runtime.nodup_keys

theorem up (h : Visits env now runtime visits) {v : Visit} (hv : v ∈ visits) :
    runtime.generations v.source.1 = some v.source.2 := by
  obtain ⟨running, hr⟩ := h.each v hv
  rw [generations, hr.up, Option.map_some, hr.generation]

theorem reported (h : Visits env now runtime visits) {e : Sourced}
    (he : e ∈ visits.flatMap Visit.reported) :
    e.2.terminal = false ∧ runtime.generations e.1.1 = some e.1.2 := by
  obtain ⟨v, hv, he⟩ := List.mem_flatMap.mp he
  obtain ⟨event, hevent, rfl⟩ := List.mem_map.mp he
  obtain ⟨running, hr⟩ := h.each v hv
  exact ⟨(hr.ordinary event hevent).terminal, h.up hv⟩

/-- The languages that end. -/
theorem ended_iff (h : Visits env now runtime visits) (l : String) :
    (∃ e ∈ visits.flatMap Visit.reported ++ terminalEvents visits, e.2.terminal ∧ e.1.1 = l) ↔
      l ∈ (terminalEvents visits).map (·.1.1) := by
  constructor
  · rintro ⟨e, he, ht, rfl⟩
    obtain he | he := List.mem_append.mp he
    · exact absurd ht (Bool.not_eq_true _ ▸ (h.reported he).1)
    · exact List.mem_map_of_mem he
  · intro hl
    obtain ⟨e, he, rfl⟩ := List.mem_map.mp hl
    exact ⟨e, List.mem_append_right _ he, terminal_terminalEvents he, rfl⟩

/-- No source has an event behind a terminal one, where the polls of the languages are calm. -/
theorem once_iff (h : Visits env now runtime visits) :
    (visits.flatMap Visit.reported ++ terminalEvents visits).Pairwise
        (fun a b => a.2.terminal → a.1 ≠ b.1) ↔
      ∀ l running, runtime.get? l = some running → running.Calm env l now := by
  have hordinary : ∀ a ∈ visits.flatMap Visit.reported, ∀ b : Sourced,
      a.2.terminal → a.1 ≠ b.1 := fun a ha b ht =>
    absurd ht (Bool.not_eq_true _ ▸ (h.reported ha).1)
  have hends : (terminalEvents visits).Pairwise (fun a b => a.2.terminal → a.1 ≠ b.1) ↔
      ((terminalEvents visits).map (·.1)).Nodup := by
    rw [List.Nodup, List.pairwise_map]
    refine List.Pairwise.iff_of_mem fun ha _ => ?_
    exact forall_prop_of_true (terminal_terminalEvents ha)
  rw [List.pairwise_append, hends, nodup_sources h.distinct]
  constructor
  · rintro ⟨-, hle, -⟩ l running hl
    have hkey := h.languages.mem_iff.mpr (SortedMap.mem_keys_of_get? hl)
    obtain ⟨v, hv, rfl⟩ := List.mem_map.mp hkey
    obtain ⟨running', hr⟩ := h.each v hv
    obtain rfl := Option.some.inj (hr.up.symm.trans hl)
    exact hr.calm_iff.mp (hle v hv)
  · intro hcalm
    refine ⟨?_, fun v hv => ?_, fun a ha b _ => hordinary a ha b⟩
    · exact List.pairwise_of_forall_mem_list fun a ha b _ => hordinary a ha b
    · obtain ⟨running, hr⟩ := h.each v hv
      exact hr.calm_iff.mpr (hcalm _ running hr.up)

end Visits

theorem pollAt_spec (order : KeyOrder String) (runtime : AttachedRuntime P) :
    wp (pollAt env now order) (PolledAt env now runtime) (fun _ _ => False) True runtime := by
  have hperm := order.perm runtime.keys
  have hnodup : (order.order runtime.keys).Nodup := hperm.nodup_iff.mpr runtime.nodup_keys
  rw [pollAt, wp_bind, wp_get, wp_bind]
  refine wp_mono (visit_spec hnodup runtime) (fun visits last h => ?_) (fun _ _ h => h) fun h => h
  obtain ⟨hsources, hvisited, hlast⟩ := h
  have hall : (order.order runtime.keys).filter (runtime.containsKey ·) =
      order.order runtime.keys :=
    List.filter_eq_self.mpr fun l hmem => SortedMap.containsKey_iff.mpr (hperm.mem_iff.mp hmem)
  have h : Visits env now runtime visits := ⟨(hsources.trans hall) ▸ hperm, hvisited⟩
  have hleft : ∀ l, generations ((terminalEvents visits).foldl
      (fun runtime event => runtime.remove event.1.1) last) l =
        if l ∈ (terminalEvents visits).map (·.1.1) then none else runtime.generations l := by
    intro l
    rw [generations, get?_foldl_remove, ← hlast]
    split <;> rfl
  refine ⟨fun e he => ?_, fun l g hg => ?_, fun l => ?_, h.once_iff⟩
  · obtain he | he := List.mem_append.mp he
    · exact (h.reported he).2
    · obtain ⟨v, hv, -, hsource⟩ := mem_sources.mp (List.mem_map_of_mem (f := (·.1)) he)
      exact hsource ▸ h.up hv
  · rw [hleft] at hg
    split at hg
    · cases hg
    · exact hg
  · rw [h.ended_iff, hleft]
    by_cases hl : l ∈ (terminalEvents visits).map (·.1.1)
    · rw [if_pos hl]
      exact iff_of_true rfl (.inr hl)
    · rw [if_neg hl, or_iff_left hl]

/-! ## The other calls -/

theorem finishStart_spec {workspaceId languageId : String} {generation : UInt64} {root : PathBuf}
    (completion : Option (Except String P)) (runtime : AttachedRuntime P) :
    wp (finishStart env workspaceId languageId generation root completion now)
      (fun _ runtime' => runtime'.generations = if completion.isSome then
        fun l => if l = languageId then some generation else runtime.generations l
        else runtime.generations)
      (fun _ runtime' => runtime'.generations = runtime.generations) True runtime := by
  cases completion with
  | none => rfl
  | some result =>
    rw [finishStart, wp_bind, wp_ofExcept]
    refine ⟨fun process _ => ?_, fun _ _ => rfl⟩
    rw [wp_bind, wp_focus]
    refine wp_mono (AttachedLanguage.start_spec ()) (fun running _ hgeneration => ?_)
      (fun _ _ _ => rfl) fun h => h
    funext l
    exact (generations_insert l).trans (hgeneration ▸ rfl)

theorem applyEffects_spec {order : HashOrder} (effects : List LanguageEffect)
    (runtime : AttachedRuntime P) :
    wp (applyEffects env now order effects)
      (fun _ runtime' => runtime'.generations = runtime.generations)
      (fun _ runtime' => runtime'.generations = runtime.generations) True runtime := by
  induction effects generalizing runtime with
  | nil => rfl
  | cons effect effects ih =>
    rw [applyEffects]
    cases effect.target with
    | none => exact ih runtime
    | some target =>
      rw [wp_bind, wp_get]
      cases hl : (runtime.get? target.1).filter (·.generation = target.2) with
      | none => exact ih runtime
      | some running =>
        rw [wp_bind]
        refine wp_mono (onLanguage_spec (Option.filter_eq_some_iff.mp hl).1
          (AttachedLanguage.keeps_applyEffect effect)) (fun _ next h => ?_) (fun _ _ h => h)
          fun h => h
        exact wp_mono (ih next) (fun _ _ h' => h'.trans h) (fun _ _ h' => h'.trans h) fun h => h

end AttachedRuntime

end Strukt.App
