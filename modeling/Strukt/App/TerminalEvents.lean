import Strukt.App.PollSpec
import Strukt.Lib.Log
import Strukt.Lib.Runs

/-!
# Stopped and failed

A `RuntimeHost` is the app's `LanguageRuntime` with a log of the generations that were started and
of the events that polls returned. Any calls of the runtime move it, with any processes.

* **Ended generations** (`Ended`): those with a terminal event in the log and no start since. A
  process that is up is of none (`Sound`).
* **Calls** (`Called`): a call logs nothing, a start, or the events of a poll.
* **The law** (`terminal_law`): no event comes of a generation that ended, and the process goes in
  the poll that says so, in exactly the runs whose polls are calm.
-/

namespace Strukt.App

open Strukt.Language Method

variable {P : Type}

/-! ## Runs -/

inductive LogEntry where
  | started (source : String × UInt64)
  | emitted (source : String × UInt64) (event : LanguageRuntimeEvent)

structure RuntimeHost (P : Type) where
  runtime : AttachedRuntime P
  log : List LogEntry

/-- A call of the runtime; `completion` is the spawned process, and the `now` is the clock's. -/
inductive RuntimeCall (P : Type) where
  | finishStart (workspaceId languageId : String) (generation : UInt64) (root : PathBuf)
      (completion : Option (Except String P)) (now : Duration)
  | applyEffects (effects : List LanguageEffect) (now : Duration) (order : HashOrder)
  | requestFeature (languageId : String) (generation : UInt64) (path : PathBuf)
      (revision : UInt64) (kind : FeatureRequestKind) (position : LspPosition) (now : Duration)
      (order : HashOrder)
  | beginShutdown (languageId : String) (generation : UInt64) (now : Duration)
  | poll (now : Duration) (order : KeyOrder String)

namespace RuntimeHost

variable {h h' : RuntimeHost P} {source : String × UInt64}

def new : RuntimeHost P := ⟨.empty, []⟩

/-- A call that logs `entries` if it succeeds. -/
def call {α : Type} (h : RuntimeHost P) (x : Method (AttachedRuntime P) String α)
    (entries : α → List LogEntry) : Option (RuntimeHost P) :=
  observe x h.runtime (fun a runtime => ⟨runtime, h.log ++ entries a⟩)
    fun _ runtime => { h with runtime }

/-- The generation had a terminal event, and was not started again since. -/
def Ended (source : String × UInt64) (log : List LogEntry) : Prop :=
  Since
    (fun entry => ∃ event : LanguageRuntimeEvent, event.terminal ∧ entry = .emitted source event)
    (· ≠ .started source) log

/-- No event is of a generation that ended. -/
def EndsOnce : List LogEntry → Prop :=
  Each fun past entry => ∀ source event, entry = .emitted source event → ¬Ended source past

/-- The process of the generation is up. -/
def Up (h : RuntimeHost P) (source : String × UInt64) : Prop :=
  h.runtime.generations source.1 = some source.2

/-! ### The log -/

theorem ended_emitted {log : List LogEntry} (h : ¬Ended source log)
    (events : List AttachedRuntime.Sourced) :
    Ended source (log ++ events.map fun e => .emitted e.1 e.2) ↔
      ∃ e ∈ events, e.2.terminal ∧ e.1 = source := by
  have hnot : ∀ entry ∈ events.map fun e => LogEntry.emitted e.1 e.2, entry ≠ .started source := by
    intro entry hmem
    obtain ⟨e, -, rfl⟩ := List.mem_map.mp hmem
    exact nofun
  rw [Ended, since_append, since_of_forall hnot]
  constructor
  · rintro (hlog | ⟨entry, hmem, event, ht, rfl⟩)
    · exact absurd hlog.1 h
    · obtain ⟨e, he, heq⟩ := List.mem_map.mp hmem
      cases heq
      exact ⟨e, he, ht, rfl⟩
  · rintro ⟨e, he, ht, rfl⟩
    exact .inr ⟨_, List.mem_map_of_mem he, e.2, ht, rfl⟩

theorem ended_started {log : List LogEntry} {started : String × UInt64} :
    Ended source (log ++ [.started started]) ↔ Ended source log ∧ source ≠ started := by
  rw [Ended, since_append]
  constructor
  · rintro (⟨hlog, hne⟩ | ⟨pre, entry, post, heq, ⟨event, -, rfl⟩, -⟩)
    · exact ⟨hlog, fun he => hne _ List.mem_cons_self (he ▸ rfl)⟩
    · have hmem : LogEntry.emitted source event ∈ [LogEntry.started started] := by
        rw [heq]
        simp
      cases List.mem_singleton.mp hmem
  · rintro ⟨hlog, hne⟩
    refine .inl ⟨hlog, fun entry hmem => ?_⟩
    cases List.mem_singleton.mp hmem
    exact fun he => hne (LogEntry.started.inj he).symm

theorem endsOnce_started {log : List LogEntry} {started : String × UInt64} (h : EndsOnce log) :
    EndsOnce (log ++ [.started started]) :=
  each_concat.mpr ⟨h, fun _ _ he => nomatch he⟩

/-- The events of a poll, behind a log that says of none of their generations that it ended. -/
theorem endsOnce_emitted {log : List LogEntry} {events : List AttachedRuntime.Sourced}
    (h : EndsOnce log) (hup : ∀ e ∈ events, ¬Ended e.1 log) :
    EndsOnce (log ++ events.map fun e => .emitted e.1 e.2) ↔
      events.Pairwise fun a b => a.2.terminal → a.1 ≠ b.1 := by
  induction events using List.reverseRecOn with
  | nil => exact iff_of_true ((List.append_nil log).symm ▸ h) .nil
  | append_singleton events e ih =>
    have ih := ih fun e he => hup e (List.mem_append_left _ he)
    have hlast := hup e (by simp)
    rw [List.map_append, ← List.append_assoc, List.map_singleton, EndsOnce, each_concat,
      List.pairwise_append]
    refine and_congr ih ⟨fun hnot => ⟨List.pairwise_singleton _ _, ?_⟩, fun hpair => ?_⟩
    · intro a ha b hb ht heq
      cases List.mem_singleton.mp hb
      exact hnot _ _ rfl ((ended_emitted hlast events).mpr ⟨a, ha, ht, heq⟩)
    · rintro source event he hended
      cases he
      obtain ⟨a, ha, ht, heq⟩ := (ended_emitted hlast events).mp hended
      exact hpair.2 a ha e List.mem_cons_self ht heq

/-- The log says of none of the processes that it ended. -/
structure Sound (h : RuntimeHost P) : Prop where
  once : EndsOnce h.log
  up : ∀ source, h.Up source → ¬Ended source h.log

theorem sound_new : Sound (new : RuntimeHost P) where
  once := each_nil
  up := fun _ hup => nomatch hup

theorem call_spec {α : Type} {x : Method (AttachedRuntime P) String α}
    {entries : α → List LogEntry} {R : RuntimeHost P → Prop}
    (hx : wp x (fun a runtime => R ⟨runtime, h.log ++ entries a⟩)
      (fun _ runtime => R { h with runtime }) True h.runtime)
    (hcall : h.call x entries = some h') : R h' :=
  hx.observe hcall

/-! ### What a call does -/

variable [LanguageProcess P] {env : RuntimeEnv}

def step (env : RuntimeEnv) (h : RuntimeHost P) : RuntimeCall P → Option (RuntimeHost P)
  | .finishStart workspaceId languageId generation root completion now =>
    h.call (AttachedRuntime.finishStart env workspaceId languageId generation root completion now)
      fun _ => if completion.isSome then [.started (languageId, generation)] else []
  | .applyEffects effects now order =>
    h.call (AttachedRuntime.applyEffects env now order effects) fun _ => []
  | .requestFeature languageId generation path revision kind position now order =>
    h.call (AttachedRuntime.requestFeature env languageId generation path revision kind position now
      order) fun _ => []
  | .beginShutdown languageId generation now =>
    h.call (AttachedRuntime.beginShutdown env languageId generation now) fun _ => []
  | .poll now order =>
    h.call (AttachedRuntime.pollAt env now order) fun events =>
      events.map fun event => .emitted event.1 event.2

/-- Where the call leads, the processes that went are those with a terminal event among what it
logged. -/
def RemovesEnded (env : RuntimeEnv) (h : RuntimeHost P) (c : RuntimeCall P) : Prop :=
  ∀ h', step env h c = some h' → ∃ entries, h'.log = h.log ++ entries ∧
    ∀ source, h.Up source ∧ h'.runtime.generations source.1 = none ↔
      ∃ event : LanguageRuntimeEvent, event.terminal ∧ .emitted source event ∈ entries

/-- The polls of all languages that are up are calm. -/
def Calm (env : RuntimeEnv) (h : RuntimeHost P) : RuntimeCall P → Prop
  | .poll now _ => ∀ l running, h.runtime.get? l = some running → running.Calm env l now
  | _ => True

/-- What a call leaves: the log grows, and what is up is as the new entries say. -/
inductive Called (env : RuntimeEnv) (h : RuntimeHost P) (c : RuntimeCall P) (h' : RuntimeHost P) :
    Prop where
  | same (hlog : h'.log = h.log) (hup : h'.runtime.generations = h.runtime.generations)
      (hcalm : Calm env h c)
  | started (source : String × UInt64) (hlog : h'.log = h.log ++ [.started source])
      (hup : h'.runtime.generations = fun l =>
        if l = source.1 then some source.2 else h.runtime.generations l)
      (hcalm : Calm env h c)
  | polled (now : Duration) (events : List AttachedRuntime.Sourced)
      (hlog : h'.log = h.log ++ events.map fun e => .emitted e.1 e.2)
      (hpolled : AttachedRuntime.PolledAt env now h.runtime events h'.runtime)
      (hcalm : Calm env h c ↔
        ∀ l running, h.runtime.get? l = some running → running.Calm env l now)

variable {c : RuntimeCall P}

theorem called_quiet {α : Type} {x : Method (AttachedRuntime P) String α}
    (hx : wp x (fun _ runtime' => runtime'.generations = h.runtime.generations)
      (fun _ runtime' => runtime'.generations = h.runtime.generations) True h.runtime)
    (hcalm : Calm env h c) (hcall : h.call x (fun _ => []) = some h') : Called env h c h' := by
  refine call_spec ?_ hcall
  exact wp_mono hx (fun _ _ hup => .same (List.append_nil _) hup hcalm)
    (fun _ _ hup => .same rfl hup hcalm) fun p => p

theorem step_called (hstep : step env h c = some h') : Called env h c h' := by
  cases c with
  | finishStart workspaceId languageId generation root completion now =>
    rw [step] at hstep
    refine call_spec ?_ hstep
    refine wp_mono (AttachedRuntime.finishStart_spec completion h.runtime)
      (fun _ runtime' hup => ?_) (fun _ _ hup => .same rfl hup trivial) fun p => p
    cases completion with
    | none => exact .same (List.append_nil _) hup trivial
    | some result => exact .started (languageId, generation) rfl hup trivial
  | applyEffects effects now order =>
    exact called_quiet (AttachedRuntime.applyEffects_spec effects h.runtime) trivial hstep
  | requestFeature languageId generation path revision kind position now order =>
    exact called_quiet
      (AttachedRuntime.onCurrent_spec AttachedLanguage.keeps_requestFeature h.runtime) trivial hstep
  | beginShutdown languageId generation now =>
    exact called_quiet
      (AttachedRuntime.onCurrent_spec AttachedLanguage.keeps_beginShutdown h.runtime) trivial hstep
  | poll now order =>
    rw [step] at hstep
    refine call_spec ?_ hstep
    exact wp_mono (AttachedRuntime.pollAt_spec order h.runtime)
      (fun events _ hpolled => .polled now events rfl hpolled .rfl) (fun _ _ hf => hf.elim)
      fun p => p

theorem removesEnded (env : RuntimeEnv) (h : RuntimeHost P) (c : RuntimeCall P) :
    RemovesEnded env h c := by
  intro h' hstep
  have hnone {entries : List LogEntry} (source : String × UInt64)
      (hentries : ∀ event, .emitted source event ∉ entries)
      (hup : h.Up source → h'.runtime.generations source.1 ≠ none) :
      h.Up source ∧ h'.runtime.generations source.1 = none ↔
        ∃ event : LanguageRuntimeEvent, event.terminal ∧ .emitted source event ∈ entries :=
    iff_of_false (fun hgone => hup hgone.1 hgone.2)
      fun ⟨event, _, hmem⟩ => hentries event hmem
  cases step_called hstep with
  | same hlog hup =>
    refine ⟨[], hlog.trans (List.append_nil _).symm, fun source => ?_⟩
    refine hnone source (fun _ => List.not_mem_nil) fun hs => ?_
    rw [hup, hs]
    exact Option.some_ne_none _
  | started started hlog hup =>
    refine ⟨_, hlog, fun source => hnone source (fun event hmem => ?_) fun hs => ?_⟩
    · cases List.mem_singleton.mp hmem
    · rw [hup]
      dsimp only
      split
      · exact Option.some_ne_none _
      · rw [hs]
        exact Option.some_ne_none _
  | polled now events hlog hpolled =>
    refine ⟨_, hlog, fun source => ?_⟩
    rw [hpolled.gone]
    constructor
    · rintro ⟨hup, hnone | ⟨e, he, ht, hl⟩⟩
      · cases hup.symm.trans hnone
      · have hgeneration := hpolled.up e he
        rw [hl] at hgeneration
        have hsource : e.1 = source :=
          Prod.ext hl (Option.some.inj (hgeneration.symm.trans hup))
        exact ⟨e.2, ht, List.mem_map.mpr ⟨e, he, by rw [hsource]⟩⟩
    · rintro ⟨event, ht, hmem⟩
      obtain ⟨e, he, heq⟩ := List.mem_map.mp hmem
      cases heq
      exact ⟨hpolled.up e he, .inr ⟨e, he, ht, rfl⟩⟩

/-- A call keeps the log sound exactly where it is calm. -/
theorem Sound.step (hs : h.Sound) (hcalm : Calm env h c)
    (hstep : step env h c = some h') : h'.Sound := by
  cases step_called hstep with
  | same hlog hup =>
    refine ⟨hlog ▸ hs.once, fun source hsource => ?_⟩
    rw [hlog]
    exact hs.up source (by rwa [Up, hup] at hsource)
  | started started hlog hup =>
    refine ⟨hlog ▸ endsOnce_started hs.once, fun source hsource hended => ?_⟩
    rw [hlog, ended_started] at hended
    rw [Up, hup] at hsource
    dsimp only at hsource
    split at hsource
    · next hl => exact hended.2 (Prod.ext hl (Option.some.inj hsource).symm)
    · exact hs.up source hsource hended.1
  | polled now events hlog hpolled hcalm' =>
    have hup : ∀ e ∈ events, ¬Ended e.1 h.log := fun e he => hs.up e.1 (hpolled.up e he)
    refine ⟨?_, fun source hsource hended => ?_⟩
    · rw [hlog]
      exact (endsOnce_emitted hs.once hup).mpr (hpolled.once_iff.mpr (hcalm'.mp hcalm))
    · rw [hlog, ended_emitted (hs.up source (hpolled.kept _ _ hsource))] at hended
      obtain ⟨e, he, ht, rfl⟩ := hended
      cases hsource.symm.trans ((hpolled.gone _).mpr (.inr ⟨e, he, ht, rfl⟩))

theorem Sound.calm (hs : h.Sound) (hstep : RuntimeHost.step env h c = some h')
    (honce : EndsOnce h'.log) : Calm env h c := by
  cases step_called hstep with
  | same hlog hup hcalm => exact hcalm
  | started source hlog hup hcalm => exact hcalm
  | polled now events hlog hpolled hcalm =>
    rw [hlog, endsOnce_emitted hs.once fun e he => hs.up e.1 (hpolled.up e he)] at honce
    exact hcalm.mpr (hpolled.once_iff.mp honce)

theorem endsOnce_before (hstep : step env h c = some h')
    (honce : EndsOnce h'.log) : EndsOnce h.log := by
  cases step_called hstep with
  | same hlog => exact hlog ▸ honce
  | started source hlog | polled now events hlog => exact Each.left (hlog ▸ honce)

/-! ### The law -/

/-- No event comes of a generation that had its terminal event, and the process goes with that
event, in exactly the runs whose polls are calm. -/
theorem terminal_law (env : RuntimeEnv) (calls : List (RuntimeCall P)) (h : RuntimeHost P)
    (hrun : calls.foldlM (step env) new = some h) :
    EndsOnce h.log ∧ Along (step env) (RemovesEnded env) calls new ↔
      Along (step env) (Calm env) calls new := by
  have hremoves : Along (step env) (RemovesEnded env) calls (new : RuntimeHost P) :=
    (along_true calls new).mono_in (I := fun _ => True) trivial
      fun h c _ _ => ⟨removesEnded env h c, fun _ _ => trivial⟩
  rw [and_iff_left hremoves]
  exact along_iff_last (fun _ hs => hs.once) (fun _ _ _ hs hc hstep => hs.step hc hstep)
    (fun _ _ _ hs hstep honce => hs.calm hstep honce) (fun _ _ _ => endsOnce_before) sound_new hrun

/-- A process that reads and exits as it is told. -/
structure ScriptedProcess where
  reads : List (Except String (List UInt8))
  exit : Option ProcessExit

instance : LanguageProcess ScriptedProcess where
  write _ := pure ()
  tryRead := do
    match (← get).reads with
    | [] => pure none
    | read :: reads =>
      modify fun process => { process with reads }
      let bytes ← ofExcept read
      pure (some bytes)
  tryWait := do pure (← get).exit
  terminate _ := pure ()

/-- No body is JSON, and no path has a URI. -/
def noJson : RuntimeEnv where
  toVec _ := .ok []
  fromSlice _ := none
  fileUri _ _ := .error "document path could not be represented as a file URI"

/-- A server that wrote `bytes` and exited when it is polled. -/
def crash (bytes : List UInt8) : List (RuntimeCall ScriptedProcess) :=
  [.finishStart "workspace" "rust" 1 ⟨[47]⟩
      (some (.ok ⟨[.ok bytes], some ⟨some 101, false⟩⟩)) ⟨0, Nat.zero_le _⟩,
    .poll ⟨0, Nat.zero_le _⟩ (.sorted String)]

theorem terminal_law_crash : ∃ h, (crash []).foldlM (step noJson) new = some h ∧
    (EndsOnce h.log ∧ Along (step noJson) (RemovesEnded noJson) (crash []) new ↔
      Along (step noJson) (Calm noJson) (crash []) new) :=
  ⟨_, rfl, terminal_law noJson (crash []) _ rfl⟩

/-- A server that wrote a line that is no header, and exited, fails twice in one poll. -/
theorem crash_ends_twice : ¬∀ (calls : List (RuntimeCall ScriptedProcess))
    (h : RuntimeHost ScriptedProcess), calls.foldlM (step noJson) new = some h →
    EndsOnce h.log ∧ Along (step noJson) (RemovesEnded noJson) calls new := by
  intro hall
  have honce := (hall (crash [120, 13, 10, 13, 10]) _ rfl).1
  have hsecond := honce
    [.started ("rust", 1), .emitted ("rust", 1) (.failed "rust" 1 "frame header is malformed")]
    (.emitted ("rust", 1) (.failed "rust" 1 "language server exited with Some(101)")) [] rfl
  refine hsecond ("rust", 1) _ rfl ⟨[.started ("rust", 1)], _, [], rfl, ?_, ?_⟩
  · exact ⟨.failed "rust" 1 "frame header is malformed", rfl, rfl⟩
  · exact fun entry hmem => absurd hmem List.not_mem_nil

end RuntimeHost

end Strukt.App
