import Strukt.Session.ServiceValid

/-!
# What the service's methods do

`Transition call s s'` lists the effects that a call of a method can have on a valid service, its
errors included; `call` names the panes and generations that it is an event of, and the sizes that
it brings (`Call`). Each method has one lemma (`*_spec`) that says which effects are its own. `Transition.valid` is the invariant's
step: every effect leaves a valid service.
-/

namespace Strukt

open Method SessionCatalog

variable {P : Platform}

namespace SessionService

/-- What a call is about: the panes and generations that it is an event of, the sizes of the starts
and resizes that it makes, the catalogs that it installs, the panes that it adds and takes, and the
runtime that it drained. -/
structure Call (P : Platform) where
  event : PaneId → UInt64 → Prop
  start : PaneId → TerminalSize → Prop
  resize : PaneId → TerminalSize → Prop
  install : SessionCatalog → Prop
  turnover : Turnover
  drained : TerminalRuntime P → Prop

variable {s s' s'' : SessionService P} {E : PaneId → UInt64 → Prop} {C : Call P}

/-- The terminal's grid has a revision above the one that the service recorded for the pane. -/
def RaisesOutput (s : SessionService P) (p : PaneId) (t : TerminalPaneId) : Prop :=
  ∃ r, s.runtime.panes.get? t = some r ∧
    (s.terminalRevisions.get? p).getD 0 < (r.model.snapshot 0).revision

/-- The terminals `l` were looked at by a tick. -/
structure Ticked (E : PaneId → UInt64 → Prop) (l : List TerminalPaneId)
    (s s' : SessionService P) : Prop where
  frame : Frame s s'
  runtime : s'.runtime = s.runtime
  catalog : Touches E s.catalog s'.catalog
  raised : ∀ p, ∀ t ∈ l, s.terminalPanes.get? p = some t → s.RaisesOutput p t →
    s'.outputRevisions.get? p = some ((s.outputRevisions.get? p).getD 0).satSucc
  kept : ∀ p, (∀ t ∈ l, s.terminalPanes.get? p = some t → ¬s.RaisesOutput p t) →
    s'.outputRevisions.get? p = s.outputRevisions.get? p
  recorded : ∀ p, (∀ t ∈ l, s.terminalPanes.get? p ≠ some t) →
    s'.terminalRevisions.get? p = s.terminalRevisions.get? p
  clients : s'.attachedClients = s.attachedClients

/-- The effects of a call on a valid service. -/
inductive Transition (C : Call P) (s s' : SessionService P) : Prop
  /-- Nothing but flags, counts and attention. -/
  | quiet (frame : Frame s s') (outputs : s'.outputRevisions = s.outputRevisions)
    (catalog : s'.catalog = s.catalog) (runtime : s'.runtime = s.runtime)
  /-- A process came, went or was called. -/
  | process (frame : Frame s s') (outputs : s'.outputRevisions = s.outputRevisions)
    (catalog : Touches C.event s.catalog s'.catalog) (runtime : s'.runtime.Valid) (t : TerminalPaneId)
    (changes : TerminalRuntime.Changes t
      (fun r r' => r'.generation = r.generation ∧ r'.model = r.model) s.runtime s'.runtime)
  /-- A terminal was resized. -/
  | resize (frame : Frame s s') (outputs : s'.outputRevisions = s.outputRevisions)
    (catalog : Touches C.event s.catalog s'.catalog) (pane : PaneId) (t : TerminalPaneId)
    (size : TerminalSize) (r r' : PaneRuntime P) (asked : C.resize pane size)
    (terminal : s.terminalPanes.get? pane = some t)
    (get : s.runtime.panes.get? t = some r)
    (runtime : s'.runtime = { s.runtime with panes := s.runtime.panes.insert t r' })
    (resizes : TerminalRuntime.Resizes size r r')
  /-- The runtime was drained. -/
  | tick (changed : SortedMap TerminalPaneId Unit) (rt : TerminalRuntime P) (asked : C.drained rt)
    (drained : TerminalRuntime.Drained changed s.runtime rt)
    (ticked : Ticked C.event changed.keys { s with runtime := rt } s')
  /-- The catalog was changed by one of its operations. -/
  | mutate (pruned : Pruned s s') (valid : s'.catalog.Valid)
    (evolves : s.catalog.Evolves C.turnover s'.catalog)
    (revision : s'.catalog.revision = s.catalog.revision.satSucc)
  /-- A stopped catalog took the place of the empty one. -/
  | replace (frame : Frame s s') (outputs : s'.outputRevisions = s.outputRevisions)
    (runtime : s'.runtime = s.runtime) (empty : s.catalog.paneIds = [])
    (valid : s'.catalog.Valid) (asked : C.install s'.catalog)
    (stopped : ∀ k p d, (k, p, d) ∈ s'.catalog.placements → d.generation = 0)
  /-- A pane was started under its next generation. -/
  | start (k : SessionId) (pane : PaneId) (d d' : SessionPane) (t : TerminalPaneId)
    (size : TerminalSize) (asked : C.start pane size)
    (placed : (k, pane, d) ∈ s.catalog.placements)
    (generation : d'.generation = d.generation.satSucc) (event : C.event pane d'.generation)
    (catalog : WritesPane k pane d' s.catalog s'.catalog)
    (terminal : s.terminalPanes.get? pane = some t ∨
      s.terminalPanes.get? pane = none ∧ t = ⟨s.nextTerminal⟩)
    (terminalPanes : s'.terminalPanes = s.terminalPanes.insert pane t)
    (sessionPanes : s'.sessionPanes = s.sessionPanes.insert t pane)
    (next : s.nextTerminal ≤ s'.nextTerminal ∧ t.value < s'.nextTerminal)
    (r : PaneRuntime P) (runtime : s'.runtime = { s.runtime with panes := s.runtime.panes.insert t r })
    (new : r = { PaneRuntime.new d'.generation (.new size.grid s.runtime.scrollbackLimit) with
      state := .starting })
    (outputs : s'.outputRevisions = s.outputRevisions)
    (historical : s'.historical = s.historical.remove pane)

theorem Transition.refl (s : SessionService P) : Transition C s s := .quiet (.refl s) rfl rfl rfl

/-! ## The invariant -/

theorem generation_changes {t u : TerminalPaneId} {rt rt' : TerminalRuntime P}
    (h : TerminalRuntime.Changes t
      (fun r r' => r'.generation = r.generation ∧ r'.model = r.model) rt rt') :
    (rt'.panes.get? u).map (·.generation) = (rt.panes.get? u).map (·.generation) := by
  rcases h with rfl | ⟨r, r', hr, rfl, hg, -⟩
  · rfl
  · by_cases hu : u = t
    · subst hu; simp [hr, hg]
    · simp [hu]

variable {l : List TerminalPaneId}

theorem Ticked.outputs_sub (h : Ticked E l s s')
    (ho : ∀ p ∈ s.outputRevisions.keys, p ∈ s.terminalPanes.keys) :
    ∀ p ∈ s'.outputRevisions.keys, p ∈ s.terminalPanes.keys := by
  intro p hp
  by_contra hn
  rw [← SortedMap.get?_eq_none] at hn
  obtain ⟨o, hpo⟩ := SortedMap.mem_keys_iff.mp hp
  rw [h.kept p fun t _ ht => absurd ht (by simp [hn])] at hpo
  exact SortedMap.get?_eq_none.mp hn (ho p (SortedMap.mem_keys_of_get? hpo))

variable {rt : TerminalRuntime P}

theorem Valid.drained (hv : s.Valid) {changed : SortedMap TerminalPaneId Unit}
    (h : TerminalRuntime.Drained changed s.runtime rt) :
    Valid { s with runtime := rt } := by
  refine hv.frame ⟨rfl, rfl, rfl, rfl⟩ hv.outputs (.refl hv.catalog : Touches (fun _ _ => False) _ _)
    (hv.runtime.drained h) fun t => ?_
  dsimp only
  cases hr : rt.panes.get? t with
  | none =>
    have : t ∉ s.runtime.panes.keys := h.keys ▸ SortedMap.get?_eq_none.mp hr
    rw [SortedMap.get?_eq_none.mpr this]
  | some r' =>
    obtain ⟨r, hr₀, hp, -⟩ := h.pane t r' hr
    rw [hr₀, Option.map_some, Option.map_some, hp.generation]

theorem Transition.valid (hv : s.Valid) (h : Transition C s s') : s'.Valid := by
  cases h with
  | quiet hf ho hc hr =>
    have htouch : Touches C.event s.catalog s'.catalog := by
      rw [hc]
      exact .refl hv.catalog
    exact hv.frame hf (ho ▸ hv.outputs) htouch (hr ▸ hv.runtime) fun t => by rw [hr]
  | process hf ho hc hr t hch =>
    exact hv.frame hf (ho ▸ hv.outputs) hc hr fun u => generation_changes hch
  | resize hf ho hc pane t size r r' ha ht hr hrt hz =>
    refine hv.frame hf (ho ▸ hv.outputs) hc (hrt ▸ hv.runtime.resizes hr hz) fun u => ?_
    by_cases hu : u = t
    · subst hu; simp [hrt, hr, hz.generation]
    · simp [hrt, hu]
  | tick changed rt _ hd ht =>
    have hv' := hv.drained hd
    refine hv'.frame ht.frame (ht.outputs_sub hv'.outputs) ht.catalog ?_ fun u => ?_
    · rw [ht.runtime]; exact hv'.runtime
    · rw [ht.runtime]
  | mutate hp hc he hr => exact hv.mutated hp hc he
  | replace hf ho hr he hc ha hg => exact hv.imported hf ho hr he hc hg
  | start k pane d d' t size ha hd hg hE hw ht htp hsp hn r hr hnew ho hh =>
    subst hnew
    have hother : ∀ p u, p ≠ pane → s.terminalPanes.get? p = some u → u ≠ t := by
      rintro p u hp hu rfl
      rcases ht with ht | ⟨-, rfl⟩
      · exact hp (hv.terminal_inj hu ht)
      · exact absurd (hv.counted p _ hu) (lt_irrefl _)
    have htouch : ∀ p, p ∈ s'.catalog.paneIds ↔ p ∈ s.catalog.paneIds := fun p =>
      hw.mem_paneIds hd
    refine ⟨hw.valid, hr ▸ hv.runtime.restart, fun p hp => ?_, fun p u => ?_, fun p u hu => ?_,
      fun u r hu => ?_, fun j p x u hx hu => ?_, fun j p x hx hu => ?_, fun p hp => ?_,
      fun p hp => ?_⟩
    · rw [htp, SortedMap.mem_keys_insert] at hp
      rw [htouch]
      rcases hp with rfl | hp
      · exact mem_paneIds_of_mem hd
      · exact hv.placed p hp
    · rw [htp, hsp, SortedMap.get?_insert, SortedMap.get?_insert]
      by_cases hp : p = pane <;> by_cases hu : u = t
      · simp [hp, hu]
      · simp only [hp, hu, if_true, if_false, Option.some.injEq]
        rw [hv.inverse]
        refine ⟨fun h => ?_, fun h => absurd h.symm hu⟩
        rcases ht with ht | ⟨ht, -⟩
        · exact absurd (Option.some.inj (h.symm.trans ht)) hu
        · rw [ht] at h; cases h
      · simp only [hp, hu, if_true, if_false, Option.some.injEq]
        exact ⟨fun h => absurd h.symm hp, fun h => absurd rfl (hother p t hp h)⟩
      · simp only [hp, hu, if_false]
        exact hv.inverse p u
    · rw [htp, SortedMap.get?_insert] at hu
      split at hu
      · cases hu; exact hn.2
      · exact (hv.counted p u hu).trans_le hn.1
    · rw [hr, SortedMap.get?_insert] at hu
      split at hu
      · rename_i he
        exact ⟨pane, by rw [htp, he, SortedMap.get?_insert, if_pos rfl]⟩
      · rename_i he
        obtain ⟨p, hp⟩ := hv.hosted u r hu
        refine ⟨p, ?_⟩
        rw [htp, SortedMap.get?_insert]
        split
        · rename_i hpp
          subst hpp
          rcases ht with ht | ⟨ht, -⟩
          · exact absurd (Option.some.inj (hp.symm.trans ht)) he
          · rw [ht] at hp; cases hp
        · exact hp
    · rw [htp, SortedMap.get?_insert] at hu
      rcases (hw.placements _).mp hx with h | ⟨hne, h⟩
      · cases h
        rw [if_pos rfl] at hu
        cases hu
        exact ⟨_, by rw [hr, SortedMap.get?_insert, if_pos rfl], rfl⟩
      · rw [if_neg hne] at hu
        rw [hr, SortedMap.get?_insert, if_neg (hother p u hne hu)]
        exact hv.started j p x u h hu
    · rw [htp, SortedMap.get?_insert] at hu
      rcases (hw.placements _).mp hx with h | ⟨hne, h⟩
      · cases h
        rw [if_pos rfl] at hu
        cases hu
      · rw [if_neg hne] at hu
        exact hv.unstarted j p x h hu
    · rw [ho] at hp
      rw [htp, SortedMap.mem_keys_insert]
      exact .inr (hv.outputs p hp)
    · rw [hh, SortedMap.mem_keys_remove] at hp
      rw [htp, SortedMap.mem_keys_insert, not_or]
      exact ⟨hp.1, hv.history p hp.2⟩

/-! ## Parts of the methods -/

section Parts

variable {α : Type} {Q : α → SessionService P → Prop}
  {F : ServiceError → SessionService P → Prop} {B : Prop}

@[simp] theorem wp_onCatalog {x : CatalogM α} :
    wp (onCatalog x : ServiceM P α) Q F B s ↔
      wp x (fun a c => Q a { s with catalog := c })
        (fun e c => F (.catalog e) { s with catalog := c }) B s.catalog := by
  simp [onCatalog]

@[simp] theorem wp_onRuntime {x : RuntimeM P α} :
    wp (onRuntime x : ServiceM P α) Q F B s ↔
      wp x (fun a r => Q a { s with runtime := r })
        (fun e r => F (.runtime e) { s with runtime := r }) B s.runtime := by
  simp [onRuntime]

@[simp] theorem wp_markDirty {Q : Unit → SessionService P → Prop} :
    wp markDirty Q F B s ↔ Q () { s with dirty := true } := Iff.rfl

@[simp] theorem wp_expectInstance {Q : Unit → SessionService P → Prop} {i : ServiceInstanceId} :
    wp (expectInstance i) Q F B s ↔
      (i = s.serviceInstance → Q () s) ∧ (i ≠ s.serviceInstance → F .staleServiceInstance s) := by
  simp [expectInstance]

@[simp] theorem wp_expectCatalogRevision {Q : Unit → SessionService P → Prop} {e : UInt64} :
    wp (expectCatalogRevision e) Q F B s ↔ (s.catalog.revision = e → Q () s) ∧
      (s.catalog.revision ≠ e → F (.catalog (.staleRevision e s.catalog.revision)) s) := by
  simp [expectCatalogRevision]

@[simp] theorem wp_definition {Q : SessionId × SessionPane → SessionService P → Prop}
    {pane : PaneId} :
    wp (definition pane) Q F B s ↔
      (∀ k w p, s.catalog.pane pane = some (k, w, p) → Q (k, p) s) ∧
        (s.catalog.pane pane = none → F (.catalog .paneNotFound) s) := by
  simp [definition]

@[simp] theorem wp_runtimePane {Q : TerminalPaneId → SessionService P → Prop} {pane : PaneId} :
    wp (runtimePane pane) Q F B s ↔ (∀ t, s.terminalPanes.get? pane = some t → Q t s) ∧
      (s.terminalPanes.get? pane = none → F .staleGeneration s) := by
  simp [runtimePane]

@[simp] theorem wp_expectGeneration {Q : Unit → SessionService P → Prop} {k : SessionId}
    {pane : PaneId} {g : UInt64} :
    wp (expectGeneration k pane g) Q F B s ↔ (s.matchesGeneration k pane g = true → Q () s) ∧
      (s.matchesGeneration k pane g = false → F .staleGeneration s) := by
  simp [expectGeneration]

end Parts

/-- A method's call on a valid service is one of the transitions. -/
abbrev Moves {α : Type} (C : Call P) (x : ServiceM P α) (s : SessionService P) :
    Prop :=
  wp x (fun _ s' => Transition C s s') (fun _ s' => Transition C s s') True s

theorem attach_spec (i : ServiceInstanceId) : Moves C (attach i) s := by
  simp only [Moves, attach, wp_bind, wp_expectInstance, wp_get, wp_ensure, wp_modify]
  exact ⟨fun _ => ⟨fun _ => .quiet ⟨rfl, rfl, rfl, rfl⟩ rfl rfl rfl, fun _ => .refl s⟩,
    fun _ => .refl s⟩

theorem detach_spec (now : Instant) (i : ServiceInstanceId) : Moves C (detach now i) s := by
  simp only [Moves, detach, wp_bind, wp_expectInstance, wp_get, wp_ensure, wp_modify]
  exact ⟨fun _ => ⟨fun _ => .quiet ⟨rfl, rfl, rfl, rfl⟩ rfl rfl rfl, fun _ => .refl s⟩,
    fun _ => .refl s⟩

/-- The checks of `import_stopped_catalog`. -/
def AcceptsImport (s : SessionService P) (i : ServiceInstanceId) (e : UInt64)
    (catalog : SessionCatalog) : Prop :=
  i = s.serviceInstance ∧ s.catalog.revision = e ∧ s.catalog.sessions.isEmpty ∧ catalog.Valid

theorem importStoppedCatalog_spec (i : ServiceInstanceId) (e : UInt64) (catalog : SessionCatalog)
    (hA : s.AcceptsImport i e catalog → C.install catalog.stopPanes) :
    Moves C (importStoppedCatalog i e catalog) s := by
  simp only [Moves, importStoppedCatalog, wp_bind, wp_expectInstance, wp_expectCatalogRevision,
    wp_get, wp_ensure, wp_ofExcept, wp_modify]
  refine ⟨fun hi => ⟨fun he => ⟨fun hempty => ⟨fun c hc => ?_, fun _ _ => .refl s⟩,
    fun _ => .refl s⟩, fun _ => .refl s⟩, fun _ => .refl s⟩
  have hc : catalog.stoppedClone = .ok c := by
    cases h : catalog.stoppedClone with
    | error e => rw [h] at hc; cases hc
    | ok c' => rw [h] at hc; cases hc; rfl
  obtain ⟨hv, rfl⟩ := stoppedClone_eq_ok.mp hc
  have hnil : s.catalog.sessions.values = [] := by
    rw [← List.length_eq_zero_iff, SortedMap.length_values, SortedMap.length_eq_zero]
    exact hempty
  refine .replace ⟨rfl, rfl, rfl, rfl⟩ rfl rfl ?_ hv.stopPanes (hA ⟨hi, he, hempty, hv⟩)
    fun k p d hd => ?_
  · rw [SessionCatalog.paneIds, hnil]
    rfl
  · dsimp only at hd
    rw [placements_stopPanes] at hd
    obtain ⟨x, -, hx⟩ := List.mem_map.mp hd
    cases hx
    rfl

/-- A mutation by an operation on the catalog, given fresh identifiers. -/
theorem applyCatalogMutation_spec {α : Type} (hv : s.Valid) (i : ServiceInstanceId)
    {x : CatalogM α} {e : UInt64} (hx : Applies x e True C.turnover s.catalog) :
    Moves C (applyCatalogMutation i x) s := by
  simp only [Moves, applyCatalogMutation, wp_bind, wp_expectInstance, wp_onCatalog, wp_modify,
    wp_markDirty, wp_pure]
  refine ⟨fun _ => wp_mono hx (fun a c h => ?_) (fun e c h => ?_) False.elim, fun _ => .refl s⟩
  · obtain ⟨-, hu⟩ := h
    obtain ⟨hp, hc⟩ := hv.pruned c
    generalize (removedPanes { s with catalog := c }).foldl prunePane { s with catalog := c } = s'
      at hp hc
    subst hc
    refine .mutate ⟨hp.nextTerminal, hp.terminalPanes, hp.sessionPanes, hp.runtime, hp.hosted,
      hp.outputRevisions, hp.historical⟩ (hu.valid trivial) (hu.evolves trivial) hu.revision
  · subst h; exact .refl s

theorem createSession_spec (hv : s.Valid) (i : ServiceInstanceId) (e : UInt64) (name : String)
    (d : PathBuf) {rng : RandomSource} (hf : rng.FreshIn s.catalog) (ht : C.turnover = .draws rng) :
    Moves C (createSession i e name d rng) s := by
  simp only [Moves, createSession, wp_bind, wp_expectInstance, wp_onCatalog, wp_markDirty, wp_pure]
  refine ⟨fun _ => wp_mono (SessionCatalog.createSession_spec hv.catalog) (fun a c h => ?_)
    (fun _ c h => ?_) False.elim, fun _ => .refl s⟩
  · obtain ⟨-, hu⟩ := h
    rw [← ht] at hu
    have hk : ∀ p ∈ s.catalog.paneIds, p ∈ c.paneIds := by
      intro p hp
      obtain ⟨k, d, hd⟩ := mem_paneIds_iff.mp hp
      rcases (hu.evolves hf).forward _ hd with h | h
      · exact mem_paneIds_of_mem h
      · rw [ht] at h
        exact h.elim
    have hin : ∀ p, p ∉ c.paneIds → s.terminalPanes.get? p = none := fun p hp =>
      SortedMap.get?_eq_none.mpr fun hm => hp (hk p (hv.placed p hm))
    refine .mutate ⟨rfl, fun p => ?_, hv.inverse, fun _ _ _ => rfl,
      fun t r h => ⟨h, hv.hosted t r h⟩, fun p => ?_, fun p => ?_⟩ (hu.valid hf) (hu.evolves hf)
      hu.revision
    · split
      · rfl
      · exact hin p ‹_›
    · split
      · rfl
      · rename_i hp
        exact SortedMap.get?_eq_none.mpr fun hm =>
          SortedMap.get?_eq_none.mp (hin p hp) (hv.outputs p hm)
    · split
      · rfl
      · rename_i hp
        rw [not_or, not_not] at hp
        exact absurd hp.2 (SortedMap.get?_eq_none.mp (hin p hp.1))
  · subst h; exact .refl s

/-! ### Starts -/

/-- The checks of `begin_start`. -/
def AcceptsStart (s : SessionService P) (i : ServiceInstanceId) (e : UInt64) (k : SessionId)
    (pane : PaneId) (request : SpawnRequest) : Prop :=
  i = s.serviceInstance ∧ s.catalog.revision = e ∧ ∃ w d, s.catalog.pane pane = some (k, w, d) ∧
    d.workingDirectory.components = request.workingDirectory.components

/-- A job for the pane's next generation, in the state that its start leaves. -/
structure StartsJob (pane : PaneId) (s' : SessionService P) (job : ServiceStartJob P) : Prop where
  ofPane : job.pane = pane
  generation : job.runtimeJob.generation = job.generation
  terminal : s'.terminalPanes.get? pane = some job.runtimeJob.pane
  current : ∃ k d, (k, pane, d) ∈ s'.catalog.placements ∧ d.generation = job.generation

/-- The generations of the catalog and of the runtime agree, so a start never finds that they
diverged; and one that fails changes nothing. -/
theorem beginStart_spec (hv : s.Valid) (i : ServiceInstanceId) (e : UInt64) (k : SessionId)
    (pane : PaneId) (request : SpawnRequest)
    (hE : ∀ d, (k, pane, d) ∈ s.catalog.placements → C.event pane d.generation.satSucc)
    (hA : s.AcceptsStart i e k pane request → C.start pane request.size) :
    wp (beginStart i e k pane request)
      (fun job s' => Transition C s s' ∧ StartsJob pane s' job)
      (fun err s' => err ≠ .generationDiverged ∧ s' = s) True s := by
  simp only [beginStart, wp_bind, wp_expectInstance, wp_definition, wp_ensure,
    wp_expectCatalogRevision]
  refine ⟨fun hi => ⟨fun k' w d hp => ⟨fun hreq => ⟨fun he => ?_, fun _ => ⟨by simp, trivial⟩⟩,
    fun _ => ⟨by simp, trivial⟩⟩, fun _ => ⟨by simp, trivial⟩⟩, fun _ => ⟨by simp, trivial⟩⟩
  obtain ⟨rfl, hdir⟩ := hreq
  have hd := pane_mem hp
  -- The terminal pane: the one the pane has, or the next of the counter.
  have hterm : wp (ensureRuntimePane pane) (fun t s₁ => s₁.catalog = s.catalog ∧
      s₁.runtime = s.runtime ∧ s₁.historical = s.historical ∧
      s₁.outputRevisions = s.outputRevisions ∧
      (s.terminalPanes.get? pane = some t ∨
        s.terminalPanes.get? pane = none ∧ t = ⟨s.nextTerminal⟩) ∧
      s₁.terminalPanes = s.terminalPanes.insert pane t ∧
      s₁.sessionPanes = s.sessionPanes.insert t pane ∧
      s.nextTerminal ≤ s₁.nextTerminal ∧ t.value < s₁.nextTerminal) (fun _ _ => False) False s := by
    simp only [ensureRuntimePane, wp_bind, wp_get]
    cases ht : s.terminalPanes.get? pane with
    | some t =>
      exact ⟨rfl, rfl, rfl, rfl, .inl rfl, (SortedMap.insert_eq_self ht).symm,
        (SortedMap.insert_eq_self ((hv.inverse pane t).mpr ht)).symm, le_rfl,
        hv.counted pane t ht⟩
    | none =>
      exact ⟨rfl, rfl, rfl, rfl, .inr ⟨rfl, rfl⟩, rfl, rfl, Nat.le_succ _, Nat.lt_succ_self _⟩
  refine wp_mono hterm (fun t s₁ h => ?_) (fun _ _ => False.elim) False.elim
  obtain ⟨hc, hr, hh, ho, ht, htp, hsp, hn⟩ := h
  -- The runtime's next generation is the catalog's.
  have hgen : s.runtime.nextGeneration t = d.generation.satSucc := by
    rcases ht with ht | ⟨ht, rfl⟩
    · obtain ⟨r, hr, hrg⟩ := hv.started k' pane d t hd ht
      simp [TerminalRuntime.nextGeneration, hr, hrg]
    · have hnone : s.runtime.panes.get? ⟨s.nextTerminal⟩ = none := by
        by_contra hne
        obtain ⟨r, hr⟩ := Option.ne_none_iff_exists'.mp hne
        obtain ⟨p, hp⟩ := hv.hosted _ r hr
        exact absurd (hv.counted p _ hp) (lt_irrefl _)
      rw [hv.unstarted k' pane d hd ht]
      simp only [TerminalRuntime.nextGeneration, hnone]
      rfl
  simp only [wp_modify, wp_onRuntime, hr]
  refine wp_mono (TerminalRuntime.beginRestart_spec request) (fun job rt h => ?_)
    (fun _ _ => False.elim) False.elim
  obtain ⟨hjp, hjg, rfl⟩ := h
  simp only [wp_onCatalog, hc]
  refine wp_mono (wp_and (beginPaneGeneration_spec hv.catalog)
    (beginPaneGeneration_succeeds hv.catalog he.symm hd request.size.rows_ne
      request.size.columns_ne)) (fun g' c h => ?_) (fun _ _ h => h.2.elim) (fun h => h.1.elim)
  obtain ⟨⟨-, d₁, hd₁, rfl, hw⟩, -⟩ := h
  cases hv.catalog.placement_eq hd hd₁ rfl
  simp only [wp_ite, wp_bind, wp_markDirty, wp_pure, ne_eq]
  refine ⟨fun hne => absurd (hjg.trans hgen) hne, fun _ => ⟨?_, rfl, hjg.trans hgen, ?_, ?_⟩⟩
  · exact .start k' pane d _ t request.size (hA ⟨hi, he, w, d, hp, hdir⟩) hd rfl (hE d hd) hw ht
      htp hsp hn _ (by rw [← hgen]) rfl ho (by rw [hh])
  · dsimp only
    rw [htp, hjp, SortedMap.get?_insert, if_pos rfl]
  · exact ⟨k', _, (hw.placements _).mpr (.inl rfl), rfl⟩

/-! ### Processes -/

variable {t : TerminalPaneId}

theorem recordLifecycle_spec (hc : s.catalog.Valid) {k : SessionId} {pane : PaneId} {g : UInt64}
    (hE : E pane g) :
    wp (recordLifecycle k pane g t)
      (fun _ s' => ∃ c, Touches E s.catalog c ∧ s' = { s with catalog := c, dirty := true })
      (fun _ s' => ∃ c, Touches E s.catalog c ∧ s' = { s with catalog := c }) False s := by
  simp only [recordLifecycle, wp_bind, wp_get, wp_okOr, wp_discard, wp_onCatalog, wp_markDirty]
  refine ⟨fun st _ => wp_mono (setGenerationLifecycle_touches hc hE) (fun _ c h => ⟨c, h, rfl⟩)
    (fun _ c h => ⟨c, h, rfl⟩) id, fun _ => ⟨s.catalog, .refl hc, rfl⟩⟩

/-- A write to a pane of the runtime that keeps its model, and a touch of the catalog. -/
theorem Transition.of_process (hv : s.Valid)
    {spawned : Option (TerminalProcess P)} {g : UInt64}
    (hs : ∀ p ∈ spawned, p.owner = (t, g))
    (h : TerminalRuntime.Changes t
      (fun r r' => r.generation = g ∧ TerminalRuntime.Keeps spawned r r') s.runtime rt)
    {c : SessionCatalog} (hc : Touches C.event s.catalog c) {d : Bool} :
    Transition C s { s with runtime := rt, catalog := c, dirty := d } := by
  rcases h with rfl | ⟨r, r', hr, rfl, rfl, hk⟩
  · exact .process ⟨rfl, rfl, rfl, rfl⟩ rfl hc hv.runtime t (.inl rfl)
  · exact .process ⟨rfl, rfl, rfl, rfl⟩ rfl hc (hv.runtime.keeps hr hk hs) t
      (.inr ⟨r, r', hr, rfl, hk.generation, hk.model⟩)

theorem Transition.of_keeps (hv : s.Valid)
    (h : TerminalRuntime.Changes t (TerminalRuntime.Keeps none) s.runtime rt) :
    Transition C s { s with runtime := rt } := by
  rcases h with rfl | ⟨r, r', hr, rfl, hk⟩
  · exact .process ⟨rfl, rfl, rfl, rfl⟩ rfl (.refl hv.catalog) hv.runtime t (.inl rfl)
  · exact .process ⟨rfl, rfl, rfl, rfl⟩ rfl (.refl hv.catalog)
      (hv.runtime.keeps hr hk (by simp)) t (.inr ⟨r, r', hr, rfl, hk.generation, hk.model⟩)

/-- The end of both completions: the runtime has taken one, or dropped it, and the pane's lifecycle
is recorded. -/
theorem recorded_spec (hv : s.Valid)
    {spawned : Option (TerminalProcess P)} {g : UInt64} (hs : ∀ p ∈ spawned, p.owner = (t, g))
    (h : TerminalRuntime.Changes t
      (fun r r' => r.generation = g ∧ TerminalRuntime.Keeps spawned r r') s.runtime rt)
    {k : SessionId} {pane : PaneId} {u : TerminalPaneId} {g' : UInt64} (hE : C.event pane g')
    (result : Except ServiceError Unit) :
    wp (recordLifecycle k pane g' u)
      (fun _ s' => wp (ofExcept result : ServiceM P Unit) (fun _ s' => Transition C s s')
        (fun _ s' => Transition C s s') True s')
      (fun _ s' => Transition C s s') True { s with runtime := rt } := by
  refine wp_mono (recordLifecycle_spec (s := { s with runtime := rt }) hv.catalog hE)
    (fun _ s' hs' => ?_) (fun _ s' hs' => ?_) False.elim
  · obtain ⟨c, hc, rfl⟩ := hs'
    have ht := Transition.of_process hv hs h hc (d := true)
    rw [wp_ofExcept]
    exact ⟨fun _ _ => ht, fun _ _ => ht⟩
  · obtain ⟨c, hc, rfl⟩ := hs'
    exact Transition.of_process hv hs h hc

theorem finishStart_spec (hv : s.Valid) (completion : ServiceStartCompletion P)
    (hp : ∀ p, completion.result = .ok p →
      p.owner = (completion.runtimePane, completion.generation))
    (hE : C.event completion.pane completion.generation) : Moves C (finishStart completion) s := by
  have hown : ∀ p ∈ completion.result.toOption,
      p.owner = (completion.runtimePane, completion.generation) := by
    intro p hr
    cases hres : completion.result with
    | error m => rw [hres] at hr; cases hr
    | ok q => rw [hres] at hr; cases hr; exact hp p hres
  simp only [Moves, finishStart, wp_bind, wp_expectInstance, wp_expectGeneration, wp_attempt,
    wp_onRuntime]
  refine ⟨fun _ => ⟨fun _ => ?_, fun _ => .refl s⟩, fun _ => .refl s⟩
  exact wp_mono TerminalRuntime.finishRestart_spec
    (fun _ rt h => recorded_spec hv hown h hE (.ok ()))
    (fun e rt h => recorded_spec hv hown h hE (.error (.runtime e))) False.elim

theorem finishTerminate_spec (hv : s.Valid) (completion : ServiceTerminateCompletion)
    (hE : C.event completion.pane completion.generation) : Moves C (finishTerminate completion) s := by
  simp only [Moves, finishTerminate, wp_bind, wp_expectInstance, wp_expectGeneration, wp_attempt,
    wp_onRuntime]
  refine ⟨fun _ => ⟨fun _ => ?_, fun _ => .refl s⟩, fun _ => .refl s⟩
  exact wp_mono (TerminalRuntime.finishTerminate_spec completion.runtimeCompletion)
    (fun _ rt h => recorded_spec hv (by simp) h hE (.ok ()))
    (fun e rt h => recorded_spec hv (by simp) h hE (.error (.runtime e))) False.elim

theorem write_spec (hv : s.Valid) (i : ServiceInstanceId) (pane : PaneId) (g : UInt64)
    (bytes : List UInt8) : Moves C (write i pane g bytes) s := by
  simp only [Moves, write, wp_bind, wp_expectInstance, wp_definition, wp_expectGeneration,
    wp_runtimePane, wp_onRuntime]
  refine ⟨fun _ => ⟨fun _ _ _ _ => ⟨fun _ => ⟨fun t _ => ?_, fun _ => .refl s⟩, fun _ => .refl s⟩,
    fun _ => .refl s⟩, fun _ => .refl s⟩
  exact wp_mono (TerminalRuntime.write_spec bytes) (fun _ rt h => .of_keeps hv h)
    (fun _ rt h => .of_keeps hv h) False.elim

/-- The checks of `resize`, and the process's answer to it. -/
def AcceptsResize (s : SessionService P) (i : ServiceInstanceId) (e : UInt64) (pane : PaneId)
    (g : UInt64) (size : TerminalSize) : Prop :=
  i = s.serviceInstance ∧ s.catalog.revision = e ∧
    (∃ k w d, s.catalog.pane pane = some (k, w, d) ∧ s.matchesGeneration k pane g) ∧
    ∃ t r p, s.terminalPanes.get? pane = some t ∧ s.runtime.panes.get? t = some r ∧
      r.process = some p ∧ (P.resize p.process size).1 = .ok ()

theorem resize_spec (hv : s.Valid) (i : ServiceInstanceId) (e : UInt64) (pane : PaneId)
    (g : UInt64) (size : TerminalSize)
    (hA : s.AcceptsResize i e pane g size → C.resize pane size) :
    Moves C (resize i e pane g size) s := by
  simp only [Moves, resize, wp_bind, wp_expectInstance, wp_expectCatalogRevision, wp_definition,
    wp_expectGeneration, wp_runtimePane, wp_onRuntime]
  refine ⟨fun hi => ⟨fun he => ⟨fun k w d hp => ⟨fun hg => ⟨fun t ht => ?_, fun _ => .refl s⟩,
    fun _ => .refl s⟩, fun _ => .refl s⟩, fun _ => .refl s⟩, fun _ => .refl s⟩
  refine wp_mono (TerminalRuntime.resize_spec size) (fun _ rt h => ?_)
    (fun _ rt h => .of_keeps hv h) id
  obtain ⟨r, r', hr, rfl, hz⟩ := h
  obtain ⟨q, hq, hans⟩ := hz.accepted
  have ha := hA ⟨hi, he, ⟨k, w, d, hp, hg⟩, t, r, q, ht, hr, hq, hans⟩
  simp only [wp_onCatalog, wp_markDirty]
  exact wp_mono (setPaneSize_touches hv.catalog)
    (fun _ c hc => .resize ⟨rfl, rfl, rfl, rfl⟩ rfl hc pane t size r r' ha ht hr rfl hz)
    (fun _ c hc => .resize ⟨rfl, rfl, rfl, rfl⟩ rfl hc pane t size r r' ha ht hr rfl hz) False.elim

theorem beginTerminate_spec (hv : s.Valid) (i : ServiceInstanceId) (e : UInt64) (k : SessionId)
    (pane : PaneId) (g : UInt64) (grace : Nat) : Moves C (beginTerminate i e k pane g grace) s := by
  simp only [Moves, beginTerminate, wp_bind, wp_expectInstance, wp_expectCatalogRevision,
    wp_expectGeneration, wp_runtimePane, wp_onRuntime, wp_pure]
  refine ⟨fun _ => ⟨fun _ => ⟨fun _ => ⟨fun t _ => ?_, fun _ => .refl s⟩, fun _ => .refl s⟩,
    fun _ => .refl s⟩, fun _ => .refl s⟩
  exact wp_mono (TerminalRuntime.beginTerminate_spec grace) (fun _ rt h => .of_keeps hv h.2)
    (fun _ rt h => .of_keeps hv h) False.elim

/-! ### Snapshots -/

theorem screens_insert {pane : PaneId} {screen : PaneScreenSnapshot}
    (h : s.historical.get? pane = some screen) :
    screens { s with historical := s.historical.insert pane screen.markViewed } = s.screens := by
  funext p
  by_cases hp : p = pane
  · subst hp; simp [screens, h, PaneScreenSnapshot.markViewed]
  · simp [screens, hp]

theorem snapshot_spec (pane : PaneId) : Moves C (snapshot pane) s := by
  simp only [Moves, snapshot, wp_bind, wp_definition, wp_get, wp_orPanic]
  refine ⟨fun k w p _ => ⟨fun viewed _ => ?_, fun _ => trivial⟩, fun _ => .refl s⟩
  split
  · simp only [wp_bind, wp_okOr, wp_ite, wp_modify, wp_pure]
    refine ⟨fun screen hs => ⟨fun _ => ⟨fun _ => ?_, fun _ => ?_⟩, fun _ => .refl s⟩,
      fun _ => .refl s⟩
    · exact .quiet ⟨rfl, rfl, rfl, screens_insert hs⟩ rfl rfl rfl
    · exact .quiet ⟨rfl, rfl, rfl, rfl⟩ rfl rfl rfl
  · simp only [wp_bind, wp_okOr, wp_ofExcept, wp_ite, wp_modify, wp_pure]
    exact ⟨fun _ _ => ⟨fun _ _ => ⟨fun _ => .quiet ⟨rfl, rfl, rfl, rfl⟩ rfl rfl rfl,
      fun _ => .refl s⟩, fun _ _ => .refl s⟩, fun _ => .refl s⟩

theorem takePersistence_spec : Moves C takePersistence s := by
  simp only [Moves, takePersistence, wp_bind, wp_get, wp_ite, wp_ofExcept, wp_modify, wp_pure]
  exact ⟨fun _ => .refl s, fun _ => ⟨fun _ _ => ⟨fun _ _ => .quiet ⟨rfl, rfl, rfl, rfl⟩ rfl rfl rfl,
    fun _ _ => .refl s⟩, fun _ _ => .refl s⟩⟩

/-! ### Ticks -/

theorem Ticked.nil (hv : s.Valid) : Ticked E [] s s :=
  ⟨.refl s, rfl, .refl hv.catalog, fun _ _ ht => absurd ht List.not_mem_nil, fun _ _ => rfl,
    fun _ _ => rfl, rfl⟩

/-- A terminal whose pane has no newer output. -/
theorem Ticked.idle (hv : s.Valid)
    (h : ∀ p, s.terminalPanes.get? p = some t → ¬s.RaisesOutput p t) : Ticked E [t] s s := by
  refine ⟨.refl s, rfl, .refl hv.catalog, fun p u hu ht hr => ?_, fun _ _ => rfl, fun _ _ => rfl,
    rfl⟩
  rw [List.mem_singleton] at hu
  exact absurd hr (h p (hu ▸ ht) ∘ (hu ▸ ·))

/-- One terminal: its pane's output revision rises exactly when its grid's revision did. -/
theorem tickPane_spec (hv : s.Valid) (t : TerminalPaneId)
    (hE : ∀ p r, s.terminalPanes.get? p = some t → s.runtime.panes.get? t = some r →
      E p r.generation) :
    wp (tickPane t) (fun _ s' => Ticked E [t] s s') (fun _ _ => False) True s := by
  simp only [tickPane, wp_bind, wp_get]
  cases hsp : s.sessionPanes.get? t with
  | none =>
    refine Ticked.idle hv fun p hp => ?_
    rw [(hv.inverse p t).mpr hp] at hsp
    cases hsp
  | some pane =>
    have hpt := (hv.inverse pane t).mp hsp
    obtain ⟨k, d, hd⟩ := mem_paneIds_iff.mp (hv.placed pane (SortedMap.mem_keys_of_get? hpt))
    obtain ⟨w, hw⟩ := hv.catalog.pane_iff.mpr hd
    obtain ⟨r, hr, hg⟩ := hv.started k pane d t hd hpt
    have hproj : s.runtime.projection t = some ⟨r.generation, r.state, r.model.snapshot 0⟩ := by
      simp [TerminalRuntime.projection, hr]
    have hraise : s.RaisesOutput pane t ↔
        (s.terminalRevisions.get? pane).getD 0 < (r.model.snapshot 0).revision := by
      constructor
      · rintro ⟨r', hr', hlt⟩
        cases hr.symm.trans hr'
        exact hlt
      · exact fun h => ⟨r, hr, h⟩
    have hpane : ∀ p u, u ∈ [t] → s.terminalPanes.get? p = some u → p = pane ∧ u = t := by
      intro p u hu hp
      obtain rfl := List.mem_singleton.mp hu
      exact ⟨hv.terminal_inj hp hpt, rfl⟩
    -- The lifecycle is recorded on top of what the output left.
    have hend : ∀ s₁ : SessionService P, s₁.catalog = s.catalog → Frame s s₁ →
        s₁.runtime = s.runtime → s₁.attachedClients = s.attachedClients →
        (s.RaisesOutput pane t → s₁.outputRevisions.get? pane =
          some ((s.outputRevisions.get? pane).getD 0).satSucc) →
        (∀ p, (p = pane → ¬s.RaisesOutput pane t) →
          s₁.outputRevisions.get? p = s.outputRevisions.get? p) →
        (∀ p, p ≠ pane → s₁.terminalRevisions.get? p = s.terminalRevisions.get? p) →
        wp (discard (attempt (onCatalog (SessionCatalog.setGenerationLifecycle k pane r.generation
          (runtimeLifecycle r.state)) : ServiceM P Bool)) : ServiceM P Unit)
          (fun _ s' => Ticked E [t] s s') (fun _ _ => False) True s₁ := by
      intro s₁ hc hf hrt hcl hra hke hre
      simp only [wp_discard, wp_attempt, wp_onCatalog, hc]
      have hticked : ∀ c, Touches E s.catalog c → Ticked E [t] s { s₁ with catalog := c } := by
        intro c hct
        refine ⟨⟨hf.terminalPanes, hf.sessionPanes, hf.nextTerminal, hf.screens⟩, hrt, hct,
          fun p u hu hp hraised => ?_, fun p hn => ?_, fun p hn => ?_, hcl⟩
        · obtain ⟨rfl, rfl⟩ := hpane p u hu hp
          exact hra hraised
        · exact hke p fun he => he ▸ hn t (by simp) (he ▸ hpt)
        · exact hre p fun he => hn t (by simp) (he ▸ hpt)
      exact wp_mono (setGenerationLifecycle_touches hv.catalog (hE pane r hpt hr))
        (fun _ c hct => hticked c hct) (fun _ c hct => hticked c hct) False.elim
    simp only [hproj, hw, hg, ne_eq, not_true_eq_false, if_false, wp_bind, wp_ite, wp_orPanic,
      wp_modify, wp_pure]
    rw [← hg]
    refine ⟨fun hlt => ⟨fun visible _ => ⟨fun _ => ?_, fun _ => ?_⟩, fun _ => trivial⟩,
      fun hle => ⟨fun _ => ?_, fun _ => ?_⟩⟩
    · refine hend _ rfl ⟨rfl, rfl, rfl, rfl⟩ rfl rfl (fun _ => by simp [recordOutput])
        (fun p hp => ?_) (fun p hp => by simp [recordOutput, hp])
      have hne : p ≠ pane := fun he => hp he (hraise.mpr hlt)
      simp [recordOutput, hne]
    · refine hend _ rfl ⟨rfl, rfl, rfl, rfl⟩ rfl rfl (fun _ => by simp [recordOutput])
        (fun p hp => ?_) (fun p hp => by simp [recordOutput, hp])
      have hne : p ≠ pane := fun he => hp he (hraise.mpr hlt)
      simp [recordOutput, hne]
    · exact hend _ rfl ⟨rfl, rfl, rfl, rfl⟩ rfl rfl (fun h => absurd (hraise.mp h) hle)
        (fun _ _ => rfl) (fun _ _ => rfl)
    · exact hend _ rfl (.refl s) rfl rfl (fun h => absurd (hraise.mp h) hle) (fun _ _ => rfl)
        (fun _ _ => rfl)

theorem Ticked.valid (hv : s.Valid) (h : Ticked E l s s') :
    s'.Valid :=
  hv.frame h.frame (h.outputs_sub hv.outputs) h.catalog (h.runtime ▸ hv.runtime)
    fun u => by rw [h.runtime]

theorem Ticked.cons (ht : t ∉ l)
    (h : Ticked E [t] s s') (h' : Ticked E l s' s'') : Ticked E (t :: l) s s'' := by
  have hterm : ∀ p, s'.terminalPanes.get? p = s.terminalPanes.get? p := fun p => by
    rw [h.frame.terminalPanes]
  -- The other panes' recorded revisions are those from before.
  have hraise : ∀ p u, u ∈ l → s.terminalPanes.get? p = some u →
      (s'.RaisesOutput p u ↔ s.RaisesOutput p u) := by
    intro p u hu hp
    have hrec : s'.terminalRevisions.get? p = s.terminalRevisions.get? p := by
      refine h.recorded p fun v hvt hpv => ht ?_
      rw [← List.mem_singleton.mp hvt, Option.some.inj (hpv.symm.trans hp)]
      exact hu
    simp only [RaisesOutput, h.runtime, hrec]
  refine ⟨h.frame.trans h'.frame, h'.runtime.trans h.runtime, h.catalog.trans h'.catalog,
    fun p u hu hp hr => ?_, fun p hn => ?_, fun p hn => ?_, h'.clients.trans h.clients⟩
  · rcases List.mem_cons.mp hu with rfl | hu
    · rw [h'.kept p fun v hvl hpv => ?_, h.raised p u (by simp) hp hr]
      rw [hterm, hp] at hpv
      exact absurd (Option.some.inj hpv ▸ hvl) ht
    · rw [h'.raised p u hu ((hterm p).trans hp) ((hraise p u hu hp).mpr hr), h.kept p]
      intro v hvt hpv
      rw [List.mem_singleton.mp hvt, hp] at hpv
      exact absurd (Option.some.inj hpv ▸ hu) ht
  · rw [h'.kept p fun v hvl hpv => ?_, h.kept p fun v hvt hpv => ?_]
    · exact hn v (by simp [List.mem_singleton.mp hvt]) hpv
    · rw [hraise p v hvl (hterm p ▸ hpv)]
      exact hn v (List.mem_cons_of_mem _ hvl) (hterm p ▸ hpv)
  · rw [h'.recorded p fun v hvl => hterm p ▸ hn v (List.mem_cons_of_mem _ hvl),
      h.recorded p fun v hvt => hn v (by simp [List.mem_singleton.mp hvt])]

theorem tickPanes_spec (hv : s.Valid) (hl : l.Nodup)
    (hE : ∀ p t r, s.terminalPanes.get? p = some t → s.runtime.panes.get? t = some r →
      E p r.generation) (changed : SortedMap PaneId Unit) :
    wp (tickPanes l changed) (fun _ s' => Ticked E l s s') (fun _ _ => False) True s := by
  induction l generalizing s changed with
  | nil => exact Ticked.nil hv
  | cons t l ih =>
    obtain ⟨ht, hl⟩ := List.nodup_cons.mp hl
    simp only [tickPanes, wp_bind]
    refine wp_mono (tickPane_spec hv t fun p r => hE p t r) (fun pane s' h => ?_)
      (fun _ _ => id) id
    refine wp_mono (ih (h.valid hv) hl (fun p u r hp hr => ?_) _) (fun _ s'' h' => h.cons ht h')
      (fun _ _ => id) id
    rw [h.frame.terminalPanes] at hp
    rw [h.runtime] at hr
    exact hE p u r hp hr

/-- The events of a tick are of the generation that the runtime has for the pane, whose process, if
there is one, was spawned for it. -/
theorem tick_spec (hv : s.Valid) (fuel : Nat) (clock : TerminalPaneId → Nat → Instant)
    (hE : ∀ p t r, s.terminalPanes.get? p = some t → s.runtime.panes.get? t = some r →
      C.event p r.generation)
    (hD : ∀ batch rt, s.runtime.drain fuel clock .default = some (batch, rt) → C.drained rt) :
    Moves C (tick fuel clock) s := by
  simp only [Moves, tick, wp_bind, wp_get, wp_orPanic, wp_modify]
  refine ⟨fun b hb => ?_, fun _ => trivial⟩
  obtain ⟨batch, rt⟩ := b
  have hd := TerminalRuntime.drain_spec hb
  refine wp_mono (tickPanes_spec (E := C.event) (hv.drained hd) batch.changed.nodup_keys (fun p t r hp hr => ?_) _)
    (fun changed s' h => ?_) (fun _ _ => False.elim) id
  · obtain ⟨r₀, hr₀, hp₀, -⟩ := hd.pane t r hr
    rw [hp₀.generation]
    exact hE p t r₀ hp hr₀
  · simp only [wp_ite, wp_pure, wp_bind, wp_markDirty]
    refine ⟨fun _ => .tick batch.changed rt (hD batch rt hb) hd h, fun _ => ?_⟩
    exact .tick batch.changed rt (hD batch rt hb) hd ⟨⟨h.frame.terminalPanes, h.frame.sessionPanes,
      h.frame.nextTerminal, h.frame.screens⟩, h.runtime, h.catalog, h.raised, h.kept, h.recorded,
      h.clients⟩

end SessionService
end Strukt
