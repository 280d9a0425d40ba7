import Strukt.Terminal.GridShape
import Strukt.Terminal.Runtime

/-!
# What the runtime's operations change

* **A pane under polling** (`PaneRuntime.Polled`): generation, grid size and the process's owner
  stay; a pane that does not count as changed shows what it showed.
* **One operation** (`TerminalRuntime.Changes`): it touches the pane it names, under `Keeps` unless
  it restarts or resizes it.
* **Valid runtimes** (`TerminalRuntime.Valid`): grids have their shape, and a pane holds a process
  that was spawned for it under its current generation.
-/

namespace Strukt

open Method

variable {P : Platform}

namespace PaneRuntime

variable {r r' r'' : PaneRuntime P}

/-- The pane's process, if it still has one, is the one it had. -/
def SameOwner (r r' : PaneRuntime P) : Prop :=
  ∀ p' ∈ r'.process, ∃ p ∈ r.process, p'.owner = p.owner

theorem SameOwner.refl (r : PaneRuntime P) : SameOwner r r := fun p hp => ⟨p, hp, rfl⟩

theorem SameOwner.trans (h : SameOwner r r') (h' : SameOwner r' r'') : SameOwner r r'' := by
  intro p'' hp
  obtain ⟨p', hp', he⟩ := h' p'' hp
  obtain ⟨p, hp, he'⟩ := h p' hp'
  exact ⟨p, hp, he.trans he'⟩

theorem SameOwner.of_none (h : r'.process = none) : SameOwner r r' := by
  intro p hp
  rw [h] at hp
  cases hp

theorem SameOwner.of_eq (h : r'.process = r.process) : SameOwner r r' := by
  intro p hp
  exact ⟨p, h ▸ hp, rfl⟩

/-- Output and exits were polled. -/
structure Polled (r r' : PaneRuntime P) : Prop where
  generation : r'.generation = r.generation
  size : r'.model.size = r.model.size
  shaped : r.model.Shaped → r'.model.Shaped
  owner : SameOwner r r'

theorem Polled.refl (r : PaneRuntime P) : Polled r r := ⟨rfl, rfl, id, .refl r⟩

theorem Polled.trans (h : Polled r r') (h' : Polled r' r'') : Polled r r'' :=
  ⟨h'.generation.trans h.generation, h'.size.trans h.size, fun hs => h'.shaped (h.shaped hs),
    h.owner.trans h'.owner⟩

theorem Polled.of_model (hg : r'.generation = r.generation) (hm : r'.model = r.model)
    (ho : SameOwner r r') : Polled r r' :=
  ⟨hg, by rw [hm], by rw [hm]; exact id, ho⟩

theorem enqueue_ok {now : Instant} {chunk : OutputChunk} (h : r.enqueue now chunk = .ok r') :
    r'.generation = r.generation ∧ r'.model = r.model ∧ r'.process = r.process := by
  unfold enqueue at h
  split at h
  · cases h
  split at h
  · cases h
  · cases h; exact ⟨rfl, rfl, rfl⟩

theorem pollOneOutput_spec (now : Instant) (r : PaneRuntime P) :
    Polled r (r.pollOneOutput now) ∧ (r.pollOneOutput now).model = r.model := by
  unfold pollOneOutput
  split
  · exact ⟨.refl r, rfl⟩
  · rename_i p hp
    have howner : ∀ q : P.Process, SameOwner r { r with process := some ⟨p.owner, q⟩ } := by
      intro q p' hp'
      cases hp'
      exact ⟨p, hp, rfl⟩
    dsimp only
    split
    · split
      · rename_i r₁ he
        obtain ⟨hg, hm, hpr⟩ := enqueue_ok he
        exact ⟨.of_model hg hm ((howner _).trans (.of_eq hpr)), hm⟩
      · exact ⟨.of_model rfl rfl (.of_none rfl), rfl⟩
    · exact ⟨.of_model rfl rfl (howner _), rfl⟩
    · exact ⟨.of_model rfl rfl (.of_none rfl), rfl⟩

theorem advanceFront_spec {limit count : Nat} {front : PendingOutput} {rest : List PendingOutput}
    (h : r.advanceFront limit front rest = some (count, r')) :
    Polled r r' ∧ (count = 0 → r'.model.performer = r.model.performer) := by
  simp only [advanceFront, Option.bind_eq_bind, Option.pure_def] at h
  obtain ⟨model, hm, h⟩ := Option.bind_eq_some_iff.mp h
  cases h
  obtain ⟨hsize, hshape⟩ := TerminalModel.advance_shaped hm
  refine ⟨⟨rfl, hsize, hshape, .of_eq rfl⟩, fun hc => ?_⟩
  rw [hc, List.take_zero] at hm
  exact TerminalModel.performer_advance_nil hm

theorem drainLoop_spec {clock : Nat → Instant} {limit fuel consumed consumed' : Nat}
    (h : drainLoop clock limit fuel consumed r = some (consumed', r')) :
    Polled r r' ∧ consumed ≤ consumed' ∧
      (consumed' = consumed → r'.model.performer = r.model.performer) := by
  induction fuel generalizing consumed r with
  | zero => cases h
  | succ fuel ih =>
    rw [drainLoop] at h
    split at h
    swap
    · cases h; exact ⟨.refl _, le_rfl, fun _ => rfl⟩
    have hpoll : Polled r (if r.pending.isEmpty then r.pollOneOutput (clock fuel) else r) ∧
        (if r.pending.isEmpty then r.pollOneOutput (clock fuel) else r).model = r.model := by
      split
      · exact pollOneOutput_spec _ r
      · exact ⟨.refl r, rfl⟩
    obtain ⟨hpoll, hmodel⟩ := hpoll
    generalize (if r.pending.isEmpty then r.pollOneOutput (clock fuel) else r) = r₁ at h hpoll hmodel
    dsimp only at h
    split at h
    · cases h
      exact ⟨hpoll, le_rfl, fun _ => by rw [hmodel]⟩
    · rename_i front rest _
      obtain ⟨⟨count, r₂⟩, hf, h⟩ := Option.bind_eq_some_iff.mp h
      obtain ⟨hp₂, hc⟩ := advanceFront_spec hf
      obtain ⟨hp₃, hle, hsame⟩ := ih h
      refine ⟨hpoll.trans (hp₂.trans hp₃), by omega, fun he => ?_⟩
      rw [hsame (by omega), hc (by omega), hmodel]

theorem drainBytes_spec {fuel : Nat} {clock : Nat → Instant} {limit consumed : Nat}
    (h : r.drainBytes fuel clock limit = some (consumed, r')) :
    Polled r r' ∧ (consumed = 0 → r'.model.performer = r.model.performer) := by
  obtain ⟨⟨n, r₁⟩, hl, h⟩ := Option.map_eq_some_iff.mp h
  obtain ⟨hp, -, hsame⟩ := drainLoop_spec hl
  cases h
  split
  · exact ⟨hp.trans (.of_model rfl rfl (.of_eq rfl)), hsame⟩
  · exact ⟨hp, hsame⟩

theorem pollExit_spec (r : PaneRuntime P) :
    Polled r r.pollExit.2 ∧ r.pollExit.2.model = r.model := by
  unfold pollExit
  split
  · exact ⟨.refl r, rfl⟩
  · rename_i p hp
    dsimp only
    split
    · exact ⟨.of_model rfl rfl (.of_none rfl), rfl⟩
    · refine ⟨.of_model rfl rfl fun p' hp' => ?_, rfl⟩
      cases hp'
      exact ⟨p, hp, rfl⟩
    · exact ⟨.of_model rfl rfl (.of_none rfl), rfl⟩

/-- A turn of `drain`: what counts as unchanged shows the same screen in the same state. -/
theorem drainPane_spec {fuel : Nat} {clock : Nat → Instant} {limit consumed : Nat} {changed : Bool}
    (h : r.drainPane fuel clock limit = some (consumed, changed, r')) :
    Polled r r' ∧ (changed = false → r'.model.performer = r.model.performer ∧ r'.state = r.state) := by
  simp only [drainPane, Option.bind_eq_bind, Option.pure_def] at h
  obtain ⟨⟨n, r₂⟩, hd, h⟩ := Option.bind_eq_some_iff.mp h
  obtain ⟨hp₁, hm₁⟩ := pollOneOutput_spec (clock 4) r
  obtain ⟨hp₂, hsame⟩ := drainBytes_spec hd
  obtain ⟨hp₃, hm₃⟩ := r₂.pollExit_spec
  cases h
  refine ⟨hp₁.trans (hp₂.trans (hp₃.trans (.of_model rfl rfl (.of_eq rfl)))), fun hc => ?_⟩
  simp only [ne_eq, Bool.or_eq_false_iff, decide_eq_false_iff_not, not_not] at hc
  refine ⟨?_, hc.2⟩
  calc (r₂.pollExit.2.updatePressureState clock).model.performer
      = r₂.model.performer := by rw [← hm₃]; rfl
    _ = r.model.performer := by rw [hsame (by omega), hm₁]

end PaneRuntime

/-! ## Operations on the runtime -/

/-- The size as a grid's. -/
def TerminalSize.grid (size : TerminalSize) : GridSize where
  rows := size.rows.toNat
  columns := size.columns.toNat
  rows_pos := UInt16.pos_iff_ne_zero.mpr size.rows_ne
  columns_pos := UInt16.pos_iff_ne_zero.mpr size.columns_ne

theorem gridSize_eq (size : TerminalSize) : gridSize size = .ok size.grid := by
  have h : 0 < size.rows.toNat ∧ 0 < size.columns.toNat :=
    ⟨size.grid.rows_pos, size.grid.columns_pos⟩
  rw [gridSize, GridSize.new, dif_pos h]
  rfl

namespace TerminalRuntime

variable {t t' : TerminalRuntime P} {pane : TerminalPaneId}

/-- The pane `pane` is as it was, or became one in relation `R` to it. -/
def Changes (pane : TerminalPaneId) (R : PaneRuntime P → PaneRuntime P → Prop)
    (t t' : TerminalRuntime P) : Prop :=
  t' = t ∨ ∃ r r', t.panes.get? pane = some r ∧ t' = { t with panes := t.panes.insert pane r' } ∧
    R r r'

/-- Generation and model stay, and the process is the pane's, or `spawned`. -/
structure Keeps (spawned : Option (TerminalProcess P)) (r r' : PaneRuntime P) : Prop where
  generation : r'.generation = r.generation
  model : r'.model = r.model
  owner : ∀ p' ∈ r'.process, p' ∈ spawned ∨ ∃ p ∈ r.process, p'.owner = p.owner

/-- A resize that the process accepted. -/
structure Resizes (size : TerminalSize) (r r' : PaneRuntime P) : Prop where
  generation : r'.generation = r.generation
  accepted : ∃ p ∈ r.process, (P.resize p.process size).1 = .ok ()
  model : r.model.resize size.grid = some r'.model
  owner : PaneRuntime.SameOwner r r'

@[simp] theorem wp_putPane {Q : Unit → TerminalRuntime P → Prop}
    {E : RuntimeError → TerminalRuntime P → Prop} {F : Prop} {r : PaneRuntime P} :
    wp (putPane pane r) Q E F t ↔ Q () { t with panes := t.panes.insert pane r } := Iff.rfl

theorem beginRestart_spec (request : SpawnRequest) :
    wp (beginRestart pane request)
      (fun job t' => job.pane = pane ∧ job.generation = t.nextGeneration pane ∧
        t' = { t with panes := t.panes.insert pane { PaneRuntime.new (t.nextGeneration pane)
          (.new request.size.grid t.scrollbackLimit) with state := .starting } })
      (fun _ _ => False) False t := by
  have hg := gridSize_eq request.size
  simp [beginRestart, hg]

/-- A completion of another generation changes nothing. -/
theorem finishRestart_spec {generation : UInt64} {result : Except String (TerminalProcess P)} :
    wp (finishRestart pane generation result)
      (fun _ => Changes pane (fun r r' => r.generation = generation ∧ Keeps result.toOption r r') t)
      (fun _ => Changes pane (fun r r' => r.generation = generation ∧ Keeps result.toOption r r') t)
      False t := by
  simp only [finishRestart, wp_bind, wp_get]
  cases hr : t.panes.get? pane with
  | none => exact .inl rfl
  | some r =>
    simp only [wp_ite]
    refine ⟨fun _ => .inl rfl, fun hg => ?_⟩
    rw [not_not] at hg
    cases result with
    | ok p =>
      refine .inr ⟨r, _, hr, rfl, hg, rfl, rfl, fun p' hp' => .inl ?_⟩
      cases hp'
      rfl
    | error m => exact .inr ⟨r, _, hr, rfl, hg, rfl, rfl, fun p hp => .inr ⟨p, hp, rfl⟩⟩

theorem process_spec {Q : PaneRuntime P × TerminalProcess P → TerminalRuntime P → Prop}
    {E : RuntimeError → TerminalRuntime P → Prop} {F : Prop} :
    wp (process pane) Q E F t ↔
      (∀ r, t.panes.get? pane = some r →
        (∀ p, r.process = some p → Q (r, p) t) ∧ (r.process = none → E .processNotRunning t)) ∧
      (t.panes.get? pane = none → E .paneNotFound t) := by
  simp [process]

theorem callProcess_spec (call : P.Process → Except TransportError Unit × P.Process) :
    wp (callProcess pane call)
      (fun r' t' => ∃ r, t.panes.get? pane = some r ∧
        t' = { t with panes := t.panes.insert pane r' } ∧ Keeps none r r' ∧
          ∃ p ∈ r.process, (call p.process).1 = .ok ())
      (fun _ => Changes pane (Keeps none) t) False t := by
  simp only [callProcess, wp_bind, process_spec]
  refine ⟨fun r hr => ⟨fun p hp => ?_, fun _ => .inl rfl⟩, fun _ => .inl rfl⟩
  have hk : ∀ r' : PaneRuntime P, r'.generation = r.generation → r'.model = r.model →
      (∀ p' ∈ r'.process, p'.owner = p.owner) → Keeps none r r' :=
    fun r' hg hm ho => ⟨hg, hm, fun p' hp' => .inr ⟨p, hp, ho p' hp'⟩⟩
  simp only [wp_putPane]
  split
  · refine ⟨r, hr, rfl, hk _ rfl rfl fun p' hp' => ?_, p, hp, ‹_›⟩
    cases hp'
    rfl
  · simp only [wp_bind, wp_putPane, wp_throw, SortedMap.insert_insert]
    refine .inr ⟨r, _, hr, rfl, hk _ rfl rfl fun p' hp' => ?_⟩
    cases hp'
    rfl

theorem write_spec (bytes : List UInt8) :
    wp (write pane bytes) (fun _ => Changes pane (Keeps none) t)
      (fun _ => Changes pane (Keeps none) t) False t := by
  rw [write, wp_discard]
  refine wp_mono (callProcess_spec _) (fun r' t' h => ?_) (fun _ _ h => h) id
  obtain ⟨r, hr, ht, hk, -⟩ := h
  exact .inr ⟨r, r', hr, ht, hk⟩

/-- The model can fail to resize only where it panics. -/
theorem resize_spec (size : TerminalSize) :
    wp (resize pane size)
      (fun _ t' => ∃ r r', t.panes.get? pane = some r ∧
        t' = { t with panes := t.panes.insert pane r' } ∧ Resizes size r r')
      (fun _ => Changes pane (Keeps none) t) True t := by
  have hg := gridSize_eq size
  simp only [resize, wp_bind, wp_ofExcept, hg, Except.ok.injEq, reduceCtorEq, false_implies,
    implies_true, and_true, forall_eq']
  refine wp_mono (callProcess_spec _) (fun r' t' h => ?_) (fun _ _ h => h) False.elim
  obtain ⟨r, hr, ht, hk, ha⟩ := h
  simp only [wp_orPanic, wp_putPane]
  refine ⟨fun m hm => ?_, fun _ => trivial⟩
  subst ht
  rw [SortedMap.insert_insert]
  refine ⟨r, _, hr, rfl, hk.generation, ha, hk.model ▸ hm, fun p' hp' => ?_⟩
  exact (hk.owner p' hp').resolve_left (by simp)

theorem beginTerminate_spec (grace : Nat) :
    wp (beginTerminate pane grace) (fun job t' => job.pane = pane ∧ Changes pane (Keeps none) t t')
      (fun _ => Changes pane (Keeps none) t) False t := by
  simp only [beginTerminate, wp_bind, process_spec, wp_putPane, wp_pure]
  refine ⟨fun r hr => ⟨fun p hp => ⟨trivial, .inr ⟨r, _, hr, rfl, rfl, rfl, ?_⟩⟩, fun _ => .inl rfl⟩,
    fun _ => .inl rfl⟩
  intro p' hp'
  cases hp'

/-- A completion of another generation changes nothing. -/
theorem finishTerminate_spec (completion : RuntimeTerminateCompletion) :
    wp (finishTerminate completion)
      (fun _ => Changes completion.pane
        (fun r r' => r.generation = completion.generation ∧ Keeps none r r') t)
      (fun _ => Changes completion.pane
        (fun r r' => r.generation = completion.generation ∧ Keeps none r r') t)
      False t := by
  simp only [finishTerminate, wp_bind, wp_get]
  cases hr : t.panes.get? completion.pane with
  | none => exact .inl rfl
  | some r =>
    simp only [wp_ite]
    refine ⟨fun _ => .inl rfl, fun hg => ?_⟩
    rw [not_not] at hg
    split
    · exact .inr ⟨r, _, hr, rfl, hg, rfl, rfl, fun p hp => .inr ⟨p, hp, rfl⟩⟩
    · refine .inr ⟨r, _, hr, rfl, hg, rfl, rfl, fun p hp => ?_⟩
      cases hp

/-! ## Draining -/

/-- Every pane was polled, and one outside the batch shows what it showed. -/
structure Drained (changed : SortedMap TerminalPaneId Unit) (t t' : TerminalRuntime P) : Prop where
  keys : t'.panes.keys = t.panes.keys
  pane : ∀ k r', t'.panes.get? k = some r' → ∃ r, t.panes.get? k = some r ∧ r.Polled r' ∧
    (k ∉ changed.keys → r'.model.performer = r.model.performer ∧ r'.state = r.state)

theorem drainPanes_spec {fuel : Nat} {clock : TerminalPaneId → Nat → Instant} {perPane : Nat}
    {l : List TerminalPaneId} {remaining : Nat} {batch batch' : RuntimeBatch}
    {panes panes' : SortedMap TerminalPaneId (PaneRuntime P)}
    (h : drainPanes fuel clock perPane l remaining batch panes = some (batch', panes')) :
    (∀ k ∈ batch.changed.keys, k ∈ batch'.changed.keys) ∧ panes'.keys = panes.keys ∧
      ∀ k r', panes'.get? k = some r' → ∃ r, panes.get? k = some r ∧ r.Polled r' ∧
        (k ∉ batch'.changed.keys → r'.model.performer = r.model.performer ∧ r'.state = r.state) := by
  induction l generalizing remaining batch panes with
  | nil => cases h; exact ⟨fun k hk => hk, rfl, fun k r hr => ⟨r, hr, .refl r, fun _ => ⟨rfl, rfl⟩⟩⟩
  | cons pane rest ih =>
    rw [drainPanes] at h
    split at h
    · cases h; exact ⟨fun k hk => hk, rfl, fun k r hr => ⟨r, hr, .refl r, fun _ => ⟨rfl, rfl⟩⟩⟩
    split at h
    · exact ih h
    · rename_i r hr
      obtain ⟨⟨consumed, changed, r₁⟩, hd, h⟩ := Option.bind_eq_some_iff.mp h
      obtain ⟨hp, hsame⟩ := PaneRuntime.drainPane_spec hd
      obtain ⟨hsub, hkeys, hpanes⟩ := ih h
      refine ⟨fun k hk => hsub k ?_, hkeys.trans (SortedMap.keys_insert_of_mem hr),
        fun k r' hk => ?_⟩
      · dsimp only
        split
        · exact SortedMap.mem_keys_insert.mpr (.inr hk)
        · exact hk
      · obtain ⟨r₂, hr₂, hp₂, hsame₂⟩ := hpanes k r' hk
        rw [SortedMap.get?_insert] at hr₂
        split at hr₂
        · rename_i hkp
          subst hkp
          cases hr₂
          refine ⟨r, hr, hp.trans hp₂, fun hn => ?_⟩
          -- The pane is outside the final batch, so its own turn did not count as a change.
          have hc : changed = false := by
            rw [← Bool.not_eq_true]
            intro hc
            exact hn (hsub k (by simp [hc]))
          obtain ⟨h₁, h₂⟩ := hsame₂ hn
          obtain ⟨h₃, h₄⟩ := hsame hc
          exact ⟨h₁.trans h₃, h₂.trans h₄⟩
        · exact ⟨r₂, hr₂, hp₂, hsame₂⟩

theorem drain_spec {fuel : Nat} {clock : TerminalPaneId → Nat → Instant} {budget : DrainBudget}
    {batch : RuntimeBatch} (h : t.drain fuel clock budget = some (batch, t')) :
    Drained batch.changed t t' := by
  simp only [drain] at h
  split at h
  · cases h
    exact ⟨rfl, fun k r hr => ⟨r, hr, .refl r, fun _ => ⟨rfl, rfl⟩⟩⟩
  · obtain ⟨⟨b, panes⟩, hd, h⟩ := Option.map_eq_some_iff.mp h
    obtain ⟨-, hkeys, hpanes⟩ := drainPanes_spec hd
    cases h
    exact ⟨hkeys, hpanes⟩

/-! ## Valid runtimes -/

/-- Grids have their shape, and each process was spawned for its pane's current generation. -/
structure Valid (t : TerminalRuntime P) : Prop where
  shaped : ∀ k r, t.panes.get? k = some r → r.model.Shaped
  owner : ∀ k r, t.panes.get? k = some r → ∀ p ∈ r.process, p.owner = (k, r.generation)

theorem valid_new (limit : Nat) : (new limit : TerminalRuntime P).Valid :=
  ⟨fun k r h => absurd h (by simp [new]), fun k r h => absurd h (by simp [new])⟩

theorem Valid.insert (hv : t.Valid) {r : PaneRuntime P} (hs : r.model.Shaped)
    (ho : ∀ p ∈ r.process, p.owner = (pane, r.generation)) :
    Valid { t with panes := t.panes.insert pane r } := by
  constructor
  · intro k r' h
    rw [SortedMap.get?_insert] at h
    split at h
    · cases h; exact hs
    · exact hv.shaped k r' h
  · intro k r' h
    rw [SortedMap.get?_insert] at h
    split at h
    · cases h; subst_vars; exact ho
    · exact hv.owner k r' h

theorem Valid.restart (hv : t.Valid) {g : UInt64} {size : GridSize} {limit : Nat} :
    Valid { t with
      panes := t.panes.insert pane { PaneRuntime.new g (.new size limit) with state := .starting } } := by
  refine hv.insert (TerminalModel.shaped_new size limit) fun p hp => ?_
  cases hp

theorem Valid.keeps (hv : t.Valid) {spawned : Option (TerminalProcess P)} {r r' : PaneRuntime P}
    (hr : t.panes.get? pane = some r) (hk : Keeps spawned r r')
    (hs : ∀ p ∈ spawned, p.owner = (pane, r.generation)) :
    Valid { t with panes := t.panes.insert pane r' } := by
  refine hv.insert (hk.model ▸ hv.shaped pane r hr) fun p' hp' => ?_
  rw [hk.generation]
  rcases hk.owner p' hp' with h | ⟨p, hp, he⟩
  · exact hs p' h
  · exact he.trans (hv.owner pane r hr p hp)

theorem Valid.resizes (hv : t.Valid) {size : TerminalSize} {r r' : PaneRuntime P}
    (hr : t.panes.get? pane = some r) (hz : Resizes size r r') :
    Valid { t with panes := t.panes.insert pane r' } := by
  refine hv.insert (TerminalModel.resize_shaped (hv.shaped pane r hr) hz.model).2 fun p' hp' => ?_
  obtain ⟨p, hp, he⟩ := hz.owner p' hp'
  rw [hz.generation, he]
  exact hv.owner pane r hr p hp

theorem Valid.drained (hv : t.Valid) {changed : SortedMap TerminalPaneId Unit}
    (h : Drained changed t t') : t'.Valid := by
  constructor
  · intro k r' hr'
    obtain ⟨r, hr, hp, -⟩ := h.pane k r' hr'
    exact hp.shaped (hv.shaped k r hr)
  · intro k r' hr' p' hp'
    obtain ⟨r, hr, hp, -⟩ := h.pane k r' hr'
    obtain ⟨p, hpp, he⟩ := hp.owner p' hp'
    rw [hp.generation, he]
    exact hv.owner k r hr p hpp

/-- The process of a finished start is spawned for the job's pane and generation. -/
theorem owner_run {job : RuntimeStartJob P}
    {spawned : SpawnRequest → Except TransportError P.Process} {p : TerminalProcess P}
    (h : job.run spawned = .ok p) : p.owner = (job.pane, job.generation) := by
  have hs : ∀ x : Except TransportError P.Process,
      ((x.mapError (·.toString)).bind fun q => .ok (⟨(job.pane, job.generation), q⟩ :
        TerminalProcess P)) = .ok p → p.owner = (job.pane, job.generation) := by
    intro x hx
    cases x with
    | error e => cases hx
    | ok q => cases hx; rfl
  unfold RuntimeStartJob.run at h
  split at h
  · cases ht : P.terminate _ 500 with
    | error e => rw [ht] at h; cases h
    | ok u => rw [ht] at h; exact hs _ h
  · exact hs _ h

end TerminalRuntime
end Strukt
