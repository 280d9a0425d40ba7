import Strukt.App.LanguageRuntime

/-!
# What applying effects does

* **At a client**: a ready client that knows the documents as `Fits` asks does not refuse an
  effect, and knows the revisions `revisions` after it.
* **At the processes**: effects that find their clients ready (`Ready`) are taken in, each client
  ending `Informed`, or end at a full queue; either way only their targets are touched.
-/

namespace Strukt.App

open Strukt.Language Method LanguageCoordinator

/-! ## Effects at a client -/

/-- The errors of a client that was never told of the document, or not in this state. -/
def Refusal (e : ClientError) : Prop :=
  e = .notReady ∨ e = .unknownDocument ∨ e = .invalidRevision

instance (e : ClientError) : Decidable (Refusal e) :=
  inferInstanceAs (Decidable (_ ∨ _ ∨ _))

namespace LanguageEffect

variable {uri : PathBuf → String} {now : Duration} {order : HashOrder}

/-- The revisions that a client knows after an effect. -/
def revisions (uri : PathBuf → String) (known : SortedMap String UInt64) :
    LanguageEffect → SortedMap String UInt64
  | .open _ _ _ path revision _ | .change _ _ _ path revision _ => known.insert (uri path) revision
  | .close _ _ _ path => known.remove (uri path)
  | .save .. | .discover .. => known

/-- A ready client that knows these revisions does not refuse the effect. -/
def Fits (uri : PathBuf → String) (known : SortedMap String UInt64) : LanguageEffect → Prop
  | .change _ _ _ path revision _ => ∃ old, known.get? (uri path) = some old ∧ old < revision
  | .save _ _ _ path | .close _ _ _ path => uri path ∈ known.keys
  | .open .. | .discover .. => True

def FitAll (uri : PathBuf → String) : SortedMap String UInt64 → List LanguageEffect → Prop
  | _, [] => True
  | known, e :: es => e.Fits uri known ∧ FitAll uri (e.revisions uri known) es

theorem fitAll_append {es es' : List LanguageEffect} {known : SortedMap String UInt64} :
    FitAll uri known (es ++ es') ↔
      FitAll uri known es ∧ FitAll uri (es.foldl (revisions uri) known) es' := by
  induction es generalizing known with
  | nil => simp [FitAll]
  | cons e es ih => simp only [List.cons_append, FitAll, List.foldl_cons, ih, and_assoc]

theorem call_state (e : LanguageEffect) (c : LanguageClient) :
    wp (e.call uri now order) (fun _ c' => c'.state = c.state) (fun _ c' => c'.state = c.state) True
      c := by
  cases e with
  | discover => exact wp_pure.mpr rfl
  | «open» _ _ _ path revision text =>
    refine wp_mono (ClientOp.run_spec (.didOpen (uri path) revision text) c) (fun _ c' hd => ?_)
      (fun _ c' hf => ?_) fun h => h
    · obtain ⟨-, -, rfl⟩ := hd
      rfl
    · obtain rfl | ⟨-, -, rfl⟩ := hf
      · rfl
      · rfl
  | change _ _ _ path revision text =>
    refine wp_mono (ClientOp.run_spec (.didChange (uri path) revision text now order) c)
      (fun _ c' hd => ?_) (fun _ c' hf => ?_) fun h => h
    · obtain ⟨-, -, -, due, rfl⟩ := hd
      rfl
    · obtain rfl | ⟨-, -, due, rfl⟩ := hf
      · rfl
      · rfl
  | save _ _ _ path =>
    refine wp_mono (ClientOp.run_spec (.didSave (uri path)) c) (fun _ c' hd => ?_)
      (fun _ c' hf => ?_) fun h => h
    · obtain ⟨-, -, rfl | ⟨-, rfl⟩⟩ := hd
      · rfl
      · rfl
    · cases hf
      rfl
  | close _ _ _ path =>
    refine wp_mono (ClientOp.run_spec (.didClose (uri path) now order) c) (fun _ c' hd => ?_)
      (fun _ c' hf => ?_) fun h => h
    · obtain ⟨-, -, -, idle, rfl⟩ := hd
      rfl
    · obtain rfl | ⟨-, -, rfl⟩ := hf
      · rfl
      · rfl

theorem not_refusal_full : ¬Refusal .outboundQueueFull := by decide

/-- A ready client that knows the document takes the effect in, or its queue is full. -/
theorem call_fits {e : LanguageEffect} {c : LanguageClient} (hready : c.state = .ready)
    (h : e.Fits uri c.documents) :
    wp (e.call uri now order) (fun _ c' => c'.documents = e.revisions uri c.documents)
      (fun err _ => ¬Refusal err) True c := by
  cases e with
  | discover => exact wp_pure.mpr rfl
  | «open» _ _ _ path revision text =>
    simp only [call, LanguageClient.didOpen, wp_bind, LanguageClient.wp_ensureReady, wp_modify,
      wp_get, LanguageClient.wp_pushOutbound]
    exact ⟨fun _ => ⟨fun _ => rfl, fun _ => not_refusal_full⟩, fun hnot => absurd hready hnot⟩
  | change _ _ _ path revision text =>
    obtain ⟨old, hold, hlt⟩ := h
    simp only [call, LanguageClient.didChange, wp_bind, LanguageClient.wp_ensureReady, wp_get,
      wp_okOr, wp_ensure, wp_orPanic, wp_modify, LanguageClient.wp_invalidateDocumentRequests]
    refine ⟨fun _ => ⟨fun known hknown => ⟨fun _ => ⟨fun due _ => ⟨fun _ => rfl,
      fun _ => not_refusal_full⟩, fun _ => trivial⟩, fun hnot => ?_⟩, fun hnone => ?_⟩,
      fun hnot => absurd hready hnot⟩
    · rw [hold] at hknown
      cases hknown
      exact absurd hlt hnot
    · rw [hold] at hnone
      cases hnone
  | save _ _ _ path =>
    simp only [call, LanguageClient.didSave, wp_bind, LanguageClient.wp_ensureReady, wp_get,
      wp_ensure, wp_ite, LanguageClient.wp_pushOutbound, wp_pure, SortedMap.containsKey_iff]
    exact ⟨fun _ => ⟨fun _ => ⟨fun _ => ⟨fun _ => rfl, fun _ => not_refusal_full⟩, fun _ => rfl⟩,
      fun hnot => absurd h hnot⟩, fun hnot => absurd hready hnot⟩
  | close _ _ _ path =>
    simp only [call, LanguageClient.didClose, wp_bind, LanguageClient.wp_ensureReady, wp_get,
      wp_discard, wp_okOr, wp_modify, LanguageClient.wp_invalidateDocumentRequests,
      LanguageClient.wp_pushOutbound, wp_ite, wp_orPanic, wp_pure]
    refine ⟨fun _ => ⟨fun revision _ => ⟨fun _ => ⟨fun _ => ⟨fun _ => ⟨fun _ _ => rfl,
      fun _ => trivial⟩, fun _ => rfl⟩, fun _ => not_refusal_full⟩, fun _ => not_refusal_full⟩,
      fun hnone => ?_⟩, fun hnot => absurd hready hnot⟩
    exact absurd h (SortedMap.get?_eq_none.mp hnone)

end LanguageEffect

/-! ## Effects at the processes -/

/-- The generation of a process and the state of its client. -/
def RunningLanguage.outline (running : RunningLanguage) : UInt64 × LanguageServerState :=
  (running.generation, running.client.state)

/-- The messages for the language in the generation. -/
def effectsFor (effects : List LanguageEffect) (l : String) (generation : UInt64) :
    List LanguageEffect :=
  effects.filter (·.target = some (l, generation))

namespace LanguageRuntime

variable {uri : PathBuf → String} {now : Duration} {order : HashOrder}
  {r r' r'' : LanguageRuntime} {effect : LanguageEffect} {effects : List LanguageEffect}

/-- The clients keep their states, and a process that is not among the targets is left alone. -/
structure Touches (targets : List (String × UInt64)) (r r' : LanguageRuntime) : Prop where
  outline : ∀ k, (r'.get? k).map (·.outline) = (r.get? k).map (·.outline)
  rest : ∀ k running, r.get? k = some running → (k, running.generation) ∉ targets →
    r'.get? k = some running

theorem Touches.refl (targets : List (String × UInt64)) (r : LanguageRuntime) :
    Touches targets r r :=
  ⟨fun _ => rfl, fun _ _ h _ => h⟩

theorem Touches.trans {targets : List (String × UInt64)} (h : Touches targets r r')
    (h' : Touches targets r' r'') : Touches targets r r'' :=
  ⟨fun k => (h'.outline k).trans (h.outline k),
    fun k running hg hnot => h'.rest k running (h.rest k running hg hnot) hnot⟩

theorem Touches.mono {targets targets' : List (String × UInt64)} (h : Touches targets r r')
    (hsub : ∀ t ∈ targets, t ∈ targets') : Touches targets' r r' :=
  ⟨h.outline, fun k running hg hnot => h.rest k running hg fun hin => hnot (hsub _ hin)⟩

theorem touches_insert {l : String} {running : RunningLanguage} {client : LanguageClient}
    (hg : r.get? l = some running) (hstate : client.state = running.client.state) :
    Touches [(l, running.generation)] r (r.insert l { running with client }) := by
  refine ⟨fun k => ?_, fun k other hk hnot => ?_⟩
  · rw [SortedMap.get?_insert]
    split
    · next hkl =>
      rw [hkl, hg, Option.map_some, Option.map_some, RunningLanguage.outline,
        RunningLanguage.outline, hstate]
    · rfl
  · rw [SortedMap.get?_insert]
    split
    · next hkl =>
      rw [hkl, hg] at hk
      cases hk
      exact absurd (List.mem_singleton.mpr (by rw [hkl])) hnot
    · exact hk

/-- The effect goes to the process of its generation, whose queue is then written out. -/
theorem wp_applyEffect {Q : Unit → LanguageRuntime → Prop}
    {E : ClientError → LanguageRuntime → Prop} {P : Prop}
    (hskip : (∀ l running, r.get? l = some running →
      effect.target ≠ some (l, running.generation)) → Q () r)
    (hrun : ∀ l running, r.get? l = some running → effect.target = some (l, running.generation) →
      wp (effect.call uri now order)
        (fun _ client =>
          Q () (r.insert l { running with client := { client with outbound := [] } }))
        (fun e client => E e (r.insert l { running with client })) P running.client) :
    wp (applyEffect uri now order effect) Q E P r := by
  unfold applyEffect
  cases ht : effect.target with
  | none => exact wp_pure.mpr (hskip fun l running _ h => by rw [ht] at h; cases h)
  | some target =>
    obtain ⟨l, generation⟩ := target
    simp only [onProcess, wp_bind, wp_get]
    cases hf : (r.get? l).filter (·.generation = generation) with
    | none =>
      refine wp_pure.mpr (hskip fun k running hg h => ?_)
      rw [ht] at h
      cases h
      rw [hg, Option.filter_some] at hf
      simp at hf
    | some running =>
      obtain ⟨hg, hgen⟩ := Option.filter_eq_some_iff.mp hf
      have hgen := of_decide_eq_true hgen
      have hspec := hrun l running hg (by rw [ht, hgen])
      simp only [wp_focus, wp_bind, RunningLanguage.onClient, RunningLanguage.flushClient,
        wp_modify]
      exact hspec

theorem applyEffect_touches (effect : LanguageEffect) (r : LanguageRuntime) :
    wp (applyEffect uri now order effect) (fun _ r' => Touches effect.target.toList r r')
      (fun _ r' => Touches effect.target.toList r r') True r := by
  refine wp_applyEffect (fun _ => .refl _ _) fun l running hg ht => ?_
  rw [ht]
  exact wp_mono (effect.call_state running.client) (fun _ _ hs => touches_insert hg hs)
    (fun _ _ hs => touches_insert hg hs) fun h => h

theorem applyEffects_touches (effects : List LanguageEffect) (r : LanguageRuntime) :
    wp (applyEffects uri now order effects)
      (fun _ r' => Touches (effects.filterMap (·.target)) r r')
      (fun _ r' => Touches (effects.filterMap (·.target)) r r') True r := by
  unfold applyEffects
  induction effects generalizing r with
  | nil => exact wp_pure.mpr (.refl _ _)
  | cons e es ih =>
    have hhead : ∀ t ∈ e.target.toList, t ∈ (e :: es).filterMap (·.target) := fun t ht =>
      List.mem_filterMap.mpr ⟨e, List.mem_cons_self, Option.mem_toList.mp ht⟩
    have htail : ∀ t ∈ es.filterMap (·.target), t ∈ (e :: es).filterMap (·.target) := by
      intro t ht
      obtain ⟨e', he', ht⟩ := List.mem_filterMap.mp ht
      exact List.mem_filterMap.mpr ⟨e', List.mem_cons_of_mem _ he', ht⟩
    rw [List.forM_cons, wp_bind]
    refine wp_mono (applyEffect_touches e r) (fun _ r₁ h₁ => ?_) (fun _ r₁ h₁ => h₁.mono hhead)
      fun h => h
    exact wp_mono (ih r₁) (fun _ _ h => (h₁.mono hhead).trans (h.mono htail))
      (fun _ _ h => (h₁.mono hhead).trans (h.mono htail)) fun h => h

/-- Every message for a process that is up finds its client ready and fits what it knows. -/
def Ready (uri : PathBuf → String) (effects : List LanguageEffect) (r : LanguageRuntime) : Prop :=
  ∀ l running, r.get? l = some running → effectsFor effects l running.generation ≠ [] →
    running.client.state = .ready ∧
      LanguageEffect.FitAll uri running.client.documents (effectsFor effects l running.generation)

/-- Each client knows the revisions that the messages for it leave. -/
def Informed (uri : PathBuf → String) (effects : List LanguageEffect) (r r' : LanguageRuntime) :
    Prop :=
  ∀ l running, r.get? l = some running → ∃ running', r'.get? l = some running' ∧
    running'.outline = running.outline ∧
      running'.client.documents =
        (effectsFor effects l running.generation).foldl (LanguageEffect.revisions uri)
          running.client.documents

theorem effectsFor_cons (e : LanguageEffect) (es : List LanguageEffect) (l : String)
    (generation : UInt64) :
    effectsFor (e :: es) l generation =
      if e.target = some (l, generation) then e :: effectsFor es l generation
      else effectsFor es l generation := by
  simp only [effectsFor, List.filter_cons, decide_eq_true_eq]

/-- One effect of which the process has been told, and the rest. -/
theorem ready_tail {l : String} {running : RunningLanguage} {client : LanguageClient}
    (h : Ready uri (effect :: effects) r) (hg : r.get? l = some running)
    (ht : effect.target = some (l, running.generation))
    (hstate : client.state = running.client.state)
    (hdocuments : client.documents = effect.revisions uri running.client.documents) :
    Ready uri effects (r.insert l { running with client }) := by
  intro k other hk hne
  rw [SortedMap.get?_insert] at hk
  split at hk
  · next hkl =>
    cases hk
    obtain ⟨hready, hfits⟩ := h l running hg (by rw [effectsFor_cons, if_pos ht]; simp)
    rw [effectsFor_cons, if_pos ht] at hfits
    rw [hkl]
    exact ⟨hstate.trans hready, by rw [hdocuments]; exact hfits.2⟩
  · next hkl =>
    have hcons : effectsFor (effect :: effects) k other.generation =
        effectsFor effects k other.generation := by
      rw [effectsFor_cons, if_neg]
      rw [ht]
      intro he
      exact hkl (congrArg Prod.fst (Option.some.inj he)).symm
    have hother := h k other hk (by rw [hcons]; exact hne)
    rwa [hcons] at hother

theorem informed_cons {l : String} {running : RunningLanguage} {client : LanguageClient}
    (hg : r.get? l = some running) (ht : effect.target = some (l, running.generation))
    (hstate : client.state = running.client.state)
    (hdocuments : client.documents = effect.revisions uri running.client.documents)
    (h : Informed uri effects (r.insert l { running with client }) r') :
    Informed uri (effect :: effects) r r' := by
  intro k other hk
  by_cases hkl : k = l
  · subst hkl
    rw [hg] at hk
    cases hk
    obtain ⟨running', hg', ho, hd⟩ := h k _ (by rw [SortedMap.get?_insert, if_pos rfl])
    refine ⟨running', hg', ?_, ?_⟩
    · rw [ho, RunningLanguage.outline, RunningLanguage.outline, hstate]
    · rw [hd, effectsFor_cons, if_pos ht, List.foldl_cons, hdocuments]
  · have hk' : (r.insert l { running with client }).get? k = some other := by
      rw [SortedMap.get?_insert, if_neg hkl]
      exact hk
    obtain ⟨running', hg', ho, hd⟩ := h k other hk'
    refine ⟨running', hg', ho, ?_⟩
    rw [hd, effectsFor_cons, if_neg]
    rw [ht]
    intro he
    exact hkl (congrArg Prod.fst (Option.some.inj he)).symm

/-- Effects that find their clients ready are taken in, or end at a full queue. -/
theorem applyEffects_ready (h : Ready uri effects r) :
    wp (applyEffects uri now order effects) (fun _ r' => Informed uri effects r r')
      (fun e _ => ¬Refusal e) True r := by
  unfold applyEffects
  induction effects generalizing r with
  | nil => exact wp_pure.mpr fun l running hg => ⟨running, hg, rfl, rfl⟩
  | cons e es ih =>
    rw [List.forM_cons, wp_bind]
    refine wp_applyEffect (fun hskip => ?_) fun l running hg ht => ?_
    · have hcons : ∀ l running, r.get? l = some running →
          effectsFor (e :: es) l running.generation = effectsFor es l running.generation :=
        fun l running hg => by rw [effectsFor_cons, if_neg (hskip l running hg)]
      refine wp_mono (ih fun l running hg hne => ?_) (fun _ r' hr' l running hg => ?_)
        (fun _ _ he => he) fun h => h
      · have := h l running hg (by rw [hcons l running hg]; exact hne)
        rwa [hcons l running hg] at this
      · obtain ⟨running', hg', ho, hd⟩ := hr' l running hg
        exact ⟨running', hg', ho, by rw [hd, hcons l running hg]⟩
    · obtain ⟨hready, hfits⟩ := h l running hg (by rw [effectsFor_cons, if_pos ht]; simp)
      rw [effectsFor_cons, if_pos ht] at hfits
      refine wp_mono
        (wp_and (e.call_state running.client) (LanguageEffect.call_fits hready hfits.1))
        (fun _ client hc => ?_) (fun _ _ he => he.2) fun h => h.1
      refine wp_mono (ih (ready_tail h hg ht ?_ ?_)) (fun _ r' hr' => ?_) (fun _ _ he => he)
        fun h => h
      · exact hc.1
      · exact hc.2
      · refine informed_cons hg ht ?_ ?_ hr'
        · exact hc.1
        · exact hc.2

end LanguageRuntime

end Strukt.App
