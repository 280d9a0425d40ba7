import Strukt.Session.CatalogRuns
import Strukt.Session.Service
import Strukt.Terminal.RuntimeSpec

/-!
# Valid services

`SessionService.Valid` is what the service keeps: the catalog and the runtime are valid, the two
tables of terminal panes are inverse to each other and name panes of the catalog, and the runtime's
generation of a started pane is the catalog's.

* **The catalog under the service** (`SessionCatalog.Touches`): panes stay, with their generation,
  and a lifecycle changes only by an event of the pane's generation.
* **Pruning** (`foldl_prunePane`): what the tables say of each pane afterwards.
-/

namespace Strukt

open Method

/-! ## Changes of the catalog -/

namespace SessionCatalog

variable {c c' c'' : SessionCatalog} {E : PaneId → UInt64 → Prop}

/-- The revision rose, unless nothing changed or it had reached its end. -/
def Raises (c c' : SessionCatalog) : Prop :=
  c' = c ∨ c.revision.toNat ≤ c'.revision.toNat ∧
    (c.revision.toNat < u64Max → c.revision.toNat < c'.revision.toNat)

theorem Raises.refl (c : SessionCatalog) : Raises c c := .inl rfl

theorem Raises.trans (h : Raises c c') (h' : Raises c' c'') : Raises c c'' := by
  rcases h with rfl | ⟨h₁, h₂⟩
  · exact h'
  rcases h' with rfl | ⟨h₃, h₄⟩
  · exact .inr ⟨h₁, h₂⟩
  · exact .inr ⟨h₁.trans h₃, fun h => (h₂ h).trans_le h₃⟩

theorem Raises.of_satSucc (h : c'.revision = c.revision.satSucc) : Raises c c' := by
  have hle := toNat_le_u64Max c.revision
  refine .inr ⟨?_, fun hlt => ?_⟩
  · rw [h, toNat_satSucc]; omega
  · rw [h, toNat_satSucc_of_lt hlt]; omega

/-- One pane before and after: its generation stays, its lifecycle too unless `E` names the pane and
its generation. -/
def SamePane (E : PaneId → UInt64 → Prop) (p : PaneId) (d d' : SessionPane) : Prop :=
  d'.generation = d.generation ∧ (d'.lifecycle = d.lifecycle ∨ E p d.generation)

/-- The panes stay, each as `SamePane` says. -/
structure Touches (E : PaneId → UInt64 → Prop) (c c' : SessionCatalog) : Prop where
  valid : c'.Valid
  raises : Raises c c'
  forward : ∀ k p d, (k, p, d) ∈ c.placements →
    ∃ d', (k, p, d') ∈ c'.placements ∧ SamePane E p d d'
  backward : ∀ k p d', (k, p, d') ∈ c'.placements →
    ∃ d, (k, p, d) ∈ c.placements ∧ SamePane E p d d'

theorem SamePane.refl (p : PaneId) (d : SessionPane) : SamePane E p d d := ⟨rfl, .inl rfl⟩

theorem SamePane.trans {p : PaneId} {d d' d'' : SessionPane} (h : SamePane E p d d')
    (h' : SamePane E p d' d'') : SamePane E p d d'' := by
  refine ⟨h'.1.trans h.1, ?_⟩
  rcases h'.2 with hl | he
  · rw [hl]; exact h.2
  · exact .inr (h.1 ▸ he)

theorem Touches.refl (hv : c.Valid) : Touches E c c :=
  ⟨hv, .refl c, fun _ p d h => ⟨d, h, .refl p d⟩, fun _ p d h => ⟨d, h, .refl p d⟩⟩

theorem Touches.trans (h : Touches E c c') (h' : Touches E c' c'') : Touches E c c'' := by
  refine ⟨h'.valid, h.raises.trans h'.raises, fun k p d hd => ?_, fun k p d hd => ?_⟩
  · obtain ⟨d₁, h₁, hs₁⟩ := h.forward k p d hd
    obtain ⟨d₂, h₂, hs₂⟩ := h'.forward k p d₁ h₁
    exact ⟨d₂, h₂, hs₁.trans hs₂⟩
  · obtain ⟨d₁, h₁, hs₁⟩ := h'.backward k p d hd
    obtain ⟨d₂, h₂, hs₂⟩ := h.backward k p d₁ h₁
    exact ⟨d₂, h₂, hs₂.trans hs₁⟩

theorem Touches.mem_paneIds (h : Touches E c c') {p : PaneId} :
    p ∈ c'.paneIds ↔ p ∈ c.paneIds := by
  rw [mem_paneIds_iff, mem_paneIds_iff]
  constructor
  · rintro ⟨k, d', hd'⟩
    obtain ⟨d, hd, -⟩ := h.backward k p d' hd'
    exact ⟨k, d, hd⟩
  · rintro ⟨k, d, hd⟩
    obtain ⟨d', hd', -⟩ := h.forward k p d hd
    exact ⟨k, d', hd'⟩

theorem WritesPane.touches (hv : c.Valid) {k : SessionId} {pane : PaneId} {d d' : SessionPane}
    (hd : (k, pane, d) ∈ c.placements) (h : WritesPane k pane d' c c')
    (hs : SamePane E pane d d') : Touches E c c' := by
  refine ⟨h.valid, .of_satSucc h.revision, fun j p x hx => ?_, fun j p x hx => ?_⟩
  · by_cases hp : p = pane
    · subst hp
      cases hv.placement_eq hd hx rfl
      exact ⟨d', (h.placements _).mpr (.inl rfl), hs⟩
    · exact ⟨x, (h.placements _).mpr (.inr ⟨hp, hx⟩), .refl p x⟩
  · rcases (h.placements _).mp hx with he | ⟨-, hx⟩
    · cases he
      exact ⟨d, hd, hs⟩
    · exact ⟨x, hx, .refl p x⟩

/-- A lifecycle update touches the catalog, its errors included. -/
theorem setGenerationLifecycle_touches (hv : c.Valid) {k : SessionId} {pane : PaneId} {g : UInt64}
    {l : PaneLifecycle} (hE : E pane g) :
    wp (setGenerationLifecycle k pane g l) (fun _ c' => Touches E c c') (fun _ c' => Touches E c c')
      False c := by
  refine wp_mono (setGenerationLifecycle_spec hv) (fun ok c' h => ?_) (fun _ c' h => ?_) id
  · obtain ⟨d, hd, ⟨-, -, rfl⟩ | ⟨-, -, -, rfl⟩ | ⟨-, rfl, -, hw⟩⟩ := h
    · exact .refl hv
    · exact .refl hv
    · exact hw.touches hv hd ⟨rfl, .inr hE⟩
  · subst h; exact .refl hv

theorem setPaneSize_touches (hv : c.Valid) {e : UInt64} {k : SessionId} {pane : PaneId}
    {rows columns : UInt16} :
    wp (setPaneSize e k pane rows columns) (fun _ c' => Touches E c c')
      (fun _ c' => Touches E c c') False c := by
  refine wp_mono (setPaneSize_spec hv) (fun _ c' h => ?_) (fun _ c' h => ?_) id
  · obtain ⟨-, d, hd, hw⟩ := h
    exact hw.touches hv hd ⟨rfl, .inl rfl⟩
  · subst h; exact .refl hv

end SessionCatalog

/-! ## Valid services -/

variable {P : Platform}

namespace SessionService

variable {s s' : SessionService P}

structure Valid (s : SessionService P) : Prop where
  catalog : s.catalog.Valid
  runtime : s.runtime.Valid
  placed : ∀ p ∈ s.terminalPanes.keys, p ∈ s.catalog.paneIds
  inverse : ∀ p t, s.sessionPanes.get? t = some p ↔ s.terminalPanes.get? p = some t
  counted : ∀ p t, s.terminalPanes.get? p = some t → t.value < s.nextTerminal
  hosted : ∀ t r, s.runtime.panes.get? t = some r → ∃ p, s.terminalPanes.get? p = some t
  started : ∀ k p d t, (k, p, d) ∈ s.catalog.placements → s.terminalPanes.get? p = some t →
    ∃ r, s.runtime.panes.get? t = some r ∧ r.generation = d.generation
  unstarted : ∀ k p d, (k, p, d) ∈ s.catalog.placements → s.terminalPanes.get? p = none →
    d.generation = 0
  outputs : ∀ p ∈ s.outputRevisions.keys, p ∈ s.terminalPanes.keys
  history : ∀ p ∈ s.historical.keys, p ∉ s.terminalPanes.keys

/-- What a snapshot of a pane without a terminal pane shows. -/
def screens (s : SessionService P) (p : PaneId) :
    Option (UInt64 × UInt64 × List Row × CursorSnapshot) :=
  (s.historical.get? p).map fun h => (h.generation, h.outputRevision, h.rows, h.cursor)

/-- The tables of terminal panes and of historical screens stay. -/
structure Frame (s s' : SessionService P) : Prop where
  terminalPanes : s'.terminalPanes = s.terminalPanes
  sessionPanes : s'.sessionPanes = s.sessionPanes
  nextTerminal : s'.nextTerminal = s.nextTerminal
  screens : s'.screens = s.screens

theorem Frame.refl (s : SessionService P) : Frame s s := ⟨rfl, rfl, rfl, rfl⟩

theorem Frame.trans {s'' : SessionService P} (h : Frame s s') (h' : Frame s' s'') : Frame s s'' :=
  ⟨h'.terminalPanes.trans h.terminalPanes, h'.sessionPanes.trans h.sessionPanes,
    h'.nextTerminal.trans h.nextTerminal, h'.screens.trans h.screens⟩

theorem mem_historical {p : PaneId} : p ∈ s.historical.keys ↔ (s.screens p).isSome := by
  rw [screens, Option.isSome_map, Option.isSome_iff_exists, SortedMap.mem_keys_iff]

theorem Frame.mem_historical (h : Frame s s') {p : PaneId} :
    p ∈ s'.historical.keys ↔ p ∈ s.historical.keys := by
  rw [SessionService.mem_historical, SessionService.mem_historical, h.screens]

theorem Valid.terminal_inj (hv : s.Valid) {p q : PaneId} {t : TerminalPaneId}
    (hp : s.terminalPanes.get? p = some t) (hq : s.terminalPanes.get? q = some t) : p = q :=
  Option.some.inj (((hv.inverse p t).mpr hp).symm.trans ((hv.inverse q t).mpr hq))

/-- A step that leaves the tables, and keeps the panes of the catalog and of the runtime with
their generations. -/
theorem Valid.frame (hv : s.Valid) (hf : Frame s s')
    (ho : ∀ p ∈ s'.outputRevisions.keys, p ∈ s.terminalPanes.keys) {E : PaneId → UInt64 → Prop}
    (hc : SessionCatalog.Touches E s.catalog s'.catalog) (hr : s'.runtime.Valid)
    (hpanes : ∀ t, (s'.runtime.panes.get? t).map (·.generation) =
      (s.runtime.panes.get? t).map (·.generation)) : s'.Valid where
  catalog := hc.valid
  runtime := hr
  placed p hp := by
    rw [hf.terminalPanes] at hp
    exact hc.mem_paneIds.mpr (hv.placed p hp)
  inverse p t := by rw [hf.terminalPanes, hf.sessionPanes]; exact hv.inverse p t
  counted p t h := by rw [hf.nextTerminal]; exact hv.counted p t (hf.terminalPanes ▸ h)
  hosted t r h := by
    have hg := hpanes t
    rw [h, Option.map_some, eq_comm, Option.map_eq_some_iff] at hg
    obtain ⟨r₀, hr₀, -⟩ := hg
    rw [hf.terminalPanes]
    exact hv.hosted t r₀ hr₀
  started k p d' t hd' ht := by
    obtain ⟨d, hd, hg, -⟩ := hc.backward k p d' hd'
    obtain ⟨r, hr, hrg⟩ := hv.started k p d t hd (hf.terminalPanes ▸ ht)
    have hmap := hpanes t
    rw [hr, Option.map_some, Option.map_eq_some_iff] at hmap
    obtain ⟨r', hr', hg'⟩ := hmap
    exact ⟨r', hr', by rw [hg', hrg, hg]⟩
  unstarted k p d' hd' ht := by
    obtain ⟨d, hd, hg, -⟩ := hc.backward k p d' hd'
    rw [hg]
    exact hv.unstarted k p d hd (hf.terminalPanes ▸ ht)
  outputs p hp := by rw [hf.terminalPanes]; exact ho p hp
  history p hp := by
    rw [hf.terminalPanes]
    exact hv.history p (hf.mem_historical.mp hp)

/-! ## Pruning -/

theorem foldl_prunePane (l : List PaneId) (s : SessionService P) :
    (l.foldl prunePane s).catalog = s.catalog ∧
    (l.foldl prunePane s).nextTerminal = s.nextTerminal ∧
    (∀ p, (l.foldl prunePane s).terminalPanes.get? p =
      if p ∈ l then none else s.terminalPanes.get? p) ∧
    (∀ p, (l.foldl prunePane s).outputRevisions.get? p =
      if p ∈ l then none else s.outputRevisions.get? p) ∧
    (∀ p, (l.foldl prunePane s).historical.get? p =
      if p ∈ l then none else s.historical.get? p) ∧
    (∀ t, (∃ p ∈ l, s.terminalPanes.get? p = some t) →
      (l.foldl prunePane s).sessionPanes.get? t = none ∧
      (l.foldl prunePane s).runtime.panes.get? t = none) ∧
    (∀ t, (¬∃ p ∈ l, s.terminalPanes.get? p = some t) →
      (l.foldl prunePane s).sessionPanes.get? t = s.sessionPanes.get? t ∧
      (l.foldl prunePane s).runtime.panes.get? t = s.runtime.panes.get? t) := by
  induction l generalizing s with
  | nil => simp
  | cons p l ih =>
    obtain ⟨h₁, h₂, h₃, h₄, h₅, h₆, h₇⟩ := ih (s.prunePane p)
    have hget : ∀ q, (s.prunePane p).terminalPanes.get? q =
        if q = p then none else s.terminalPanes.get? q := by
      intro q
      by_cases hq : q = p <;> simp [prunePane, hq]
    have hgone : ∀ t, s.terminalPanes.get? p = some t →
        (s.prunePane p).sessionPanes.get? t = none ∧ (s.prunePane p).runtime.panes.get? t = none := by
      intro t ht
      simp [prunePane, ht]
    have hkept : ∀ t, s.terminalPanes.get? p ≠ some t →
        (s.prunePane p).sessionPanes.get? t = s.sessionPanes.get? t ∧
        (s.prunePane p).runtime.panes.get? t = s.runtime.panes.get? t := by
      intro t ht
      cases hp : s.terminalPanes.get? p with
      | none => simp [prunePane, hp]
      | some u =>
        have hne : t ≠ u := fun he => ht (by rw [hp, he])
        simp [prunePane, hp, hne]
    have hmem : ∀ {ν : Type} (m : SortedMap PaneId ν) (q : PaneId),
        (if q ∈ l then none else (m.remove p).get? q) =
          if q ∈ p :: l then none else m.get? q := by
      intro ν m q
      by_cases hq : q = p
      · simp [hq]
      · simp [hq]
    simp only [List.foldl_cons]
    refine ⟨h₁, h₂, fun q => ?_, fun q => ?_, fun q => ?_, fun t ht => ?_, fun t ht => ?_⟩
    · rw [h₃]; exact hmem _ q
    · rw [h₄]; exact hmem _ q
    · rw [h₅]; exact hmem _ q
    · by_cases hl : ∃ q ∈ l, (s.prunePane p).terminalPanes.get? q = some t
      · exact h₆ t hl
      · rw [(h₇ t hl).1, (h₇ t hl).2]
        obtain ⟨q, hq, hqt⟩ := ht
        rcases List.mem_cons.mp hq with rfl | hq
        · exact hgone t hqt
        · by_cases hqp : q = p
          · exact hgone t (hqp ▸ hqt)
          · exact absurd ⟨q, hq, by rw [hget, if_neg hqp, hqt]⟩ hl
    · have hl : ¬∃ q ∈ l, (s.prunePane p).terminalPanes.get? q = some t := by
        rintro ⟨q, hq, hqt⟩
        rw [hget] at hqt
        split at hqt
        · cases hqt
        · exact ht ⟨q, List.mem_cons_of_mem _ hq, hqt⟩
      rw [(h₇ t hl).1, (h₇ t hl).2]
      exact hkept t fun hpt => ht ⟨p, List.mem_cons_self, hpt⟩

/-- Of the panes that left the catalog, nothing stays of those that had a terminal pane. -/
structure Pruned (s s' : SessionService P) : Prop where
  nextTerminal : s'.nextTerminal = s.nextTerminal
  terminalPanes : ∀ p, s'.terminalPanes.get? p =
    if p ∈ s'.catalog.paneIds then s.terminalPanes.get? p else none
  sessionPanes : ∀ p t, s'.sessionPanes.get? t = some p ↔ s'.terminalPanes.get? p = some t
  runtime : ∀ p t, s'.terminalPanes.get? p = some t →
    s'.runtime.panes.get? t = s.runtime.panes.get? t
  hosted : ∀ t r, s'.runtime.panes.get? t = some r →
    s.runtime.panes.get? t = some r ∧ ∃ p, s'.terminalPanes.get? p = some t
  outputRevisions : ∀ p, s'.outputRevisions.get? p =
    if p ∈ s'.catalog.paneIds then s.outputRevisions.get? p else none
  historical : ∀ p, s'.historical.get? p =
    if p ∈ s'.catalog.paneIds ∨ p ∉ s.terminalPanes.keys then s.historical.get? p else none

/-- What `apply_catalog_mutation` does once the catalog has changed. -/
theorem Valid.pruned (hv : s.Valid) (c : SessionCatalog) :
    Pruned s ((removedPanes { s with catalog := c }).foldl prunePane { s with catalog := c }) ∧
      ((removedPanes { s with catalog := c }).foldl prunePane { s with catalog := c }).catalog = c := by
  obtain ⟨h₁, h₂, h₃, h₄, h₅, h₆, h₇⟩ :=
    foldl_prunePane (removedPanes { s with catalog := c }) { s with catalog := c }
  have hmem : ∀ p, p ∈ removedPanes { s with catalog := c } ↔
      p ∈ s.terminalPanes.keys ∧ p ∉ c.paneIds := by
    intro p
    simp [removedPanes, ← SessionCatalog.containsPane_iff]
  generalize (removedPanes { s with catalog := c }).foldl prunePane { s with catalog := c } = s'
    at h₁ h₂ h₃ h₄ h₅ h₆ h₇
  have hterm : ∀ p, s'.terminalPanes.get? p =
      if p ∈ c.paneIds then s.terminalPanes.get? p else none := by
    intro p
    rw [h₃]
    by_cases hc : p ∈ c.paneIds
    · rw [if_neg (fun h => ((hmem p).mp h).2 hc), if_pos hc]
    · rw [if_neg hc]
      split
      · rfl
      · rename_i hn
        exact SortedMap.get?_eq_none.mpr fun hk => hn ((hmem p).mpr ⟨hk, hc⟩)
  have hkept : ∀ p t, s'.terminalPanes.get? p = some t →
      ¬∃ q ∈ removedPanes { s with catalog := c }, s.terminalPanes.get? q = some t := by
    rintro p t hp ⟨q, hq, hqt⟩
    rw [hterm] at hp
    split at hp
    · rename_i hc
      exact ((hmem q).mp hq).2 (hv.terminal_inj hqt hp ▸ hc)
    · cases hp
  have hsome : ∀ t, ¬(∃ q ∈ removedPanes { s with catalog := c }, s.terminalPanes.get? q = some t) →
      ∀ p, s.terminalPanes.get? p = some t → s'.terminalPanes.get? p = some t := by
    intro t ht p hp
    rw [h₃, if_neg fun hq => ht ⟨p, hq, hp⟩]
    exact hp
  refine ⟨⟨h₂, fun p => by rw [hterm, h₁], fun p t => ⟨fun h => ?_, fun h => ?_⟩, fun p t h => ?_,
    fun t r h => ?_, fun p => ?_, fun p => ?_⟩, h₁⟩
  · by_cases hl : ∃ q ∈ removedPanes { s with catalog := c }, s.terminalPanes.get? q = some t
    · rw [(h₆ t hl).1] at h
      cases h
    · rw [(h₇ t hl).1] at h
      exact hsome t hl p ((hv.inverse p t).mp h)
  · have hp := h
    rw [hterm] at hp
    split at hp
    · rw [(h₇ t (hkept p t h)).1]
      exact (hv.inverse p t).mpr hp
    · cases hp
  · exact (h₇ t (hkept p t h)).2
  · by_cases hl : ∃ q ∈ removedPanes { s with catalog := c }, s.terminalPanes.get? q = some t
    · rw [(h₆ t hl).2] at h
      cases h
    · rw [(h₇ t hl).2] at h
      obtain ⟨p, hp⟩ := hv.hosted t r h
      exact ⟨h, p, hsome t hl p hp⟩
  · rw [h₄, h₁]
    by_cases hc : p ∈ c.paneIds
    · rw [if_neg (fun h => ((hmem p).mp h).2 hc), if_pos hc]
    · rw [if_neg hc]
      split
      · rfl
      · rename_i hn
        exact SortedMap.get?_eq_none.mpr fun hk => hn ((hmem p).mpr ⟨hv.outputs p hk, hc⟩)
  · rw [h₅, h₁]
    by_cases hc : p ∈ c.paneIds ∨ p ∉ s.terminalPanes.keys
    · rw [if_pos hc, if_neg fun h => ?_]
      exact hc.elim ((hmem p).mp h).2 fun hk => hk ((hmem p).mp h).1
    · push Not at hc
      rw [if_pos ((hmem p).mpr ⟨hc.2, hc.1⟩), if_neg fun h => h.elim hc.1 fun hk => hk hc.2]

/-- A mutation of the catalog that drops panes and adds new ones, with the pruning after it. -/
theorem Valid.mutated (hv : s.Valid) (hp : Pruned s s') (hc : s'.catalog.Valid) {t : Turnover}
    (he : s.catalog.Evolves t s'.catalog) : s'.Valid where
  catalog := hc
  runtime := ⟨fun t r h => hv.runtime.shaped t r (hp.hosted t r h).1,
    fun t r h => hv.runtime.owner t r (hp.hosted t r h).1⟩
  placed p h := by
    obtain ⟨t, ht⟩ := SortedMap.mem_keys_iff.mp h
    rw [hp.terminalPanes] at ht
    split at ht
    · assumption
    · cases ht
  inverse := hp.sessionPanes
  counted p t h := by
    rw [hp.terminalPanes] at h
    rw [hp.nextTerminal]
    split at h
    · exact hv.counted p t h
    · cases h
  hosted t r h := (hp.hosted t r h).2
  started k p d t hd ht := by
    rw [hp.runtime p t ht]
    rw [hp.terminalPanes] at ht
    split at ht
    · rcases he.backward _ hd with h | ⟨h, -⟩
      · exact hv.started k p d t h ht
      · exact absurd (hv.placed p (SortedMap.mem_keys_of_get? ht)) h
    · cases ht
  unstarted k p d hd ht := by
    rcases he.backward _ hd with h | ⟨-, -, h⟩
    · rw [hp.terminalPanes, if_pos (SessionCatalog.mem_paneIds_of_mem hd)] at ht
      exact hv.unstarted k p d h ht
    · exact h.1
  outputs p h := by
    obtain ⟨o, ho⟩ := SortedMap.mem_keys_iff.mp h
    rw [hp.outputRevisions] at ho
    split at ho
    · rename_i hc
      obtain ⟨t, ht⟩ := SortedMap.mem_keys_iff.mp (hv.outputs p (SortedMap.mem_keys_of_get? ho))
      exact SortedMap.mem_keys_iff.mpr ⟨t, by rw [hp.terminalPanes, if_pos hc, ht]⟩
    · cases ho
  history p h hk := by
    obtain ⟨t, ht⟩ := SortedMap.mem_keys_iff.mp hk
    obtain ⟨x, hx⟩ := SortedMap.mem_keys_iff.mp h
    rw [hp.terminalPanes] at ht
    rw [hp.historical] at hx
    split at hx
    · split at ht
      · exact hv.history p (SortedMap.mem_keys_of_get? hx) (SortedMap.mem_keys_of_get? ht)
      · cases ht
    · cases hx

/-- A catalog of stopped panes in place of an empty one. -/
theorem Valid.imported (hv : s.Valid) (hf : Frame s s')
    (ho : s'.outputRevisions = s.outputRevisions) (hr : s'.runtime = s.runtime)
    (he : s.catalog.paneIds = []) (hc : s'.catalog.Valid)
    (hg : ∀ k p d, (k, p, d) ∈ s'.catalog.placements → d.generation = 0) : s'.Valid := by
  have hnone : ∀ p, s.terminalPanes.get? p = none := by
    intro p
    rw [SortedMap.get?_eq_none]
    intro hk
    have := hv.placed p hk
    rw [he] at this
    cases this
  refine ⟨hc, hr ▸ hv.runtime, fun p hp => ?_, fun p t => ?_, fun p t h => ?_, fun t r h => ?_,
    fun k p d t hd ht => ?_, fun k p d hd _ => hg k p d hd, fun p hp => ?_, fun p hp => ?_⟩
  · rw [hf.terminalPanes] at hp
    exact absurd (hnone p) (by obtain ⟨t, ht⟩ := SortedMap.mem_keys_iff.mp hp; simp [ht])
  · rw [hf.terminalPanes, hf.sessionPanes]; exact hv.inverse p t
  · rw [hf.terminalPanes, hnone] at h; cases h
  · rw [hf.terminalPanes]; exact hv.hosted t r (hr ▸ h)
  · rw [hf.terminalPanes, hnone] at ht; cases ht
  · rw [hf.terminalPanes]; exact hv.outputs p (ho ▸ hp)
  · rw [hf.terminalPanes]; exact hv.history p (hf.mem_historical.mp hp)

end SessionService
end Strukt
