import Strukt.Session.Persistence

/-!
# The output revision law

A snapshot reports what its pane shows under the pane's generation and output revision. The law is
that over a run these two, in that order, name the screen.

* **One call** (`Transition.supersedes`): a pane that stays in the catalog shows what it showed, or
  something under a larger pair, where the call meets `Orders`.
* **Runs** (`System.outputRevision_runs`): a pane that leaves the catalog does not come back
  (`System.NoReuse`), so its version is above all others from then on (`System.version`), and a
  run's versions never go back (`Follows`).
-/

namespace Strukt

open Method SessionCatalog

variable {P : Platform}

/-- A screen with the generation and the output revision that it is reported under. -/
abbrev Shown := UInt64 × UInt64 × List Row × CursorSnapshot

namespace Shown

def version (v : Shown) : ℕ ×ₗ ℕ := toLex (v.1.toNat, v.2.1.toNat)

/-- The pair of generation and output revision is smaller. -/
def Before (v w : Shown) : Prop := v.1 < w.1 ∨ v.1 = w.1 ∧ v.2.1 < w.2.1

theorem version_lt {v w : Shown} : v.version < w.version ↔ v.Before w := by
  rw [version, version, Prod.Lex.toLex_lt_toLex]
  simp only [Before, UInt64.lt_iff_toNat_lt, UInt64.toNat_inj]

end Shown

/-- The version of what is shown: nothing is below everything. -/
def rank : Option Shown → ℕ ×ₗ ℕ ×ₗ ℕ
  | none => toLex (0, toLex (0, 0))
  | some v => toLex (1, v.version)

/-- Nothing was shown, or the same, or something under a smaller pair. -/
def Supersedes (v w : Option Shown) : Prop :=
  v = none ∨ w = v ∨ ∃ a b, v = some a ∧ w = some b ∧ a.Before b

theorem Supersedes.rank_le {v w : Option Shown} (h : Supersedes v w) :
    rank v ≤ rank w ∧ (rank v = rank w → v = w) := by
  have below : ∀ w : Option Shown, rank none ≤ rank w ∧ (rank none = rank w → none = w) := by
    intro w
    cases w with
    | none => exact ⟨le_rfl, fun _ => rfl⟩
    | some b =>
      have hlt : rank none < rank (some b) := Prod.Lex.toLex_lt_toLex.mpr (.inl Nat.zero_lt_one)
      exact ⟨hlt.le, fun he => absurd he hlt.ne⟩
  rcases h with rfl | rfl | ⟨a, b, rfl, rfl, hab⟩
  · exact below w
  · exact ⟨le_rfl, fun _ => rfl⟩
  · have hlt : rank (some a) < rank (some b) :=
      Prod.Lex.toLex_lt_toLex.mpr (.inr ⟨rfl, Shown.version_lt.mpr hab⟩)
    exact ⟨hlt.le, fun he => absurd he hlt.ne⟩

namespace SessionService

variable {s s' : SessionService P} {C : Call P} {p : PaneId}

/-- What a terminal's grid shows. -/
def screenOf (r : PaneRuntime P) : List Row × CursorSnapshot :=
  ((r.model.snapshot 0).rows, ⟨(r.model.snapshot 0).cursor.row, (r.model.snapshot 0).cursor.column,
    (r.model.snapshot 0).cursor.visible⟩)

/-- What a snapshot of the pane reports. -/
def shown (s : SessionService P) (p : PaneId) : Option Shown :=
  match s.terminalPanes.get? p with
  | none => s.screens p
  | some t => (s.runtime.panes.get? t).map fun r =>
    (r.generation, (s.outputRevisions.get? p).getD 0, screenOf r)

theorem snapshot_shows (hv : s.Valid) (p : PaneId) :
    wp (snapshot p) (fun a _ => p ∈ s.catalog.paneIds ∧
      s.shown p = some (a.generation, a.outputRevision, a.rows, a.cursor)) (fun _ _ => True) True
      s := by
  simp only [snapshot, wp_bind, wp_definition, wp_get, wp_orPanic]
  refine ⟨fun k w d hp => ⟨fun viewed _ => ?_, fun _ => trivial⟩, fun _ => trivial⟩
  have hmem : p ∈ s.catalog.paneIds := mem_paneIds_of_mem (pane_mem hp)
  unfold shown
  cases ht : s.terminalPanes.get? p with
  | none =>
    simp only [wp_bind, wp_okOr, wp_ite, wp_modify, wp_pure]
    refine ⟨fun screen hs => ?_, fun _ => trivial⟩
    have hshow : s.screens p =
        some (screen.generation, screen.outputRevision, screen.rows, screen.cursor) := by
      rw [screens, hs]
      rfl
    exact ⟨fun _ => ⟨fun _ => ⟨hmem, hshow⟩, fun _ => ⟨hmem, hshow⟩⟩, fun _ => ⟨hmem, hshow⟩⟩
  | some t =>
    obtain ⟨r, hr, hg⟩ := hv.started k p d t (pane_mem hp) ht
    simp only [wp_bind, wp_okOr, wp_ofExcept, wp_ite, wp_modify, wp_pure]
    refine ⟨fun x hx => ⟨fun a ha => ?_, fun _ _ => trivial⟩, fun _ => trivial⟩
    have hshow : (s.runtime.panes.get? t).map (fun r =>
        ((r.generation, (s.outputRevisions.get? p).getD 0, screenOf r) : Shown)) =
          some (a.generation, a.outputRevision, a.rows, a.cursor) := by
      simp only [terminalScreen, TerminalRuntime.projection, hr, Option.map_some,
        Option.some.injEq] at hx
      subst hx
      cases hf : PaneScreenSnapshot.fromTerminal (r.model.snapshot 0)
        ((s.outputRevisions.get? p).getD 0) d.generation d.lifecycle
        ((s.unreadCounts.get? p).getD 0) ((s.attention.get? p).getD .none) with
      | error e => rw [hf] at ha; cases ha
      | ok a' =>
        rw [hf] at ha
        cases ha
        obtain ⟨h₁, h₂, h₃, h₄⟩ := PaneScreenSnapshot.fromTerminal_eq_ok hf
        rw [hr, h₁, h₂, h₃, h₄, ← hg]
        rfl
    exact ⟨fun _ => ⟨hmem, hshow⟩, fun _ => ⟨hmem, hshow⟩⟩

/-! ## One call -/

/-- A resize to the size that the grid has, a start whose generation is above the one that the pane
shows, and a tick that takes the revision of each grid whose screen it changes above the recorded
one, while output revisions can rise. -/
structure Orders (C : Call P) (s : SessionService P) : Prop where
  resize : ∀ p size t r, C.resize p size → s.terminalPanes.get? p = some t →
    s.runtime.panes.get? t = some r → size.grid = r.model.size
  start : ∀ p size k d v, C.start p size → (k, p, d) ∈ s.catalog.placements →
    s.shown p = some v → v.1 < d.generation.satSucc
  tick : ∀ rt, C.drained rt → ∀ p t r r', s.terminalPanes.get? p = some t →
    s.runtime.panes.get? t = some r → rt.panes.get? t = some r' → screenOf r' ≠ screenOf r →
      (s.terminalRevisions.get? p).getD 0 < (r'.model.snapshot 0).revision ∧
        ((s.outputRevisions.get? p).getD 0).toNat < u64Max

theorem shown_congr (ht : s'.terminalPanes = s.terminalPanes) (hs : s'.screens = s.screens)
    (ho : s'.outputRevisions.get? p = s.outputRevisions.get? p)
    (hr : ∀ t, s.terminalPanes.get? p = some t →
      (s'.runtime.panes.get? t).map (fun r => (r.generation, screenOf r)) =
        (s.runtime.panes.get? t).map (fun r => (r.generation, screenOf r))) :
    s'.shown p = s.shown p := by
  unfold shown
  rw [ht, hs, ho]
  split
  · rfl
  · rename_i t hpt
    have h := congrArg (Option.map fun x : UInt64 × List Row × CursorSnapshot =>
      ((x.1, (s.outputRevisions.get? p).getD 0, x.2) : Shown)) (hr t hpt)
    simpa only [Option.map_map, Function.comp_def] using h

theorem screenOf_congr {r r' : PaneRuntime P} (h : r'.model.performer = r.model.performer) :
    screenOf r' = screenOf r := by
  simp only [screenOf, TerminalModel.snapshot, h]

/-- The screens of a pane in a tick: an output revision rises where the screen changed. -/
theorem Ticked.supersedes {E : PaneId → UInt64 → Prop} {changed : SortedMap TerminalPaneId Unit}
    {rt : TerminalRuntime P} (hd : TerminalRuntime.Drained changed s.runtime rt)
    (h : Ticked E changed.keys { s with runtime := rt } s') (hC : s.Orders C) (hrt : C.drained rt) :
    Supersedes (s.shown p) (s'.shown p) := by
  unfold shown
  rw [h.frame.terminalPanes, h.frame.screens]
  dsimp only
  cases ht : s.terminalPanes.get? p with
  | none => exact .inr (.inl rfl)
  | some t =>
    dsimp only
    rw [h.runtime]
    cases hr' : rt.panes.get? t with
    | none =>
      have : t ∉ s.runtime.panes.keys := hd.keys ▸ SortedMap.get?_eq_none.mp hr'
      rw [SortedMap.get?_eq_none.mpr this]
      exact .inl rfl
    | some r' =>
      obtain ⟨r, hr, hp, hsame⟩ := hd.pane t r' hr'
      rw [hr, Option.map_some, Option.map_some, hp.generation]
      by_cases hchanged : screenOf r' = screenOf r
      · -- The same screen, under the same output revision or the next one.
        rw [hchanged]
        by_cases hraise : t ∈ changed.keys ∧ RaisesOutput { s with runtime := rt } p t
        · rw [h.raised p t hraise.1 ht hraise.2]
          by_cases hlt : ((s.outputRevisions.get? p).getD 0).toNat < u64Max
          · refine .inr (.inr ⟨_, _, rfl, rfl, .inr ⟨rfl, ?_⟩⟩)
            rw [UInt64.lt_iff_toNat_lt, Option.getD_some, toNat_satSucc_of_lt hlt]
            exact Nat.lt_succ_self _
          · refine .inr (.inl ?_)
            have hmax : ((s.outputRevisions.get? p).getD 0).satSucc =
                (s.outputRevisions.get? p).getD 0 := by
              have hle := toNat_le_u64Max ((s.outputRevisions.get? p).getD 0)
              rw [← UInt64.toNat_inj, toNat_satSucc]
              omega
            simp only [Option.getD_some, hmax]
        · rw [h.kept p fun u hu hpu => ?_]
          · exact .inr (.inl rfl)
          · cases ht.symm.trans hpu
            exact fun hr => hraise ⟨hu, hr⟩
      · obtain ⟨hlt, hmax⟩ := hC.tick rt hrt p t r r' ht hr hr' hchanged
        have hmem : t ∈ changed.keys := by
          by_contra hn
          exact hchanged (screenOf_congr (hsame hn).1)
        rw [h.raised p t hmem ht ⟨r', hr', hlt⟩]
        refine .inr (.inr ⟨_, _, rfl, rfl, .inr ⟨rfl, ?_⟩⟩)
        rw [UInt64.lt_iff_toNat_lt, Option.getD_some, toNat_satSucc_of_lt hmax]
        exact Nat.lt_succ_self _

/-- A pane that stays in the catalog. -/
theorem Transition.supersedes (hv : s.Valid) (h : Transition C s s') (hC : s.Orders C)
    (hp : p ∈ s.catalog.paneIds) (hp' : p ∈ s'.catalog.paneIds) :
    Supersedes (s.shown p) (s'.shown p) := by
  cases h with
  | quiet hf ho _ hr =>
    exact .inr (.inl (shown_congr hf.terminalPanes hf.screens (by rw [ho]) fun t _ => by rw [hr]))
  | process hf ho _ _ t hch =>
    refine .inr (.inl (shown_congr hf.terminalPanes hf.screens (by rw [ho]) fun u _ => ?_))
    rcases hch with h | ⟨r, r', hr, h, hg, hm⟩
    · rw [h]
    · rw [h]
      by_cases hu : u = t
      · subst hu
        have hscreen : screenOf r' = screenOf r := screenOf_congr (by rw [hm])
        simp [hr, hg, hscreen]
      · simp [hu]
  | resize hf ho _ pane t size r r' ha ht hr hrt hz =>
    have hm : r'.model = r.model := by
      have hsize := hC.resize pane size t r ha ht hr
      have := hz.model
      rw [hsize, TerminalModel.resize_self] at this
      exact (Option.some.inj this).symm
    refine .inr (.inl (shown_congr hf.terminalPanes hf.screens (by rw [ho]) fun u _ => ?_))
    by_cases hu : u = t
    · subst hu
      have hscreen : screenOf r' = screenOf r := screenOf_congr (by rw [hm])
      simp [hrt, hr, hz.generation, hscreen]
    · simp [hrt, hu]
  | tick changed rt ha hd ht => exact ht.supersedes hd hC ha
  | mutate hpr _ _ _ =>
    refine .inr (.inl ?_)
    unfold shown
    rw [hpr.terminalPanes, if_pos hp', hpr.outputRevisions, if_pos hp']
    cases ht : s.terminalPanes.get? p with
    | none =>
      simp only [screens]
      rw [hpr.historical, if_pos (.inl hp')]
    | some t =>
      dsimp only
      rw [hpr.runtime p t (by rw [hpr.terminalPanes, if_pos hp', ht])]
  | replace _ _ _ hempty =>
    rw [hempty] at hp
    cases hp
  | start k pane d d' t size ha hd hgen hE hw ht htp hsp hn r hr hnew ho hh =>
    by_cases hpp : p = pane
    · subst hpp
      have hnext : s'.shown p = some (d'.generation, (s.outputRevisions.get? p).getD 0,
          screenOf r) := by
        unfold shown
        rw [htp, SortedMap.get?_insert, if_pos rfl]
        dsimp only
        rw [hr, SortedMap.get?_insert, if_pos rfl, ho, hnew]
        rfl
      rw [hnext]
      cases hs : s.shown p with
      | none => exact .inl rfl
      | some v =>
        refine .inr (.inr ⟨v, _, rfl, rfl, .inl ?_⟩)
        rw [hgen]
        exact hC.start p size k d v ha hd hs
    · refine .inr (.inl ?_)
      unfold shown
      rw [htp, SortedMap.get?_insert, if_neg hpp, ho]
      cases hpt : s.terminalPanes.get? p with
      | none => simp [screens, hh, hpp]
      | some u =>
        have hut : u ≠ t := by
          rintro rfl
          rcases ht with ht | ⟨-, rfl⟩
          · exact hpp (hv.terminal_inj hpt ht)
          · exact absurd (hv.counted p _ hpt) (lt_irrefl _)
        simp [hr, hut]

end SessionService
/-! ## Runs -/

namespace System

variable {S S' : System P} {o : ServiceOp P} {p : PaneId}

/-- The panes that the call adds are not those of a pane that the catalog has had. -/
def NoReuse (S : System P) (o : ServiceOp P) : Prop :=
  (∀ p, (S.turnover o).drawn p → p ∉ S.seen) ∧ ∀ c, S.Installs c o → ∀ p ∈ c.paneIds, p ∉ S.seen

/-- A call under which screens and output revisions go together. -/
structure Ordered (S : System P) (o : ServiceOp P) : Prop where
  fresh : S.Fresh o
  noReuse : S.NoReuse o
  orders : S.service.Orders (S.about o)

/-- What the pane shows, while it is in the catalog. -/
def content (p : PaneId) (S : System P) : Option Shown :=
  if p ∈ S.service.catalog.paneIds then S.service.shown p else none

/-- The version of the pane: that of what it shows, and above all of them once it is gone. -/
def version (p : PaneId) (S : System P) : ℕ ×ₗ ℕ ×ₗ ℕ :=
  if p ∈ S.service.catalog.paneIds then rank (S.service.shown p)
  else if p ∈ S.seen then toLex (2, toLex (0, 0)) else rank none

theorem rank_lt_gone (v : Option Shown) : rank v < toLex (2, toLex (0, 0)) := by
  cases v with
  | none => exact Prod.Lex.toLex_lt_toLex.mpr (.inl Nat.zero_lt_two)
  | some a => exact Prod.Lex.toLex_lt_toLex.mpr (.inl Nat.one_lt_two)

/-- Where a step leaves the panes that the catalog has had. -/
theorem step_seen (h : S.step o = some S') : S'.seen = S'.service.catalog.paneIds ++ S.seen := by
  have called : ∀ {α : Type} {T : System P} {x : ServiceM P α} {keep : α → System P → System P},
      T.call x keep = some S' → T.seen = S.seen →
      (∀ a T, (keep a T).seen = T.seen ∧ (keep a T).service = T.service) →
      S'.seen = S'.service.catalog.paneIds ++ S.seen := by
    intro α T x keep hc hT hk
    obtain ⟨⟨r, s⟩, -, rfl⟩ := Option.map_eq_some_iff.mp hc
    rw [← hT]
    cases r with
    | ok a =>
      dsimp only
      rw [(hk a _).1, (hk a _).2]
      rfl
    | error e => rfl
  cases o with
  | finishStart n spawned =>
    obtain ⟨job, -, h⟩ := Option.bind_eq_some_iff.mp h
    exact called h rfl fun _ _ => ⟨rfl, rfl⟩
  | finishTerminate n =>
    obtain ⟨job, -, h⟩ := Option.bind_eq_some_iff.mp h
    exact called h rfl fun _ _ => ⟨rfl, rfl⟩
  | _ =>
    rw [step] at h
    exact called h rfl fun _ _ => ⟨rfl, rfl⟩

/-- A pane that was not in the catalog comes to it only as a new one. -/
theorem new_of_transition {C : SessionService.Call P}
    (h : SessionService.Transition C S.service S'.service) (hp : p ∉ S.service.catalog.paneIds)
    (hp' : p ∈ S'.service.catalog.paneIds) :
    C.turnover.drawn p ∨ ∃ c, C.install c ∧ p ∈ c.paneIds := by
  cases h with
  | quiet _ _ hc _ => exact absurd (hc ▸ hp') hp
  | process _ _ ht => exact absurd (ht.mem_paneIds.mp hp') hp
  | resize _ _ ht => exact absurd (ht.mem_paneIds.mp hp') hp
  | tick changed rt _ _ ht => exact absurd (ht.catalog.mem_paneIds.mp hp') hp
  | mutate _ _ he _ =>
    obtain ⟨k, d, hd⟩ := mem_paneIds_iff.mp hp'
    rcases he.backward _ hd with h | ⟨-, h, -⟩
    · exact absurd (mem_paneIds_of_mem h) hp
    · exact .inl h
  | replace _ _ _ _ _ ha _ => exact .inr ⟨_, ha, hp'⟩
  | start k pane d d' t size ha hd hgen hE hw =>
    exact absurd ((hw.mem_paneIds hd).mp hp') hp

/-- One step, for every pane. -/
theorem step_follows (hv : S.Valid) (ho : S.Ordered o) (h : S.step o = some S') (p : PaneId) :
    Follows (version p) (content p) S S' := by
  obtain ⟨ht, -⟩ := step_transition hv ho.fresh h
  have hseen := step_seen h
  by_cases hp : p ∈ S.service.catalog.paneIds <;> by_cases hp' : p ∈ S'.service.catalog.paneIds
  · have hs := (ht.supersedes hv.service ho.orders hp hp').rank_le
    simpa only [Follows, version, content, hp, hp', if_true] using hs
  · refine .of_lt ?_
    have hmem : p ∈ S'.seen := hseen ▸ List.mem_append_right _ (hv.seen p hp)
    simp only [version, hp, hp', hmem, if_true, if_false]
    exact rank_lt_gone _
  · have hnew : p ∉ S.seen := by
      rcases new_of_transition ht hp hp' with h | ⟨c, h, hc⟩
      · exact ho.noReuse.1 p h
      · exact ho.noReuse.2 c h p hc
    have hs := (Supersedes.rank_le (.inl rfl) : rank none ≤ rank (S'.service.shown p) ∧ _)
    simpa only [Follows, version, content, hp, hp', hnew, if_true, if_false] using hs
  · have hmem : p ∈ S'.seen ↔ p ∈ S.seen := by
      rw [hseen, List.mem_append]
      exact or_iff_right hp'
    refine .of_eq ?_ ?_
    · simp only [version, hp, hp', hmem, if_false]
    · simp only [content, hp, hp', if_false]

/-- In a run of such calls, of two snapshots of a pane with different screens, the later one has the
larger generation, or the same one and the larger output revision. -/
theorem outputRevision_runs {S₀ : System P} (h₀ : S₀.Initial) (h : Runs step Ordered S₀ S)
    (h' : Runs step Ordered S S') {a a' : PaneScreenSnapshot} {s s' : SessionService P}
    (ha : (SessionService.snapshot p).exec S.service = some (.ok a, s))
    (ha' : (SessionService.snapshot p).exec S'.service = some (.ok a', s'))
    (hne : a.rows ≠ a'.rows ∨ a.cursor ≠ a'.cursor) :
    a.generation < a'.generation ∨
      a.generation = a'.generation ∧ a.outputRevision < a'.outputRevision := by
  have hv := runs_valid h₀ (h.mono fun _ _ hc => hc.fresh)
  have hv' := runs_valid h₀ (Runs.mono (Relation.ReflTransGen.trans h h') fun _ _ hc => hc.fresh)
  have hf : Follows (version p) (content p) S S' :=
    h'.related hv Follows.refl (fun _ _ _ => Follows.trans)
      (fun _ _ _ hv ho hs => (step_transition hv ho.fresh hs).2)
      fun _ _ _ hv ho hs => step_follows hv ho hs p
  obtain ⟨hp, hs⟩ := (SessionService.snapshot_shows hv.service p).of_ok ha
  obtain ⟨hp', hs'⟩ := (SessionService.snapshot_shows hv'.service p).of_ok ha'
  have hlt := hf.lt_of_ne (by
    simp only [content, hp, hp', if_true, hs, hs', ne_eq, Option.some.injEq, Prod.mk.injEq, not_and]
    intro _ _ hrows
    exact hne.resolve_left (not_not.mpr hrows))
  simp only [version, hp, hp', if_true, hs, hs', rank] at hlt
  rcases Prod.Lex.toLex_lt_toLex.mp hlt with h | ⟨-, h⟩
  · exact absurd h (lt_irrefl _)
  · exact Shown.version_lt.mp h

/-- A restored pane is started: its empty screen comes under a larger pair than its old one. -/
theorem outputRevision_runs_beginStart :
    ∃ (S : System .playback) (a a' : PaneScreenSnapshot), Runs step Ordered restored S ∧
      ((SessionService.snapshot ⟨4⟩).exec restored.service).map (·.1) = some (.ok a) ∧
      ((SessionService.snapshot ⟨4⟩).exec S.service).map (·.1) = some (.ok a') ∧
      a.rows ≠ a'.rows ∧ (a.generation < a'.generation ∨
        a.generation = a'.generation ∧ a.outputRevision < a'.outputRevision) := by
  have hg : ∀ x ∈ restored.service.catalog.placements, x.2.2.generation = 0 := by decide
  have hs : ((restored.service.shown ⟨4⟩).map (·.1)) = some 0 := by decide
  have ho : restored.Ordered (.beginStart ⟨0⟩ 2 ⟨1⟩ ⟨4⟩
      ⟨⟨[]⟩, [], ⟨[47]⟩, [], ⟨1, 2, by decide, by decide⟩⟩) := by
    refine ⟨trivial, ⟨fun _ h => h.elim, fun _ h => h.elim⟩, fun _ _ _ _ h => h.elim, ?_,
      fun _ h => h.elim⟩
    rintro p size k d v ⟨rfl, -⟩ hd hv
    rw [hv] at hs
    have hzero : v.1 = 0 := Option.some.inj hs
    rw [hg _ hd, hzero]
    decide
  have h : Runs step Ordered restored _ := .single ho rfl
  refine ⟨_, _, _, h, rfl, rfl, ?_, outputRevision_runs (p := ⟨4⟩) initial_restored .refl h rfl rfl
    (.inl ?_)⟩
  all_goals decide

/-- A pane is started and resized: its two screens differ, under the same pair. -/
theorem resize_keeps_outputRevision :
    ∃ (S S' : System .playback) (a a' : PaneScreenSnapshot), Runs step Fresh blank S ∧
      Runs step Fresh S S' ∧
      ((SessionService.snapshot ⟨3⟩).exec S.service).map (·.1) = some (.ok a) ∧
      ((SessionService.snapshot ⟨3⟩).exec S'.service).map (·.1) = some (.ok a') ∧
      a.rows ≠ a'.rows ∧ a.generation = a'.generation ∧ a.outputRevision = a'.outputRevision := by
  have started : Runs step Fresh blank _ :=
    .tail (.tail (.tail .refl ⟨.createSession ⟨0⟩ 0 "work" ⟨[47]⟩ [1, 2, 3], fresh_blank, rfl⟩)
      ⟨.beginStart ⟨0⟩ 1 ⟨1⟩ ⟨3⟩ ⟨⟨[]⟩, [], ⟨[47]⟩, [], ⟨1, 2, by decide, by decide⟩⟩, trivial, rfl⟩)
      ⟨.finishStart 0 fun _ => .ok [], trivial, rfl⟩
  refine ⟨_, _, _, _, started,
    .single (o := .resize ⟨0⟩ 3 ⟨3⟩ 1 ⟨1, 1, by decide, by decide⟩) trivial rfl, rfl, rfl, ?_, ?_, ?_⟩
  all_goals decide

end System
end Strukt
