import Strukt.Session.CatalogCopy

/-!
# What the catalog operations do

Every operation on a valid catalog either fails and leaves the catalog as it was, or expected the
catalog's revision and raises it by one. A success leaves a valid catalog that evolves from the old
one, provided the identifiers that it drew are new to the catalog (`RandomSource.FreshIn`) and, for
an import, so are those that its caller supplied. `Applies` states that, with one `*_spec` lemma an
operation.

The operations that write one pane in place (`WritesPane`) say which, and what they wrote.
-/

namespace Strukt

/-- A window without one of its panes. -/
theorem SessionWindow.Valid.removePane {w : SessionWindow} (hw : w.Valid) {p f : PaneId}
    {root : SessionLayoutNode} (hr : w.root.remove p = some root)
    (hf : f ∈ (w.panes.remove p).keys) :
    SessionWindow.Valid ⟨w.id, w.name, w.revision, root, f, w.panes.remove p⟩ := by
  have hsub : (w.panes.remove p).entries.Sublist w.panes.entries := List.filter_sublist
  have hspec := w.root.remove_spec (p := p)
  rw [hr] at hspec
  obtain ⟨hleaves, hheight, hratios⟩ := hspec
  refine ⟨hw.revision, hw.name, hsub.length_le.trans hw.count, hf,
    fun q hq => hw.sizes q ((hsub.map _).subset hq),
    ⟨hheight.trans hw.layout.height, hratios hw.layout.ratios, ?_, fun q => ?_⟩,
    fun x hx => hw.ids x (hsub.subset hx), fun x hx => hw.directories x (hsub.subset hx)⟩
  · exact hleaves ▸ hw.layout.nodup.filter _
  · simp [hleaves, hw.layout.mem, and_comm]

/-- A window with another value of one of its panes. -/
theorem SessionWindow.Valid.putPane {w : SessionWindow} {pane : PaneId} {p p' : SessionPane}
    (hw : w.Valid) (hp : w.panes.get? pane = some p) (hid : p'.id = p.id)
    (hd : p'.workingDirectory = p.workingDirectory)
    (hz : 0 < p'.requestedRows ∧ 0 < p'.requestedColumns) : (w.putPane pane p').Valid := by
  have hpe := SortedMap.get?_eq_some.mp hp
  have hkeys : (w.putPane pane p').panes.keys = w.panes.keys := SortedMap.keys_insert_of_mem hp
  have hlen : (w.putPane pane p').panes.length = w.panes.length :=
    SortedMap.length_insert_of_mem hp
  refine ⟨hw.revision, hw.name, hlen ▸ hw.count, ?_, fun q hq => ?_, ?_, fun x hx => ?_,
    fun x hx => ?_⟩
  · rw [hkeys]; exact hw.focused
  · rcases SortedMap.mem_values_insert hq with rfl | hq
    exacts [hz, hw.sizes q hq]
  · rw [hkeys]; exact hw.layout
  · rcases SortedMap.mem_insert.mp hx with rfl | ⟨-, hx⟩
    exacts [(hw.ids _ hpe).trans hid.symm, hw.ids x hx]
  · rcases SortedMap.mem_insert.mp hx with rfl | ⟨-, hx⟩
    exacts [hd ▸ hw.directories _ hpe, hw.directories x hx]

namespace SessionCatalog

open Method

variable {α : Type} {c c' : SessionCatalog} {e : UInt64} {k : SessionId} {rng : RandomSource}
  {t : Turnover}

/-! ## The parts of the operations -/

section Parts

variable {Q : Unit → SessionCatalog → Prop} {E : CatalogError → SessionCatalog → Prop} {P : Prop}

@[simp] theorem wp_expectRevision :
    wp (expectRevision e) Q E P c ↔
      (e = c.revision → Q () c) ∧ (e ≠ c.revision → E (.staleRevision e c.revision) c) := by
  simp [expectRevision]

@[simp] theorem wp_bumpRevision :
    wp bumpRevision Q E P c ↔ Q () { c with revision := c.revision.satSucc } := by
  simp [bumpRevision]

@[simp] theorem wp_getSession {Q : Session → SessionCatalog → Prop} :
    wp (getSession k) Q E P c ↔
      (∀ s, c.sessions.get? k = some s → Q s c) ∧
        (c.sessions.get? k = none → E .sessionNotFound c) := by
  simp [getSession]

@[simp] theorem wp_putSession {s : Session} :
    wp (putSession k s) Q E P c ↔ Q () { c with sessions := c.sessions.insert k s } := by
  simp [putSession]

@[simp] theorem wp_setActive {a : Option SessionId} :
    wp (setActive a) Q E P c ↔ Q () { c with activeSession := a } := by
  simp [setActive]

@[simp] theorem wp_commitWindow {s : Session} {p : SessionWindow → Bool} {w : SessionWindow} :
    wp (commitWindow k s p w) Q E P c ↔ Q () (c.withWindow k s p w) := by
  simp [commitWindow, withWindow]

end Parts

/-! ## Operations that replace, add and remove -/

/-- The catalog after a success: one revision later and, with fresh identifiers, valid, with the old
panes but for those that the turnover takes and adds. -/
structure Updates (fresh : Prop) (t : Turnover) (c c' : SessionCatalog) : Prop where
  revision : c'.revision = c.revision.satSucc
  valid : fresh → c'.Valid
  evolves : fresh → c.Evolves t c'

/-- The operation is atomic, expects the catalog's revision, and updates it. -/
def Applies (x : CatalogM α) (expected : UInt64) (fresh : Prop) (t : Turnover)
    (c : SessionCatalog) : Prop :=
  wp x (fun _ c' => expected = c.revision ∧ Updates fresh t c c') (fun _ c' => c' = c) False c

variable {p : SessionWindow → Bool}

theorem updates_withWindow {fresh : Prop} {s : Session}
    {w w' : SessionWindow} (hv : c.Valid) (hk : c.sessions.get? k = some s)
    (hw : s.findWindow p = some w) (hid : w'.id = w.id) (hw' : fresh → w'.Valid)
    (he : fresh → ∀ x ∈ w'.panes.entries,
      x ∈ w.panes.entries ∨ (x.1 ∉ c.paneIds ∧ t.drawn x.1 ∧ x.2.IsNew))
    (hg : fresh → ∀ x ∈ w.panes.entries, x ∈ w'.panes.entries ∨ t.gone x.1)
    (ht : fresh → c.paneIds.length + w'.panes.length ≤ maxTotalPanes + w.panes.length) :
    Updates fresh t c (c.withWindow k s p w') where
  revision := rfl
  valid := by
    intro hf
    refine hv.withWindow hk hw hid (hw' hf) (fun q hq => ?_) (ht hf)
    obtain ⟨x, hx, rfl⟩ := List.mem_map.mp hq
    rcases he hf x hx with h | h
    exacts [.inl (List.mem_map_of_mem h), .inr h.1]
  evolves hf := Evolves.withWindow hk hw (he hf) (hg hf)

variable {w : SessionWindow}

theorem window_valid {s : Session} (hv : c.Valid)
    (hk : c.sessions.get? k = some s) (hw : s.findWindow p = some w) : w.Valid :=
  (hv.session hk).1.windows w (Session.mem_of_findWindow hw)

theorem updates_put {fresh : Prop} {s s' : Session} (hv : c.Valid)
    (hk : c.sessions.get? k = some s) (hid : s'.id = s.id) (hs : fresh → s'.Valid)
    (hn : fresh → s'.paneIds.Nodup)
    (he : fresh → ∀ x ∈ s'.placements,
      x ∈ s.placements ∨ (x.1 ∉ c.paneIds ∧ t.drawn x.1 ∧ x.2.IsNew))
    (hg : fresh → ∀ x ∈ s.placements, x ∈ s'.placements ∨ t.gone x.1)
    (ht : fresh → c.paneIds.length + s'.paneIds.length ≤ maxTotalPanes + s.paneIds.length) :
    Updates fresh t c ⟨c.revision.satSucc, c.sessions.insert k s', c.activeSession⟩ where
  revision := rfl
  valid := by
    intro hf
    refine hv.put hk (hid.trans (hv.session hk).2) (hs hf) (hn hf) (fun q hq => ?_) (ht hf)
    obtain ⟨x, hx, rfl⟩ := List.mem_map.mp hq
    rcases he hf x hx with h | h
    exacts [.inl (List.mem_map_of_mem h), .inr h.1]
  evolves hf := Evolves.put hk hid (he hf) (hg hf)

theorem updates_add {fresh : Prop} {s : Session} (hv : c.Valid)
    (hc : c.sessions.length < maxSessions) (hk : fresh → k ∉ c.sessions.keys) (hid : s.id = k)
    (hs : fresh → s.Valid) (hn : fresh → s.paneIds.Nodup)
    (he : fresh → ∀ x ∈ s.placements, x.1 ∉ c.paneIds ∧ t.drawn x.1 ∧ x.2.IsNew)
    (ht : fresh → c.paneIds.length + s.paneIds.length ≤ maxTotalPanes) :
    Updates fresh t c ⟨c.revision.satSucc, c.sessions.insert k s, some k⟩ where
  revision := rfl
  valid := by
    intro hf
    refine (hv.add (hk hf) hc hid (hs hf) (hn hf) (ht hf)).mpr fun q hq => ?_
    obtain ⟨x, hx, rfl⟩ := List.mem_map.mp hq
    exact (he hf x hx).1
  evolves hf := Evolves.add (hk hf) (he hf)

/-- A window added to a session and made active. -/
theorem updates_addWindow {fresh : Prop} {s : Session} (hv : c.Valid)
    (hk : c.sessions.get? k = some s) (hc : s.windows.length < maxWindowsPerSession)
    (hw : fresh → w.Valid) (hid : fresh → ∀ v ∈ s.windows, v.id ≠ w.id)
    (he : fresh → ∀ x ∈ w.panes.entries, x.1 ∉ c.paneIds ∧ t.drawn x.1 ∧ x.2.IsNew)
    (ht : fresh → c.paneIds.length + w.panes.length ≤ maxTotalPanes) :
    Updates fresh t c ⟨c.revision.satSucc, c.sessions.insert k
      ⟨s.id, s.name, s.revision.satSucc, s.windows ++ [w], w.id⟩, c.activeSession⟩ := by
  obtain ⟨hs, -⟩ := hv.session hk
  have hplaces : Session.placements ⟨s.id, s.name, s.revision.satSucc, s.windows ++ [w], w.id⟩ =
      s.placements ++ w.panes.entries := by simp [Session.placements]
  have hids : Session.paneIds ⟨s.id, s.name, s.revision.satSucc, s.windows ++ [w], w.id⟩ =
      s.paneIds ++ w.panes.keys := by
    rw [Session.paneIds, hplaces, List.map_append]; rfl
  refine updates_put hv hk rfl (fun hf => ?_) (fun hf => ?_) (fun hf x hx => ?_)
    (fun _ x hx => .inl (hplaces ▸ List.mem_append_left _ hx)) (fun hf => ?_)
  · refine ⟨satSucc_ne_zero _, hs.name, by simp, ?_, ⟨w, by simp, rfl⟩, ?_, ?_⟩
    · simp only [List.length_append, List.length_singleton]; omega
    · simp only [List.map_append, List.map_cons, List.map_nil]
      refine List.nodup_append.mpr ⟨hs.windowIds, List.nodup_singleton _, ?_⟩
      intro i hi j hj
      obtain ⟨v, hv, rfl⟩ := List.mem_map.mp hi
      obtain rfl := List.mem_singleton.mp hj
      exact hid hf v hv
    · intro v hv
      rcases List.mem_append.mp hv with hv | hv
      · exact hs.windows v hv
      · obtain rfl := List.mem_singleton.mp hv
        exact hw hf
  · rw [hids]
    refine List.nodup_append.mpr ⟨hv.nodup_session hk, w.panes.nodup_keys, ?_⟩
    rintro p hp q hq rfl
    obtain ⟨x, hx, rfl⟩ := List.mem_map.mp hq
    exact (he hf x hx).1 (paneIds_of_session hk hp)
  · rw [hplaces] at hx
    rcases List.mem_append.mp hx with hx | hx
    exacts [.inl hx, .inr (he hf x hx)]
  · have := ht hf
    rw [hids, List.length_append, SortedMap.length_keys]
    omega

/-- A session that keeps its windows, or some of them. -/
theorem updates_sublist {s s' : Session} (hv : c.Valid) (hk : c.sessions.get? k = some s)
    (hid : s'.id = s.id) (hw : s'.windows.Sublist s.windows) (hs : s'.Valid)
    (hg : ∀ w ∈ s.windows, w ∈ s'.windows ∨ ∀ p ∈ w.panes.keys, t.gone p) :
    Updates True t c ⟨c.revision.satSucc, c.sessions.insert k s', c.activeSession⟩ := by
  have hplaces : s'.placements.Sublist s.placements := hw.flatMap _
  have hids : s'.paneIds.Sublist s.paneIds := hplaces.map _
  refine updates_put hv hk hid (fun _ => hs) (fun _ => hids.nodup (hv.nodup_session hk))
    (fun _ x hx => .inl (hplaces.subset hx)) (fun _ x hx => ?_)
    (fun _ => Nat.add_le_add hv.total hids.length_le)
  obtain ⟨w, hw, hx⟩ := List.mem_flatMap.mp hx
  exact (hg w hw).imp (fun h => List.mem_flatMap.mpr ⟨w, h, hx⟩)
    fun h => h _ (List.mem_map_of_mem hx)

variable {name : String}

/-- A session of new windows, added and made active. -/
theorem updates_newSession {fresh : Prop} {ws : List SessionWindow}
    {a : WindowId} {rng : RandomSource} (hv : c.Valid) (hc : c.sessions.length < maxSessions)
    (hname : (validatedName name).toBool) (ha : fresh → ∃ w ∈ ws, w.id = a)
    (hcount : fresh → ws.length ≤ maxWindowsPerSession) (hk : fresh → k ∉ c.sessions.keys)
    (hws : fresh → NewWindows ws rng)
    (hnew : fresh → ∀ p ∈ ws.flatMap (·.panes.keys), p ∉ c.paneIds ∧ t.drawn p)
    (ht : fresh → c.paneIds.length + (ws.map (·.panes.length)).sum ≤ maxTotalPanes) :
    Updates fresh t c ⟨c.revision.satSucc, c.sessions.insert k ⟨k, name, 1, ws, a⟩, some k⟩ := by
  refine updates_add hv hc hk rfl (fun hf => ?_) (fun hf => ?_) (fun hf x hx => ?_) (fun hf => ?_)
  · obtain ⟨w, hw, rfl⟩ := ha hf
    exact Session.valid_new hname hw (hcount hf) (hws hf).ids (hws hf).valid
  · rw [Session.paneIds_eq]; exact (hws hf).panes
  · obtain ⟨v, hv, hx⟩ := List.mem_flatMap.mp hx
    have h := hnew hf _ (List.mem_flatMap.mpr ⟨v, hv, List.mem_map_of_mem hx⟩)
    exact ⟨h.1, h.2, (hws hf).isNew v hv x hx⟩
  · simp only [Session.paneIds_eq, List.length_flatMap, SortedMap.length_keys]
    exact ht hf

/-! ### Sessions -/

theorem createSession_spec {d : PathBuf} (hv : c.Valid) :
    Applies (createSession e name d rng) e (rng.FreshIn c) (.draws rng) c := by
  simp [Applies, createSession]
  intro he hs ht name' hname d' hd sid rng₁ h₁ wid rng₂ h₂ pid rng₃ h₃
  obtain rfl := newId_eq_ok.mp h₁
  obtain rfl := newId_eq_ok.mp h₂
  obtain rfl := newId_eq_ok.mp h₃
  obtain ⟨rfl, hd⟩ := validatedDirectory_eq_ok hd
  rw [totalPanes_eq] at ht
  refine ⟨he, updates_add hv hs (fun hf => hf.session _ (by simp)) rfl (fun _ => ?_) (fun _ => ?_)
    (fun hf x hx => ?_) (fun _ => ?_)⟩
  · exact Session.valid_new (validatedName_idem hname) (List.mem_singleton_self _)
      (by simp [maxWindowsPerSession]) (by simp)
      (by simpa using SessionWindow.valid_single rfl hd)
  · rw [Session.paneIds_single]; exact SortedMap.nodup_keys _
  · rw [Session.placements_single] at hx
    obtain rfl := List.mem_singleton.mp hx
    exact ⟨hf.pane _ (by simp), by simp [Turnover.draws], SessionPane.stopped_isNew⟩
  · rw [Session.paneIds_single, SortedMap.keys_singleton]; exact ht

theorem importStoppedSession_spec {windows : List StoppedWindowDefinition}
    {active : Nat} (hv : c.Valid) :
    Applies (importStoppedSession e name windows active rng) e
      (rng.FreshIn c ∧ ∀ d ∈ windows, ∀ p ∈ d.panes.map (·.1), p ∉ c.paneIds)
      ⟨fun p => ∃ d ∈ windows, p ∈ d.panes.map (·.1), fun _ => False⟩ c := by
  simp [Applies, importStoppedSession, -List.mem_map]
  intro he hs _ hcount hactive ht sid rng₁ h₁ ws hws
  obtain rfl := newId_eq_ok.mp h₁
  rw [totalPanes_eq] at ht
  obtain ⟨hnew, hlen, hlens, hmem, -⟩ := importWindows_spec hws
  refine ⟨fun w hw name hname => ⟨he, ?_⟩, hlen ▸ hactive⟩
  refine updates_newSession hv hs (validatedName_idem hname)
    (fun _ => ⟨w, List.mem_of_getElem? hw, rfl⟩) (fun _ => hlen ▸ hcount)
    (fun hf => hf.1.session _ (by simp)) (fun hf => hnew (List.nodup_cons.mp hf.1.nodup).2) (fun hf p hp => ?_) (fun _ => hlens ▸ ht)
  obtain ⟨d, hd, hp⟩ := (hmem p).mp hp
  exact ⟨hf.2 d hd p hp, d, hd, hp⟩

/-- An import of panes that the catalog has does not leave a valid catalog. -/
theorem importStoppedSession_new {windows : List StoppedWindowDefinition}
    {active : Nat} (hv : c.Valid) (hf : rng.FreshIn c) :
    wp (importStoppedSession e name windows active rng)
      (fun _ c' => c'.Valid → ∀ d ∈ windows, ∀ p ∈ d.panes.map (·.1), p ∉ c.paneIds)
      (fun _ _ => True) True c := by
  simp [importStoppedSession, -List.mem_map]
  intro he hs _ hcount hactive ht sid rng₁ h₁ ws hws w hw name hname hv' d hd p hp
  obtain rfl := newId_eq_ok.mp h₁
  rw [totalPanes_eq] at ht
  obtain ⟨hnew, hlen, hlens, hmem, -⟩ := importWindows_spec hws
  have hnew := hnew (List.nodup_cons.mp hf.nodup).2
  have hids : Session.paneIds ⟨sid, name, 1, ws, w.id⟩ = ws.flatMap (·.panes.keys) :=
    Session.paneIds_eq _
  refine (hv.add (hf.session _ (by simp)) hs rfl (Session.valid_new (validatedName_idem hname)
    (List.mem_of_getElem? hw) (hlen ▸ hcount) hnew.ids hnew.valid) (hids ▸ hnew.panes) ?_).mp hv' p
    (hids ▸ (hmem p).mpr ⟨d, hd, hp⟩)
  simpa [hids, List.length_flatMap, hlens] using ht

theorem renameSession_spec (hv : c.Valid) :
    Applies (renameSession e k name) e True .none c := by
  simp [Applies, renameSession]
  intro he name' hname s hk
  obtain ⟨hs, -⟩ := hv.session hk
  exact ⟨he, updates_sublist hv hk rfl (List.Sublist.refl _) ⟨satSucc_ne_zero _, validatedName_idem hname,
    hs.nonempty, hs.count, hs.active, hs.windowIds, hs.windows⟩ fun _ h => .inl h⟩

theorem activateSession_spec (hv : c.Valid) : Applies (activateSession e k) e True .none c := by
  simp [Applies, activateSession]
  intro he hk
  exact ⟨he, rfl, fun _ => hv.setActive hk, fun _ => .of_eq rfl⟩

theorem duplicateSession_spec (hv : c.Valid) :
    Applies (duplicateSession e k rng) e (rng.FreshIn c) (.draws rng) c := by
  simp [Applies, duplicateSession]
  rintro he s hk hc ht sid rng₁ h₁ ws _ hws name hname a rfl
  obtain rfl := newId_eq_ok.mp h₁
  obtain ⟨hs, -⟩ := hv.session hk
  rw [totalPanes_eq] at ht
  have hspec := fun hf : RandomSource.FreshIn (sid.value :: rng₁) c =>
    copyWindows_spec hws hs.windows (List.nodup_cons.mp hf.nodup).2
  refine ⟨he, updates_newSession hv hc (validatedName_idem hname) (fun hf => ?_) (fun hf => ?_)
    (fun hf => hf.session _ (by simp)) (fun hf => (hspec hf).1) (fun hf p hp => ?_) (fun hf => ?_)⟩
  · obtain ⟨-, -, -, -, hactive⟩ := hspec hf
    exact (hactive a rfl).resolve_left nofun
  · obtain ⟨-, -, hlen, -⟩ := hspec hf
    exact hlen ▸ hs.count
  · obtain ⟨-, hkeys, -⟩ := hspec hf
    obtain ⟨w, hw, hp⟩ := List.mem_flatMap.mp hp
    have hdrawn := List.mem_cons_of_mem sid.value (hkeys w hw p hp)
    exact ⟨hf.pane _ hdrawn, hdrawn⟩
  · obtain ⟨-, -, -, hlens, -⟩ := hspec hf
    exact hlens ▸ ht

/-- The panes of a session. -/
def removed (c : SessionCatalog) (k : SessionId) : Turnover :=
  .drops fun p => ∃ s, c.sessions.get? k = some s ∧ p ∈ s.paneIds

theorem removeSession_spec (hv : c.Valid) : Applies (removeSession e k) e True (removed c k) c := by
  simp [Applies, removeSession]
  intro he s hk _
  exact ⟨he, rfl, fun _ => hv.remove,
    fun _ => Evolves.remove (t := removed c k) fun s hs p hp => ⟨s, hs, hp⟩⟩

/-! ### Windows -/

theorem createWindow_spec {d : PathBuf} (hv : c.Valid) :
    Applies (createWindow e k name d rng) e (rng.FreshIn c) (.draws rng) c := by
  simp [Applies, createWindow]
  intro he ht name' hname d' hd s hk hc wid rng₁ h₁ pid rng₂ h₂
  obtain rfl := newId_eq_ok.mp h₁
  obtain rfl := newId_eq_ok.mp h₂
  obtain ⟨rfl, hd⟩ := validatedDirectory_eq_ok hd
  rw [totalPanes_eq] at ht
  refine ⟨he, updates_addWindow hv hk hc
    (fun _ => SessionWindow.valid_single (validatedName_idem hname) hd)
    (fun hf v hv => hf.window _ (by simp) s (SortedMap.mem_values_of_get? hk) v hv)
    (fun hf x hx => ?_) (fun _ => ht)⟩
  obtain rfl := List.mem_singleton.mp hx
  exact ⟨hf.pane _ (by simp), by simp [Turnover.draws], SessionPane.stopped_isNew⟩

theorem renameWindow_spec {wid : WindowId} (hv : c.Valid) :
    Applies (renameWindow e k wid name) e True .none c := by
  simp [Applies, renameWindow]
  intro he name' hname s hk w hw
  have hvw := window_valid hv hk hw
  refine ⟨he, updates_withWindow hv hk hw rfl (fun _ => ?_) (fun _ x hx => .inl hx)
    (fun _ x hx => .inl hx) (fun _ => Nat.add_le_add_right hv.total _)⟩
  exact { hvw with name := validatedName_idem hname }

theorem activateWindow_spec {wid : WindowId} (hv : c.Valid) :
    Applies (activateWindow e k wid) e True .none c := by
  simp [Applies, activateWindow]
  intro he s hk w hw hid
  obtain ⟨hs, -⟩ := hv.session hk
  exact ⟨he, updates_sublist hv hk rfl (List.Sublist.refl _)
    ⟨satSucc_ne_zero _, hs.name, hs.nonempty, hs.count, ⟨w, hw, hid⟩, hs.windowIds, hs.windows⟩
    fun _ h => .inl h⟩

theorem duplicateWindow_spec {wid : WindowId} (hv : c.Valid) :
    Applies (duplicateWindow e k wid rng) e (rng.FreshIn c) (.draws rng) c := by
  simp [Applies, duplicateWindow]
  intro he s hk hc w hw ht wid' rng₁ h₁ ids panes rng₂ hcopy name hname root hroot focused hf
  obtain rfl := newId_eq_ok.mp h₁
  rw [totalPanes_eq] at ht
  have hspec := fun hrng => copy_spec (window_valid hv hk hw) hcopy hrng wid'
    (validatedName_idem hname) hroot hf
  refine ⟨he, updates_addWindow hv hk hc (fun hf => ?_)
    (fun hf v hv => hf.window _ (by simp) s (SortedMap.mem_values_of_get? hk) v hv)
    (fun hf x hx => ?_) (fun hf => ?_)⟩
  · exact (hspec (List.nodup_cons.mp hf.nodup).2).1
  · obtain ⟨-, -, used, rfl, hnew⟩ := hspec (List.nodup_cons.mp hf.nodup).2
    have hdrawn : x.1.value ∈ wid'.value :: (used ++ rng₂) := by simp [(hnew x hx).1]
    exact ⟨hf.pane _ hdrawn, hdrawn, (hnew x hx).2⟩
  · rw [(hspec (List.nodup_cons.mp hf.nodup).2).2.1]
    exact ht

/-- The panes of a window. -/
def closed (c : SessionCatalog) (k : SessionId) (wid : WindowId) : Turnover :=
  .drops fun p => ∃ s, c.sessions.get? k = some s ∧
    ∃ w ∈ s.windows, w.id = wid ∧ p ∈ w.panes.keys

theorem closeWindow_spec {wid : WindowId} (hv : c.Valid) :
    Applies (closeWindow e k wid) e True (closed c k wid) c := by
  simp [Applies, closeWindow]
  intro he s hk i hi
  obtain ⟨hs, -⟩ := hv.session hk
  obtain ⟨hlt, hwid, -⟩ := List.findIdx?_eq_some_iff_getElem.mp hi
  refine ⟨fun w hw _ hone => ?_, hlt⟩
  have hlen := List.length_eraseIdx_of_lt hlt
  have hvalid : ∀ a, (∃ v ∈ s.windows.eraseIdx i, v.id = a) →
      Session.Valid ⟨s.id, s.name, s.revision.satSucc, s.windows.eraseIdx i, a⟩ := by
    rintro a ⟨v, hv, hva⟩
    have hsub := List.eraseIdx_sublist s.windows i
    exact ⟨satSucc_ne_zero _, hs.name, List.ne_nil_of_mem hv, hsub.length_le.trans hs.count,
      ⟨v, hv, hva⟩, (hsub.map _).nodup hs.windowIds, fun u hu => hs.windows u (hsub.subset hu)⟩
  have hgone : ∀ v ∈ s.windows, v ∈ s.windows.eraseIdx i ∨ ∀ p ∈ v.panes.keys,
      (closed c k wid).gone p := by
    intro v hv
    obtain ⟨j, hj⟩ := List.getElem?_of_mem hv
    by_cases hji : j = i
    · subst hji
      obtain ⟨-, rfl⟩ := List.getElem?_eq_some_iff.mp hj
      exact .inr fun p hp => ⟨s, hk, _, List.getElem_mem _, by simpa using hwid, hp⟩
    · exact .inl (List.mem_eraseIdx_iff_getElem?.mpr ⟨j, hji, hj⟩)
  refine ⟨fun _ => ⟨fun next hnext => ?_, fun hle hempty => ?_⟩, fun hactive => ?_⟩
  · refine ⟨he, updates_sublist hv hk rfl (List.eraseIdx_sublist ..) (hvalid _ ⟨next, ?_, rfl⟩)
      hgone⟩
    rcases hnext with h | ⟨-, h⟩
    exacts [List.mem_of_getElem? h, List.mem_of_getLast? h]
  · rcases hempty with h | h
    · exact absurd h hs.nonempty
    · exact absurd h.1 hone
  · refine ⟨he, updates_sublist hv hk rfl (List.eraseIdx_sublist ..) (hvalid _ ?_) hgone⟩
    obtain ⟨v, hv, hva⟩ := hs.active
    obtain ⟨j, hj⟩ := List.getElem?_of_mem hv
    refine ⟨v, List.mem_eraseIdx_iff_getElem?.mpr ⟨j, ?_, hj⟩, hva⟩
    rintro rfl
    simp only [List.getElem?_eq_getElem hlt, Option.some.injEq] at hj
    subst hj
    exact hactive (hva.symm.trans (by simpa using hwid))

/-! ### Panes -/

theorem splitFocused_spec {axis : SplitAxis} (hv : c.Valid) :
    Applies (splitFocused e k axis rng) e (rng.FreshIn c) (.draws rng) c := by
  simp [Applies, splitFocused]
  intro he ht s hk w hw hc focused hfocused pid rng₁ h₁ hfound hvalid
  obtain rfl := newId_eq_ok.mp h₁
  rw [totalPanes_eq] at ht
  have hvw := window_valid hv hk hw
  have hpid : RandomSource.FreshIn (pid.value :: rng₁) c → pid ∉ w.panes.keys := by
    intro hf hm
    refine hf.pane pid.value (by simp) (paneIds_of_session hk ?_)
    rw [Session.paneIds_eq]
    exact List.mem_flatMap.mpr ⟨w, Session.mem_of_findWindow hw, hm⟩
  have hfp := SortedMap.mem_values_of_get? hfocused
  obtain ⟨d, hd, hdf⟩ := List.mem_map.mp hfp
  refine ⟨he, updates_withWindow hv hk hw rfl (fun hf => ?_) (fun hf x hx => ?_)
    (fun hf x hx => ?_) (fun hf => ?_)⟩
  · refine ⟨hvw.revision, hvw.name, ?_, ?_, fun p hp => ?_, ?_, fun x hx => ?_, fun x hx => ?_⟩
    · rw [SortedMap.length_insert_of_notMem (hpid hf)]; exact hc
    · simp
    · rcases SortedMap.mem_values_insert hp with rfl | hp
      exacts [hvw.sizes focused hfp, hvw.sizes p hp]
    · exact SessionLayoutNode.validate_iff.mp hvalid
    · rcases SortedMap.mem_insert.mp hx with rfl | ⟨-, hx⟩
      exacts [rfl, hvw.ids x hx]
    · rcases SortedMap.mem_insert.mp hx with rfl | ⟨-, hx⟩
      exacts [hdf ▸ hvw.directories d hd, hvw.directories x hx]
  · rcases SortedMap.mem_insert.mp hx with rfl | ⟨-, hx⟩
    exacts [.inr ⟨hf.pane _ (by simp), by simp [Turnover.draws], SessionPane.stopped_isNew⟩,
      .inl hx]
  · have hne : x.1 ≠ pid := fun he => hpid hf (he ▸ List.mem_map_of_mem hx)
    exact .inl (SortedMap.mem_insert.mpr (.inr ⟨hne, hx⟩))
  · rw [SortedMap.length_insert_of_notMem (hpid hf)]
    omega

theorem setFocusedSplitRatio_spec {ratio : UInt16} (hv : c.Valid) :
    Applies (setFocusedSplitRatio e k ratio) e True .none c := by
  simp [Applies, setFocusedSplitRatio]
  intro he hmin hmax s hk w hw _
  have hvw := window_valid hv hk hw
  obtain ⟨hl, hh, hr⟩ := SessionLayoutNode.setParentRatio_spec (p := w.focusedPane) (n := w.root)
    ⟨hmin, hmax⟩ rfl
  have hlayout : (SessionLayoutNode.setParentRatio w.focusedPane ratio w.root).2.Fits
      w.panes.keys :=
    ⟨hh ▸ hvw.layout.height, hr hvw.layout.ratios, hl ▸ hvw.layout.nodup,
      fun p => hl ▸ hvw.layout.mem p⟩
  exact ⟨he, updates_withWindow hv hk hw rfl (fun _ => { hvw with layout := hlayout })
    (fun _ x hx => .inl hx) (fun _ x hx => .inl hx) (fun _ => Nat.add_le_add_right hv.total _)⟩

theorem focusPane_spec {p : PaneId} (hv : c.Valid) : Applies (focusPane e k p) e True .none c := by
  simp [Applies, focusPane]
  intro he s hk w hw _ hp
  have hvw := window_valid hv hk hw
  exact ⟨he, updates_withWindow hv hk hw rfl (fun _ => { hvw with focused := hp })
    (fun _ x hx => .inl hx) (fun _ x hx => .inl hx) (fun _ => Nat.add_le_add_right hv.total _)⟩

@[simp] theorem withWindow_put {s s' : Session} :
    withWindow ⟨c.revision, c.sessions.insert k s', c.activeSession⟩ k s p w =
      c.withWindow k s p w := by
  simp [withWindow]

theorem closePane_spec {p : PaneId} (hv : c.Valid) : Applies (closePane e k p) e True (.drops (· = p)) c := by
  simp [Applies, closePane]
  intro he s hk w hw closing hclosing _ hone root hroot
  have hvw := window_valid hv hk hw
  have hsub : (w.panes.remove p).entries.Sublist w.panes.entries := List.filter_sublist
  have hkept : ∀ x ∈ w.panes.entries, x ∈ (w.panes.remove p).entries ∨ x.1 = p := by
    intro x hx
    by_cases hxp : x.1 = p
    · exact .inr hxp
    · exact .inl (List.mem_filter.mpr ⟨hx, by simpa using hxp⟩)
  have hupdate : ∀ f, f ∈ (w.panes.remove p).keys → Updates True (.drops (· = p)) c
      (c.withWindow k s (·.panes.containsKey p)
        ⟨w.id, w.name, w.revision, root, f, w.panes.remove p⟩) :=
    fun f hf => updates_withWindow hv hk hw rfl (fun _ => hvw.removePane hroot hf)
      (fun _ x hx => .inl (hsub.subset hx)) (fun _ => hkept)
      (fun _ => Nat.add_le_add hv.total hsub.length_le)
  -- With a valid window, neither check after the writes fails.
  have hvalid : ∀ f, f ∈ (w.panes.remove p).keys →
      SessionWindow.validate ⟨w.id, w.name, w.revision, root, f, w.panes.remove p⟩ = true := by
    intro f hf
    have hr := hvw.removePane hroot hf
    exact SessionWindow.validate_iff.mpr ⟨hr.count, hr.focused, hr.sizes, hr.layout⟩
  refine ⟨fun hfp => ⟨fun f hf => ⟨fun _ => ⟨he, hupdate f (List.mem_of_mem_head? hf)⟩,
    fun h => ?_⟩, fun hempty => ?_⟩, fun hfp => ⟨fun _ => ⟨he, hupdate _ ?_⟩, fun h => ?_⟩⟩
  · rw [hvalid f (List.mem_of_mem_head? hf)] at h
    cases h
  · obtain ⟨q, hq⟩ := List.exists_mem_of_ne_nil _ root.leaves_ne_nil
    have hspec := w.root.remove_spec (p := p)
    rw [hroot] at hspec
    rw [hspec.1, List.mem_filter] at hq
    have : q ∈ (w.panes.remove p).keys :=
      SortedMap.mem_keys_remove.mpr ⟨by simpa using hq.2, (hvw.layout.mem q).mp hq.1⟩
    rw [hempty] at this
    cases this
  · exact SortedMap.mem_keys_remove.mpr ⟨hfp, hvw.focused⟩
  · rw [hvalid _ (SortedMap.mem_keys_remove.mpr ⟨hfp, hvw.focused⟩)] at h
    cases h

/-! ## Operations that write one pane -/

/-- The catalog after one pane of the session was written in place. -/
structure WritesPane (k : SessionId) (pane : PaneId) (p : SessionPane) (c c' : SessionCatalog) :
    Prop where
  revision : c'.revision = c.revision.satSucc
  valid : c'.Valid
  placements : ∀ x, x ∈ c'.placements ↔ x = (k, pane, p) ∨ (x.2.1 ≠ pane ∧ x ∈ c.placements)

variable {pane : PaneId}

theorem WritesPane.mem_paneIds {p p' : SessionPane} (h : WritesPane k pane p' c c')
    (hp : (k, pane, p) ∈ c.placements) {q : PaneId} : q ∈ c'.paneIds ↔ q ∈ c.paneIds := by
  rw [mem_paneIds_iff, mem_paneIds_iff]
  simp only [h.placements]
  constructor
  · rintro ⟨j, x, hx | ⟨-, hx⟩⟩
    · cases hx
      exact ⟨k, p, hp⟩
    · exact ⟨j, x, hx⟩
  · rintro ⟨j, x, hx⟩
    by_cases hq : q = pane
    · exact ⟨k, p', .inl (by rw [hq])⟩
    · exact ⟨j, x, .inr ⟨hq, hx⟩⟩

theorem mem_placements_of_window {s : Session}
    (hv : c.Valid) (hk : c.sessions.get? k = some s) (hw : s.findWindow p = some w)
    {q : SessionPane} (hq : w.panes.get? pane = some q) : (k, pane, q) ∈ c.placements :=
  mem_placements.mpr ⟨s, SortedMap.mem_values_of_get? hk, (hv.session hk).2,
    List.mem_flatMap.mpr ⟨w, Session.mem_of_findWindow hw, SortedMap.get?_eq_some.mp hq⟩⟩

theorem writesPane {s : Session} {p p' : SessionPane}
    (hv : c.Valid) (hk : c.sessions.get? k = some s)
    (hw : s.findWindow (·.panes.containsKey pane) = some w) (hp : w.panes.get? pane = some p)
    (hw' : (w.putPane pane p').Valid) :
    WritesPane k pane p' c (c.withWindow k s (·.panes.containsKey pane) (w.putPane pane p')) := by
  have hkeys : (w.putPane pane p').panes.keys = w.panes.keys := SortedMap.keys_insert_of_mem hp
  have hlen : (w.putPane pane p').panes.length = w.panes.length :=
    SortedMap.length_insert_of_mem hp
  have hvalid := hv.withWindow hk hw (show (w.putPane pane p').id = w.id from rfl) hw'
    (fun q hq => .inl (hkeys ▸ hq)) (hlen ▸ Nat.add_le_add_right hv.total _)
  obtain ⟨-, pre, post, hwin, hput⟩ := Session.exists_slot hw
  have hwin' := Session.windows_commitWindow (w.putPane pane p') hput
  have hnew : s.commitWindow (·.panes.containsKey pane) (w.putPane pane p') ∈
      (c.withWindow k s (·.panes.containsKey pane) (w.putPane pane p')).sessions.values :=
    SortedMap.mem_values_of_get? (k := k) (by simp [withWindow])
  have hplace : ∀ x, x = (k, pane, p') ∨ (x.2.1 ≠ pane ∧ x ∈ c.placements) →
      x ∈ (c.withWindow k s (·.panes.containsKey pane) (w.putPane pane p')).placements := by
    rintro ⟨sid, q, r⟩ (h | ⟨hne, h⟩)
    · cases h
      refine mem_placements.mpr ⟨_, hnew, (hv.session hk).2, ?_⟩
      rw [Session.placements, hwin', List.mem_flatMap]
      exact ⟨_, List.mem_append_cons_self, SortedMap.mem_insert.mpr (.inl rfl)⟩
    · obtain ⟨v, hval, hvid, hx⟩ := mem_placements.mp h
      obtain ⟨j, hj⟩ := SortedMap.mem_values_iff.mp hval
      by_cases hjk : j = k
      · subst hjk
        cases hj.symm.trans hk
        refine mem_placements.mpr ⟨_, hnew, hvid, ?_⟩
        obtain ⟨u, hu, hx⟩ := List.mem_flatMap.mp hx
        rw [hwin, List.mem_append, List.mem_cons] at hu
        rw [Session.placements, hwin', List.mem_flatMap]
        simp only [List.mem_append, List.mem_cons]
        rcases hu with hu | rfl | hu
        · exact ⟨u, .inl hu, hx⟩
        · exact ⟨_, .inr (.inl rfl), SortedMap.mem_insert.mpr (.inr ⟨hne, hx⟩)⟩
        · exact ⟨u, .inr (.inr hu), hx⟩
      · exact mem_placements.mpr
          ⟨v, SortedMap.mem_values_of_get? (k := j) (by simp [withWindow, hjk, hj]), hvid, hx⟩
  refine ⟨rfl, hvalid, fun x => ⟨fun hx => ?_, hplace x⟩⟩
  by_cases hne : x.2.1 = pane
  · exact .inl (hvalid.placement_eq hx (hplace _ (.inl rfl)) hne)
  · refine .inr ⟨hne, ?_⟩
    obtain ⟨v, hval, hvid, hx⟩ := mem_placements.mp hx
    rcases SortedMap.mem_values_insert hval with rfl | hval
    · refine mem_placements.mpr ⟨s, SortedMap.mem_values_of_get? hk, hvid, ?_⟩
      rcases Session.mem_placements_commitWindow hw hx with h | h
      · rcases SortedMap.mem_insert.mp h with h | ⟨-, h⟩
        · exact absurd (congrArg (·.1) h) hne
        · exact List.mem_flatMap.mpr ⟨w, Session.mem_of_findWindow hw, h⟩
      · exact h
    · exact mem_placements.mpr ⟨v, hval, hvid, hx⟩

theorem setPaneLifecycle_spec {l : PaneLifecycle} (hv : c.Valid) :
    wp (setPaneLifecycle e k pane l)
      (fun _ c' => e = c.revision ∧ ∃ p, (k, pane, p) ∈ c.placements ∧
        WritesPane k pane { p with lifecycle := l } c c')
      (fun _ c' => c' = c) False c := by
  simp [setPaneLifecycle, updatePane]
  intro he s hk w hw p hp
  have hvw := window_valid hv hk hw
  have hsize := hvw.sizes p (SortedMap.mem_values_of_get? hp)
  exact ⟨he, p, mem_placements_of_window hv hk hw hp, writesPane hv hk hw hp (hvw.putPane hp rfl rfl hsize)⟩

theorem beginPaneGeneration_spec {rows columns : UInt16} (hv : c.Valid) :
    wp (beginPaneGeneration e k pane rows columns)
      (fun g c' => e = c.revision ∧ ∃ p, (k, pane, p) ∈ c.placements ∧ g = p.generation.satSucc ∧
        WritesPane k pane { p with
          requestedRows := rows
          requestedColumns := columns
          generation := g
          lifecycle := .starting } c c')
      (fun _ c' => c' = c) False c := by
  simp [beginPaneGeneration, updatePane]
  intro he s hk w hw p hp hr hc
  have hz : 0 < rows ∧ 0 < columns :=
    ⟨UInt16.pos_iff_ne_zero.mpr hr, UInt16.pos_iff_ne_zero.mpr hc⟩
  exact ⟨he, p, mem_placements_of_window hv hk hw hp, rfl, writesPane hv hk hw hp
    ((window_valid hv hk hw).putPane hp rfl rfl hz)⟩

/-- A start of a pane that the catalog has, from its revision, succeeds. -/
theorem beginPaneGeneration_succeeds {rows columns : UInt16} {p : SessionPane}
    (hv : c.Valid) (he : e = c.revision) (hp : (k, pane, p) ∈ c.placements) (hr : rows ≠ 0)
    (hc : columns ≠ 0) :
    wp (beginPaneGeneration e k pane rows columns) (fun _ _ => True) (fun _ _ => False) False
      c := by
  obtain ⟨s, hs, hid, hp⟩ := mem_placements.mp hp
  obtain ⟨j, hj⟩ := SortedMap.mem_values_iff.mp hs
  obtain rfl : j = k := (hv.session hj).2.symm.trans hid
  obtain ⟨w, hw, hp⟩ := List.mem_flatMap.mp hp
  have hpane : pane ∈ w.panes.keys := List.mem_map_of_mem hp
  simp [beginPaneGeneration, updatePane, he, hj, hr, hc]
  refine ⟨fun v hfind hnone => ?_, fun hnone => ?_⟩
  · have hkey : v.panes.containsKey pane :=
      List.find?_some (p := fun x : SessionWindow => x.panes.containsKey pane) hfind
    exact SortedMap.get?_eq_none.mp hnone (SortedMap.containsKey_iff.mp hkey)
  · exact List.find?_eq_none.mp hnone w hw (SortedMap.containsKey_iff.mpr hpane)

theorem setPaneSize_spec {rows columns : UInt16} (hv : c.Valid) :
    wp (setPaneSize e k pane rows columns)
      (fun _ c' => e = c.revision ∧ ∃ p, (k, pane, p) ∈ c.placements ∧
        WritesPane k pane { p with requestedRows := rows, requestedColumns := columns } c c')
      (fun _ c' => c' = c) False c := by
  simp [setPaneSize, updatePane]
  intro he hr hc s hk w hw p hp
  have hz : 0 < rows ∧ 0 < columns :=
    ⟨UInt16.pos_iff_ne_zero.mpr hr, UInt16.pos_iff_ne_zero.mpr hc⟩
  exact ⟨he, p, mem_placements_of_window hv hk hw hp, writesPane hv hk hw hp
    ((window_valid hv hk hw).putPane hp rfl rfl hz)⟩

/-- What `setGenerationLifecycle` found and did: another generation, the lifecycle already set, or
one pane written. -/
def SetsGeneration (k : SessionId) (pane : PaneId) (g : UInt64) (l : PaneLifecycle) (ok : Bool)
    (p : SessionPane) (c c' : SessionCatalog) : Prop :=
  (ok = false ∧ p.generation ≠ g ∧ c' = c) ∨
    (ok = true ∧ p.generation = g ∧ p.lifecycle = l ∧ c' = c) ∨
    (ok = true ∧ p.generation = g ∧ p.lifecycle ≠ l ∧
      WritesPane k pane { p with lifecycle := l } c c')

theorem setGenerationLifecycle_spec {g : UInt64} {l : PaneLifecycle}
    (hv : c.Valid) :
    wp (setGenerationLifecycle k pane g l)
      (fun ok c' => ∃ p, (k, pane, p) ∈ c.placements ∧ SetsGeneration k pane g l ok p c c')
      (fun _ c' => c' = c) False c := by
  simp [setGenerationLifecycle, updatePane]
  intro s hk w hw p hp
  have hmem := mem_placements_of_window hv hk hw hp
  have hvw := window_valid hv hk hw
  have hsize := hvw.sizes p (SortedMap.mem_values_of_get? hp)
  refine ⟨fun hg => ⟨fun hl => ?_, fun hl => ?_⟩, fun hg => ⟨p, hmem, .inl ⟨rfl, hg, rfl⟩⟩⟩
  · exact ⟨p, hmem, .inr (.inl ⟨rfl, hg, hl, rfl⟩)⟩
  · exact ⟨p, hmem, .inr (.inr
      ⟨rfl, hg, hl, writesPane hv hk hw hp (hvw.putPane hp rfl rfl hsize)⟩)⟩

end SessionCatalog
end Strukt
