import Strukt.Session.CatalogSpec

/-!
# Duplicated windows and sessions

A window is a copy of another (`CopiedBy`) under a renaming of panes: the layout is the same tree
with its panes renamed, the renamed pane is focused, and each renamed pane is a stopped one with the
directory and size of the pane it is named for.

* **Copying** (`copiedBy`, `copyWindows_succeeds`): with enough identifiers, the panes of a valid
  window are copied under the renaming that `copyPanes` returns, and those of several windows under
  one renaming.
* **The law** (`duplication_law`): where the new name is a valid one, a duplicate is added, and
  nothing else changes but revisions and what is active.
-/

namespace Strukt

namespace SessionLayoutNode

/-- The same tree over renamed panes. -/
def rename (f : PaneId → PaneId) : SessionLayoutNode → SessionLayoutNode
  | .pane p => .pane (f p)
  | .split axis ratio first second => .split axis ratio (first.rename f) (second.rename f)

theorem rename_congr {f g : PaneId → PaneId} {n : SessionLayoutNode}
    (h : ∀ p ∈ n.leaves, f p = g p) : n.rename f = n.rename g := by
  induction n with
  | pane p => rw [rename, rename, h p (by simp [leaves])]
  | split a r first second ihf ihs =>
    rw [rename, rename, ihf fun p hp => h p (List.mem_append_left _ hp),
      ihs fun p hp => h p (List.mem_append_right _ hp)]

theorem remap_eq {f : PaneId → PaneId} {ids : SortedMap PaneId PaneId} {n : SessionLayoutNode}
    (h : ∀ p ∈ n.leaves, ids.get? p = some (f p)) : n.remap ids = .ok (n.rename f) := by
  induction n with
  | pane p => simp only [remap, h p (by simp [leaves]), rename]
  | split a r first second ihf ihs =>
    rw [remap, ihf fun p hp => h p (List.mem_append_left _ hp),
      ihs fun p hp => h p (List.mem_append_right _ hp)]
    rfl

end SessionLayoutNode

/-- The panes of `w'` are those of `w` under `f`, stopped, in the same layout. -/
structure SessionWindow.CopiedBy (f : PaneId → PaneId) (w w' : SessionWindow) : Prop where
  revision : w'.revision = 1
  bijective : Set.BijOn f {p | p ∈ w.panes.keys} {p | p ∈ w'.panes.keys}
  root : w'.root = w.root.rename f
  focused : w'.focusedPane = f w.focusedPane
  panes : ∀ p s, w.panes.get? p = some s →
    w'.panes.get? (f p) = some (.stopped (f p) s.workingDirectory s.requestedRows s.requestedColumns)

/-- The window and its panes have identifiers that are new to the catalog. -/
structure SessionWindow.NewTo (c : SessionCatalog) (w : SessionWindow) : Prop where
  id : ∀ s ∈ c.sessions.values, ∀ v ∈ s.windows, v.id ≠ w.id
  panes : ∀ p ∈ w.panes.keys, p ∉ c.paneIds

section Copies

variable {w w' : SessionWindow} {f g : PaneId → PaneId}

theorem SessionWindow.CopiedBy.congr (hw : w.Valid) (h : w.CopiedBy f w')
    (hfg : ∀ p ∈ w.panes.keys, f p = g p) : w.CopiedBy g w' where
  revision := h.revision
  bijective := h.bijective.congr hfg
  root := h.root.trans (SessionLayoutNode.rename_congr fun p hp => hfg p ((hw.layout.mem p).mp hp))
  focused := h.focused.trans (hfg _ hw.focused)
  panes p s hp := by
    rw [← hfg p (SortedMap.mem_keys_of_get? hp)]
    exact h.panes p s hp

/-- The map of identifiers as a function. -/
def renamed (ids : SortedMap PaneId PaneId) (p : PaneId) : PaneId := (ids.get? p).getD p

namespace SessionCatalog

open Method

variable {ids : SortedMap PaneId PaneId} {panes : SortedMap PaneId SessionPane}
  {used rng : RandomSource}

theorem PanesCopied.get?_eq (h : PanesCopied w ids panes used) {p : PaneId}
    (hp : p ∈ w.panes.keys) : ids.get? p = some (renamed ids p) := by
  obtain ⟨q, hq⟩ := (h.source p).mp hp
  rw [renamed, hq, Option.getD_some]

theorem PanesCopied.remap (hw : w.Valid) (h : PanesCopied w ids panes used) :
    w.root.remap ids = .ok (w.root.rename (renamed ids)) :=
  SessionLayoutNode.remap_eq fun p hp => h.get?_eq ((hw.layout.mem p).mp hp)

theorem PanesCopied.copiedBy (h : PanesCopied w ids panes used) (wid : WindowId) (name : String) :
    w.CopiedBy (renamed ids)
      ⟨wid, name, 1, w.root.rename (renamed ids), renamed ids w.focusedPane, panes⟩ where
  revision := rfl
  bijective := by
    refine ⟨fun p hp => (h.image _).mpr ⟨p, h.get?_eq hp⟩, fun p hp q hq heq => ?_, fun q hq => ?_⟩
    · exact h.injective p q _ (h.get?_eq hp) (heq ▸ h.get?_eq hq)
    · obtain ⟨p, hp⟩ := (h.image q).mp hq
      refine ⟨p, (h.source p).mpr ⟨q, hp⟩, ?_⟩
      rw [renamed, hp, Option.getD_some]
  root := rfl
  focused := rfl
  panes p s hs := by
    obtain ⟨s', hs', hcopy⟩ := h.pane p _ (h.get?_eq (SortedMap.mem_keys_of_get? hs))
    cases hs.symm.trans hs'
    exact hcopy

/-- With enough identifiers, panes are copied. -/
theorem copyPanes_succeeds {sources : List SessionPane} (hrng : sources.length ≤ rng.length) :
    ∃ ids' panes' rng', copyPanes sources rng ids panes = .ok (ids', panes', rng') := by
  induction sources generalizing rng ids panes with
  | nil => exact ⟨ids, panes, rng, rfl⟩
  | cons s sources ih =>
    cases rng with
    | nil => cases hrng
    | cons v rng =>
      obtain ⟨ids', panes', rng', hcopy⟩ := @ih
        (ids.insert s.id ⟨v⟩) (panes.insert ⟨v⟩
          (.stopped ⟨v⟩ s.workingDirectory s.requestedRows s.requestedColumns)) rng
        (Nat.le_of_succ_le_succ hrng)
      exact ⟨ids', panes', rng', hcopy⟩

/-- With enough identifiers, the panes of a valid window are copied. -/
theorem copyPanes_copies (hw : w.Valid) (hlength : w.panes.length ≤ rng.length)
    (hnodup : rng.Nodup) : ∃ ids panes used rng', rng = used ++ rng' ∧
      copyPanes w.panes.values rng .empty .empty = .ok (ids, panes, rng') ∧
        PanesCopied w ids panes used := by
  obtain ⟨ids, panes, rng', hcopy⟩ := @copyPanes_succeeds .empty .empty rng w.panes.values
    (by rw [SortedMap.length_values]; exact hlength)
  obtain ⟨used, hused, hcopied⟩ := copyPanes_window hw hcopy hnodup
  exact ⟨ids, panes, used, rng', hused, hcopy, hcopied⟩

/-- With enough identifiers, valid windows are copied, under one renaming of their panes, and the
copy of the active one is returned. -/
theorem copyWindows_succeeds {activeWindow : WindowId} {ws : List SessionWindow}
    {a : Option WindowId} (hws : ∀ w ∈ ws, w.Valid) (hids : (ws.map (·.id)).Nodup)
    (hpanes : (ws.flatMap (·.panes.keys)).Nodup)
    (hlength : (ws.map (·.panes.length + 1)).sum ≤ rng.length) (hnodup : rng.Nodup) :
    ∃ ws' a' f, copyWindows activeWindow ws rng a = .ok (ws', a') ∧
      List.Forall₂ (fun w w' => w.CopiedBy f w' ∧ w'.name = w.name ∧
        (w.id = activeWindow → a' = some w'.id)) ws ws' ∧
      ((∀ w ∈ ws, w.id ≠ activeWindow) → a' = a) := by
  induction ws generalizing rng a with
  | nil => exact ⟨[], a, id, rfl, .nil, fun _ => rfl⟩
  | cons w ws ih =>
    obtain ⟨hw, hws⟩ := List.forall_mem_cons.mp hws
    obtain ⟨hid, hids⟩ := List.nodup_cons.mp hids
    obtain ⟨-, hpanes, hapart⟩ := List.nodup_append.mp hpanes
    rw [List.map_cons, List.sum_cons] at hlength
    obtain ⟨v, rng, rfl⟩ : ∃ v rest, rng = v :: rest :=
      List.exists_cons_of_length_pos (by omega)
    rw [List.length_cons] at hlength
    obtain ⟨ids, panes, used, rest, rfl, hcopy, hcopied⟩ :=
      copyPanes_copies hw (by omega) (List.nodup_cons.mp hnodup).2
    have hcount := hcopied.count
    rw [List.length_append] at hlength
    obtain ⟨ws', a', f, hrest, hall, hactive⟩ := @ih rest
      (if w.id = activeWindow then some ⟨v⟩ else a) hws hids hpanes (by omega)
      (List.nodup_append.mp (List.nodup_cons.mp hnodup).2).2.1
    -- The renamings agree with one, as no pane is in two windows.
    have happly (u : SessionWindow) (hu : u ∈ ws) (p : PaneId) (hp : p ∈ u.panes.keys) :
        p ∉ w.panes.keys :=
      fun hpw => hapart p hpw p (List.mem_flatMap.mpr ⟨u, hu, hp⟩) rfl
    refine ⟨⟨⟨v⟩, w.name, 1, w.root.rename (renamed ids), renamed ids w.focusedPane, panes⟩ :: ws',
      a', fun p => if p ∈ w.panes.keys then renamed ids p else f p, ?_,
      .cons ⟨(hcopied.copiedBy ⟨v⟩ w.name).congr hw fun p hp => (if_pos hp).symm, rfl, fun h => ?_⟩
        ?_, fun h => ?_⟩
    · simp only [copyWindows, newId, OpaqueId.new, Except.mapError, bind, Except.bind, hcopy,
        hcopied.get?_eq hw.focused, hcopied.remap hw, hrest]
      rfl
    · rw [hactive fun u hu heq => hid (List.mem_map.mpr ⟨u, hu, heq.trans h.symm⟩), if_pos h]
    · have hboth := (List.forall₂_and_left
        (p := fun u => u.Valid ∧ ∀ q ∈ u.panes.keys, q ∉ w.panes.keys) ws ws').mpr
          ⟨fun u hu => ⟨hws u hu, happly u hu⟩, hall⟩
      refine hboth.imp ?_
      rintro u u' ⟨⟨hu, hne⟩, hcopy, hname, ha⟩
      exact ⟨hcopy.congr hu fun p hp => (if_neg (hne p hp)).symm, hname, ha⟩
    · rw [hactive fun u hu => h u (List.mem_cons_of_mem _ hu), if_neg (h w List.mem_cons_self)]

theorem exists_copy {R : SessionWindow → SessionWindow → Prop} {ws ws' : List SessionWindow}
    (h : List.Forall₂ R ws ws') (hw : w ∈ ws) : ∃ w', R w w' := by
  induction h with
  | nil => cases hw
  | cons hr _ ih =>
    obtain rfl | hw := List.mem_cons.mp hw
    · exact ⟨_, hr⟩
    · exact ih hw

/-- The panes of copies are in bijection with those of their sources. -/
theorem copies_bijective {ws ws' : List SessionWindow}
    (h : List.Forall₂ (fun w w' => w.CopiedBy f w') ws ws')
    (hn : (ws'.flatMap (·.panes.keys)).Nodup) :
    Set.BijOn f {p | p ∈ ws.flatMap (·.panes.keys)} {p | p ∈ ws'.flatMap (·.panes.keys)} := by
  induction h with
  | nil =>
    rw [List.flatMap_nil, show {p | p ∈ ([] : List PaneId)} = ∅ by simp]
    exact Set.bijOn_empty f
  | @cons w w' ws ws' hw _ ih =>
    obtain ⟨-, hn, hapart⟩ := List.nodup_append.mp hn
    obtain ⟨hmaps, hinj, hsurj⟩ := hw.bijective
    obtain ⟨hmaps', hinj', hsurj'⟩ := ih hn
    refine ⟨fun p hp => ?_, fun p hp q hq heq => ?_, fun q hq => ?_⟩
    · exact List.mem_append.mpr ((List.mem_append.mp hp).imp (fun h => hmaps h) fun h => hmaps' h)
    · rcases List.mem_append.mp hp with hp | hp <;> rcases List.mem_append.mp hq with hq | hq
      · exact hinj hp hq heq
      · exact absurd heq (hapart _ (hmaps hp) _ (hmaps' hq))
      · exact absurd heq.symm (hapart _ (hmaps hq) _ (hmaps' hp))
      · exact hinj' hp hq heq
    · rcases List.mem_append.mp hq with hq | hq
      · obtain ⟨p, hp, rfl⟩ := hsurj hq
        exact ⟨p, List.mem_append_left _ hp, rfl⟩
      · obtain ⟨p, hp, rfl⟩ := hsurj' hq
        exact ⟨p, List.mem_append_right _ hp, rfl⟩

theorem findWindow_id {s : Session} (hs : s.Valid) (hw : w ∈ s.windows) :
    s.findWindow (·.id = w.id) = some w := by
  cases hfind : s.findWindow (·.id = w.id) with
  | none =>
    exact absurd (decide_eq_true rfl) (List.find?_eq_none.mp hfind w hw)
  | some v =>
    have hid : v.id = w.id := of_decide_eq_true (List.find?_some hfind :)
    rw [List.inj_on_of_nodup_map hs.windowIds (Session.mem_of_findWindow hfind) hw hid]

/-! ## The operations -/

section Operations

variable {c : SessionCatalog} {k : SessionId} {s : Session}

theorem duplicateWindow_copies (hv : c.Valid) (hk : c.sessions.get? k = some s)
    (hfresh : rng.FreshIn c) (hw : w ∈ s.windows)
    (hwindows : s.windows.length < maxWindowsPerSession)
    (htotal : c.totalPanes + w.panes.length ≤ maxTotalPanes)
    (hrng : w.panes.length + 1 ≤ rng.length) :
    (∀ name, validatedName (w.name ++ " copy") = .ok name → ∃ w' f,
      (duplicateWindow c.revision k w.id rng).exec c = some (.ok w'.id,
        { c with
          revision := c.revision.satSucc
          sessions := c.sessions.insert k
            { s with
              windows := s.windows ++ [w']
              activeWindow := w'.id
              revision := s.revision.satSucc } }) ∧
      w'.name = name ∧ w.CopiedBy f w' ∧ w'.NewTo c) ∧
    ∀ e, validatedName (w.name ++ " copy") = .error e →
      (duplicateWindow c.revision k w.id rng).exec c = some (.error e, c) := by
  obtain ⟨hs, -⟩ := hv.session hk
  have hwv := hs.windows w hw
  have hfind := findWindow_id hs hw
  obtain ⟨v, rest, rfl⟩ : ∃ v rest, rng = v :: rest :=
    List.exists_cons_of_length_pos (by omega)
  obtain ⟨ids, panes, used, rng', rfl, hcopy, hcopied⟩ :=
    copyPanes_copies hwv (Nat.le_of_succ_le_succ hrng) (List.nodup_cons.mp hfresh.nodup).2
  refine ⟨fun name hname => ?_, fun e hname => ?_⟩
  · refine ⟨⟨⟨v⟩, name, 1, w.root.rename (renamed ids), renamed ids w.focusedPane, panes⟩,
      renamed ids, wp_returns.mp ?_, rfl, hcopied.copiedBy ⟨v⟩ name, fun t ht u hu => ?_,
      fun p hp => ?_⟩
    · simp [duplicateWindow, hk, hwindows, hfind, htotal, newId, OpaqueId.new, Except.mapError,
        hcopy, hname, hcopied.remap hwv, hcopied.get?_eq hwv.focused]
    · exact hfresh.window v List.mem_cons_self t ht u hu
    · obtain ⟨q, hq⟩ := (hcopied.image p).mp hp
      exact hfresh.pane p.value
        (List.mem_cons_of_mem _ (List.mem_append_left _ (hcopied.drawn q p hq)))
  · refine wp_fails.mp ?_
    simp [duplicateWindow, hk, hwindows, hfind, htotal, newId, OpaqueId.new, Except.mapError,
      hcopy, hname]

theorem duplicateSession_copies (hv : c.Valid) (hk : c.sessions.get? k = some s)
    (hfresh : rng.FreshIn c) (hsessions : c.sessions.length < maxSessions)
    (htotal : c.totalPanes + s.paneCount ≤ maxTotalPanes)
    (hrng : (s.windows.map (·.panes.length + 1)).sum + 1 ≤ rng.length) :
    (∀ name, validatedName (s.name ++ " copy") = .ok name → ∃ s' f,
      (duplicateSession c.revision k rng).exec c = some (.ok s'.id,
        { revision := c.revision.satSucc
          sessions := c.sessions.insert s'.id s'
          activeSession := some s'.id }) ∧
      s'.id ∉ c.sessions.keys ∧ s'.name = name ∧ s'.revision = 1 ∧
      List.Forall₂ (fun w w' => w.CopiedBy f w' ∧ w'.name = w.name ∧
        (w.id = s.activeWindow → w'.id = s'.activeWindow)) s.windows s'.windows ∧
      (∀ w' ∈ s'.windows, w'.NewTo c) ∧ (s'.windows.map (·.id)).Nodup ∧
      Set.BijOn f {p | p ∈ s.paneIds} {p | p ∈ s'.paneIds}) ∧
    ∀ e, validatedName (s.name ++ " copy") = .error e →
      (duplicateSession c.revision k rng).exec c = some (.error e, c) := by
  obtain ⟨hs, -⟩ := hv.session hk
  obtain ⟨v, rest, rfl⟩ : ∃ v rest, rng = v :: rest :=
    List.exists_cons_of_length_pos (by omega)
  have hrest := (List.nodup_cons.mp hfresh.nodup).2
  have hpanes := hv.nodup_session hk
  rw [Session.paneIds_eq] at hpanes
  obtain ⟨ws', a', f, hcopy, hall, -⟩ := @copyWindows_succeeds rest s.activeWindow s.windows none
    hs.windows hs.windowIds hpanes (Nat.le_of_succ_le_succ hrng) hrest
  obtain ⟨hnew, hdrawn, -⟩ := copyWindows_spec hcopy hs.windows hrest
  -- One of the windows is the active one, so one is returned.
  obtain ⟨a, rfl⟩ : ∃ a, a' = some a := by
    obtain ⟨w, hw, ha⟩ := hs.active
    obtain ⟨w', -, -, hactive⟩ := exists_copy hall hw
    exact ⟨w'.id, hactive ha⟩
  refine ⟨fun name hname => ?_, fun e hname => ?_⟩
  · refine ⟨⟨⟨v⟩, name, 1, ws', a⟩, f, wp_returns.mp ?_, hfresh.session v List.mem_cons_self, rfl,
      rfl, hall.imp fun w w' h => ⟨h.1, h.2.1, fun ha => (Option.some.inj (h.2.2 ha)).symm⟩,
      fun w' hw' => ⟨fun t ht u hu => ?_, fun p hp => ?_⟩, hnew.ids, ?_⟩
    · simp [duplicateSession, hk, hsessions, htotal, newId, OpaqueId.new, Except.mapError, hcopy,
        hname]
    · exact hfresh.window _ (List.mem_cons_of_mem _ (hnew.drawn w' hw')) t ht u hu
    · exact hfresh.pane _ (List.mem_cons_of_mem _ (hdrawn w' hw' p hp))
    · rw [Session.paneIds_eq, Session.paneIds_eq]
      exact copies_bijective (hall.imp fun _ _ h => h.1) hnew.panes
  · refine wp_fails.mp ?_
    simp [duplicateSession, hk, hsessions, htotal, newId, OpaqueId.new, Except.mapError, hcopy,
      hname]

/-- Where the source's name with ` copy` is a valid name, a window or session is duplicated: the
copy is added and made active, under new identifiers, and the rest of the catalog stays but for the
revisions. Where it is not, that is the error, and nothing changes. -/
theorem duplication_law (c : SessionCatalog) (k : SessionId) (s : Session) (rng : RandomSource)
    (hv : c.validate = .ok ()) (hk : c.sessions.get? k = some s) (hfresh : rng.FreshIn c) :
    (∀ w ∈ s.windows, s.windows.length < maxWindowsPerSession →
      c.totalPanes + w.panes.length ≤ maxTotalPanes → w.panes.length + 1 ≤ rng.length →
        (∀ name, validatedName (w.name ++ " copy") = .ok name → ∃ w' f,
          (duplicateWindow c.revision k w.id rng).exec c = some (.ok w'.id,
            { c with
              revision := c.revision.satSucc
              sessions := c.sessions.insert k
                { s with
                  windows := s.windows ++ [w']
                  activeWindow := w'.id
                  revision := s.revision.satSucc } }) ∧
          w'.name = name ∧ w.CopiedBy f w' ∧ w'.NewTo c) ∧
        ∀ e, validatedName (w.name ++ " copy") = .error e →
          (duplicateWindow c.revision k w.id rng).exec c = some (.error e, c)) ∧
    (c.sessions.length < maxSessions → c.totalPanes + s.paneCount ≤ maxTotalPanes →
      (s.windows.map (·.panes.length + 1)).sum + 1 ≤ rng.length →
        (∀ name, validatedName (s.name ++ " copy") = .ok name → ∃ s' f,
          (duplicateSession c.revision k rng).exec c = some (.ok s'.id,
            { revision := c.revision.satSucc
              sessions := c.sessions.insert s'.id s'
              activeSession := some s'.id }) ∧
          s'.id ∉ c.sessions.keys ∧ s'.name = name ∧ s'.revision = 1 ∧
          List.Forall₂ (fun w w' => w.CopiedBy f w' ∧ w'.name = w.name ∧
            (w.id = s.activeWindow → w'.id = s'.activeWindow)) s.windows s'.windows ∧
          (∀ w' ∈ s'.windows, w'.NewTo c) ∧ (s'.windows.map (·.id)).Nodup ∧
          Set.BijOn f {p | p ∈ s.paneIds} {p | p ∈ s'.paneIds}) ∧
        ∀ e, validatedName (s.name ++ " copy") = .error e →
          (duplicateSession c.revision k rng).exec c = some (.error e, c)) :=
  ⟨fun _ hw hwindows htotal hrng =>
      duplicateWindow_copies (validate_iff.mp hv) hk hfresh hw hwindows htotal hrng,
    fun hsessions htotal hrng =>
      duplicateSession_copies (validate_iff.mp hv) hk hfresh hsessions htotal hrng⟩

end Operations

end SessionCatalog

end Copies

namespace SessionCatalog

/-- A catalog of one session with one window of two panes. -/
def shells (name : String) : SessionCatalog where
  revision := 1
  sessions := .singleton ⟨1⟩
    { id := ⟨1⟩
      name := "work"
      revision := 1
      windows :=
        [{ id := ⟨2⟩
           name := name
           revision := 1
           root := .split .vertical 3000 (.pane ⟨4⟩) (.pane ⟨3⟩)
           focusedPane := ⟨4⟩
           panes := .ofList [(⟨3⟩, .stopped ⟨3⟩ ⟨[47]⟩ 24 80), (⟨4⟩, .stopped ⟨4⟩ ⟨[46]⟩ 30 90)] }]
      activeWindow := ⟨2⟩ }
  activeSession := some ⟨1⟩

/-- The window of two panes is duplicated. -/
theorem duplication_law_shells : ∃ id c',
    (duplicateWindow 1 ⟨1⟩ ⟨2⟩ [9, 8, 7]).exec (shells "shell") = some (.ok id, c') := by
  obtain ⟨w', f, hexec, -⟩ := ((duplication_law (shells "shell") ⟨1⟩ _ [9, 8, 7] rfl rfl
    (by decide)).1 _ List.mem_cons_self (by decide) (by decide) (by decide)).1 _ rfl
  exact ⟨_, _, hexec⟩

/-- A window whose name has 80 characters is not. -/
theorem long_name_refused : ¬ ∀ (c : SessionCatalog) (k : SessionId) (s : Session)
    (w : SessionWindow) (rng : RandomSource), c.validate = .ok () → c.sessions.get? k = some s →
      w ∈ s.windows → s.windows.length < maxWindowsPerSession →
      c.totalPanes + w.panes.length ≤ maxTotalPanes → rng.FreshIn c →
      w.panes.length + 1 ≤ rng.length → ∃ id c',
        (duplicateWindow c.revision k w.id rng).exec c = some (.ok id, c') := by
  intro h
  obtain ⟨id, c', hexec⟩ := h (shells (String.ofList (List.replicate 80 'a'))) ⟨1⟩ _ _ [9, 8, 7]
    (by decide) rfl List.mem_cons_self (by decide) (by decide) (by decide)
    (by decide)
  have hrefused : ((duplicateWindow 1 ⟨1⟩ ⟨2⟩ [9, 8, 7]).exec
      (shells (String.ofList (List.replicate 80 'a')))).map (·.1) = some (.error .invalidName) := by
    decide +kernel
  rw [show (duplicateWindow 1 ⟨1⟩ ⟨2⟩ [9, 8, 7]).exec _ = _ from hexec] at hrefused
  cases hrefused

end SessionCatalog

end Strukt
