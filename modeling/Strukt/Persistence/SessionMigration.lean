import Strukt.Persistence.Contribution
import Strukt.Session.CatalogSpec
import Strukt.Terminal.WorkspaceRoundTrip

/-!
# From terminal tabs to a session

`planSessionMigration` makes a stopped session of the terminal's contribution: a window for each
tab, with a new pane for each of its panes. The catalog has limits that the terminal does not have.

* **Identifiers** (`paneIdOf`): the panes get the values of the random source one after the other,
  so that one map renames the panes of all tabs.
* **Limits** (`Admissible`): the tabs, panes, levels and names that the catalog takes.
* **The law** (`migration_law`): the plan exists exactly for the admissible contributions, and then
  it is the terminal's workspace, renamed (`Migrated`).
-/

namespace Strukt

open Method

structure SessionMigrationPlan where
  catalog : SessionCatalog
  contribution : SessionContribution

inductive SessionMigrationOutcome where
  | none
  | m3Authoritative
  | planned (plan : SessionMigrationPlan)

/-! ## The plan -/

def migrateLayout (ids : SortedMap TerminalPaneId PaneId) :
    LayoutNode → Except SessionMigrationError SessionLayoutNode
  | .pane pane =>
    match ids.get? pane with
    | some id => .ok (.pane id)
    | none => .error .invalidLayout
  | .split axis ratio first second => do
    let first ← migrateLayout ids first
    let second ← migrateLayout ids second
    return .split axis ratio first second

/-- The identifiers of a tab's panes, and what is left of the random source. -/
def drawPaneIds : List TerminalPaneSnapshot → RandomSource → SortedMap TerminalPaneId PaneId →
    Except SessionMigrationError (SortedMap TerminalPaneId PaneId × RandomSource)
  | [], rng, ids => .ok (ids, rng)
  | pane :: rest, rng, ids => do
    let (id, rng) ← (OpaqueId.new rng).mapError .id
    drawPaneIds rest rng (ids.insert pane.id id)

def migratePanes (ids : SortedMap TerminalPaneId PaneId) :
    List TerminalPaneSnapshot → Except SessionMigrationError (List (PaneId × PathBuf))
  | [] => .ok []
  | pane :: rest =>
    match ids.get? pane.id with
    | none => .error .invalidLayout
    | some id => do
      let panes ← migratePanes ids rest
      return (id, pane.workingDirectory) :: panes

/-- A round of the loop over the tabs. -/
def migrateTab (tab : TerminalTabSnapshot) (rng : RandomSource) :
    Except SessionMigrationError (StoppedWindowDefinition × RandomSource) := do
  let (ids, rng) ← drawPaneIds tab.panes rng .empty
  let panes ← migratePanes ids tab.panes
  let root ← migrateLayout ids tab.root
  match ids.get? tab.focusedPane with
  | none => .error .invalidLayout
  | some focusedPane => return (⟨tab.name, root, focusedPane, panes⟩, rng)

def migrateTabs : List TerminalTabSnapshot → RandomSource →
    Except SessionMigrationError (List StoppedWindowDefinition × RandomSource)
  | [], rng => .ok ([], rng)
  | tab :: rest, rng => do
    let (window, rng) ← migrateTab tab rng
    let (windows, rng) ← migrateTabs rest rng
    return (window :: windows, rng)

def activeWindowIndex (terminal : TerminalSessionSnapshot) : Nat :=
  (terminal.activeTab.bind fun active => terminal.tabs.findIdx? (·.id = active)).getD 0

/-- The plan for a terminal with tabs; `none` is a panic. -/
def planTerminal (terminal : TerminalSessionSnapshot) (rng : RandomSource) :
    Option (Except SessionMigrationError SessionMigrationPlan) :=
  match migrateTabs terminal.tabs rng with
  | .error error => some (.error error)
  | .ok (windows, rng) =>
    match (SessionCatalog.importStoppedSession 0 "Local" windows (activeWindowIndex terminal)
        rng).exec .new with
    | none => none
    | some (.error error, _) => some (.error (.catalog error))
    | some (.ok session, catalog) =>
      match (catalog.sessions.get? session).bind Session.active with
      | none => some (.error .invalidLayout)
      | some window => some (.ok
          { catalog := catalog
            contribution :=
              { schemaVersion := sessionSchemaVersion
                provider := "native-local"
                selectedSession := some session
                selectedWindow := some window.id
                migratedTerminalSchema := some terminal.schemaVersion } })

def planSessionMigration (state : WorkspaceState) (existing : Option SessionCatalog)
    (rng : RandomSource) : Option (Except SessionMigrationError SessionMigrationOutcome) :=
  match sessionContribution state with
  | .error error => some (.error error)
  | .ok contribution =>
    if contribution.isSome ∨ existing.any (!·.sessions.isEmpty) then
      some (.ok .m3Authoritative)
    else
      match terminalContribution state with
      | .error error => some (.error (.terminal error))
      | .ok none => some (.ok .none)
      | .ok (some terminal) =>
        if terminal.tabs.isEmpty then some (.ok .none)
        else (planTerminal terminal rng).map (·.map .planned)

/-! ## Renamed layouts -/

namespace LayoutNode

/-- The layout over other panes. -/
def rename (f : TerminalPaneId → PaneId) : LayoutNode → SessionLayoutNode
  | .pane p => .pane (f p)
  | .split axis ratio first second => .split axis ratio (first.rename f) (second.rename f)

/-- The number of levels. -/
def height : LayoutNode → Nat
  | .pane _ => 1
  | .split _ _ first second => max first.height second.height + 1

variable {f : TerminalPaneId → PaneId} {n : LayoutNode}

theorem leaves_rename : (n.rename f).leaves = n.leaves.map f := by
  induction n with
  | pane p => rfl
  | split axis ratio first second ihf ihs =>
    rw [rename, SessionLayoutNode.leaves, ihf, ihs, leaves, List.map_append]

theorem height_rename : (n.rename f).height = n.height := by
  induction n with
  | pane p => rfl
  | split axis ratio first second ihf ihs => rw [rename, SessionLayoutNode.height, ihf, ihs, height]

theorem ratiosValid_rename : (n.rename f).RatiosValid ↔ n.RatiosValid := by
  induction n with
  | pane p => rfl
  | split axis ratio first second ihf ihs =>
    rw [rename, SessionLayoutNode.RatiosValid, ihf, ihs]
    rfl

end LayoutNode

/-! ## The tabs, renamed -/

section Renamed

variable {f : TerminalPaneId → PaneId} {ids : SortedMap TerminalPaneId PaneId}
  {rng : RandomSource}

/-- The window's definition for a tab whose panes are renamed. -/
def renamedTab (f : TerminalPaneId → PaneId) (tab : TerminalTabSnapshot) :
    StoppedWindowDefinition :=
  ⟨tab.name, tab.root.rename f, f tab.focusedPane,
    tab.panes.map fun pane => (f pane.id, pane.workingDirectory)⟩

theorem migrateLayout_eq {n : LayoutNode} (h : ∀ p ∈ n.leaves, ids.get? p = some (f p)) :
    migrateLayout ids n = .ok (n.rename f) := by
  induction n with
  | pane p => rw [migrateLayout, h p List.mem_cons_self, LayoutNode.rename]
  | split axis ratio first second ihf ihs =>
    rw [LayoutNode.leaves, List.forall_mem_append] at h
    rw [migrateLayout, ihf h.1, ihs h.2]
    rfl

theorem migratePanes_eq {panes : List TerminalPaneSnapshot}
    (h : ∀ pane ∈ panes, ids.get? pane.id = some (f pane.id)) :
    migratePanes ids panes = .ok (panes.map fun pane => (f pane.id, pane.workingDirectory)) := by
  induction panes with
  | nil => rfl
  | cons pane rest ih =>
    rw [List.forall_mem_cons] at h
    rw [migratePanes, h.1]
    dsimp only
    rw [ih h.2]
    rfl

/-- The identifiers of the renaming, added for each pane. -/
def renamedIds (f : TerminalPaneId → PaneId) (panes : List TerminalPaneSnapshot)
    (ids : SortedMap TerminalPaneId PaneId) : SortedMap TerminalPaneId PaneId :=
  panes.foldl (fun ids pane => ids.insert pane.id (f pane.id)) ids

/-- The random source gives the panes the identifiers of the renaming. -/
theorem drawPaneIds_eq (f : TerminalPaneId → PaneId) (panes : List TerminalPaneSnapshot)
    (ids : SortedMap TerminalPaneId PaneId) :
    drawPaneIds panes (panes.map (fun pane => (f pane.id).value) ++ rng) ids =
      .ok (renamedIds f panes ids, rng) := by
  induction panes generalizing ids with
  | nil => rfl
  | cons pane rest ih => exact ih _

theorem get?_renamedIds {panes : List TerminalPaneSnapshot} {p : TerminalPaneId}
    (h : p ∈ panes.map (·.id) ∨ ids.get? p = some (f p)) :
    (renamedIds f panes ids).get? p = some (f p) := by
  induction panes generalizing ids with
  | nil => exact h.resolve_left List.not_mem_nil
  | cons pane rest ih =>
    refine ih ?_
    by_cases hp : p = pane.id
    · rw [hp, SortedMap.get?_insert, if_pos rfl]
      exact .inr rfl
    · rw [SortedMap.get?_insert, if_neg hp]
      exact h.imp_left fun h => (List.mem_cons.mp h).resolve_left hp

theorem migrateTab_eq {tab : TerminalTabSnapshot}
    (hpanes : ∀ p, p ∈ tab.panes.map (·.id) ↔ p ∈ tab.root.leaves)
    (hfocused : tab.focusedPane ∈ tab.root.leaves) :
    migrateTab tab (tab.panes.map (fun pane => (f pane.id).value) ++ rng) =
      .ok (renamedTab f tab, rng) := by
  have hids : ∀ p ∈ tab.root.leaves,
      (renamedIds f tab.panes .empty).get? p = some (f p) :=
    fun p hp => get?_renamedIds (.inl ((hpanes p).mpr hp))
  have hlist : ∀ pane ∈ tab.panes,
      (renamedIds f tab.panes .empty).get? pane.id = some (f pane.id) :=
    fun pane hpane => get?_renamedIds (.inl (List.mem_map_of_mem hpane))
  rw [migrateTab, drawPaneIds_eq]
  simp only [bind, Except.bind, migratePanes_eq hlist, migrateLayout_eq hids, hids _ hfocused]
  rfl

theorem migrateTabs_eq {tabs : List TerminalTabSnapshot}
    (h : ∀ tab ∈ tabs, TerminalWorkspace.Whole tab) :
    migrateTabs tabs
        (tabs.flatMap (fun tab => tab.panes.map fun pane => (f pane.id).value) ++ rng) =
      .ok (tabs.map (renamedTab f), rng) := by
  induction tabs with
  | nil => rfl
  | cons tab rest ih =>
    rw [List.forall_mem_cons] at h
    rw [migrateTabs, List.flatMap_cons, List.append_assoc, migrateTab_eq h.1.panes h.1.focused]
    simp only [bind, Except.bind, ih h.2]
    rfl

end Renamed

/-! ## The identifiers -/

/-- The identifiers of the panes, one after the other from the random source. -/
def paneIdOf (panes : List TerminalPaneId) (rng : RandomSource) (p : TerminalPaneId) : PaneId :=
  ⟨rng.getD (panes.idxOf p) 0⟩

theorem map_paneIdOf {panes : List TerminalPaneId} {rng : RandomSource} (hn : panes.Nodup)
    (hlen : panes.length ≤ rng.length) :
    panes.map (fun p => (paneIdOf panes rng p).value) = rng.take panes.length := by
  refine List.ext_getElem (by rw [List.length_map, List.length_take, min_eq_left hlen]) ?_
  intro i hi _
  rw [List.length_map] at hi
  rw [List.getElem_map, List.getElem_take, paneIdOf, hn.idxOf_getElem i hi,
    List.getD_eq_getElem _ _ (hi.trans_le hlen)]

theorem paneIdOf_injOn {panes : List TerminalPaneId} {rng : RandomSource} (hn : panes.Nodup)
    (hlen : panes.length ≤ rng.length) (hrng : rng.Nodup) :
    ∀ p ∈ panes, ∀ q ∈ panes, paneIdOf panes rng p = paneIdOf panes rng q → p = q := by
  have hnodup : (panes.map fun p => (paneIdOf panes rng p).value).Nodup := by
    rw [map_paneIdOf hn hlen]
    exact hrng.sublist (List.take_sublist _ _)
  exact fun p hp q hq h => List.inj_on_of_nodup_map hnodup hp hq (congrArg (·.value) h)

/-! ## The import -/

namespace SessionCatalog

/-- What the catalog asks of an imported window, beside new panes. -/
structure Importable (d : StoppedWindowDefinition) : Prop where
  name : ∃ name, validatedName d.name = .ok name
  directories : ∀ e ∈ d.panes, e.2.bytes ≠ []
  count : d.panes.length ≤ maxPanesPerWindow
  focused : d.focusedPane ∈ d.panes.map (·.1)
  layout : d.root.Fits (d.panes.map (·.1))

/-- The window that is imported for a definition. -/
structure Imports (d : StoppedWindowDefinition) (w : SessionWindow) : Prop where
  name : validatedName d.name = .ok w.name
  root : w.root = d.root
  focusedPane : w.focusedPane = d.focusedPane
  panes : ∀ e ∈ d.panes, w.panes.get? e.1 = some (.stopped e.1 e.2 defaultRows defaultColumns)
  count : w.panes.length = d.panes.length

theorem importPanes_ok {l : List (PaneId × PathBuf)} {all : List PaneId}
    (panes : SortedMap PaneId SessionPane) (hd : ∀ e ∈ l, e.2.bytes ≠ [])
    (hn : (l.map (·.1)).Nodup) (hall : ∀ p ∈ l.map (·.1), p ∉ all) :
    ∃ all' panes', importPanes l all panes = .ok (all', panes') := by
  induction l generalizing all panes with
  | nil => exact ⟨_, _, rfl⟩
  | cons e l ih =>
    obtain ⟨p, d⟩ := e
    rw [List.map_cons, List.nodup_cons] at hn
    rw [List.forall_mem_cons] at hd
    rw [List.map_cons, List.forall_mem_cons] at hall
    have hnew : ∀ q ∈ l.map (·.1), q ∉ p :: all := fun q hq hmem => by
      rcases List.mem_cons.mp hmem with rfl | hmem
      · exact hn.1 hq
      · exact hall.2 q hq hmem
    obtain ⟨all', panes', h⟩ :=
      ih (panes.insert p (.stopped p d defaultRows defaultColumns)) hd.2 hn.2 hnew
    refine ⟨all', panes', ?_⟩
    rw [importPanes, if_neg hall.1, validatedDirectory, if_neg hd.1]
    exact h

theorem importPanes_directories {l : List (PaneId × PathBuf)} {all : List PaneId}
    {panes : SortedMap PaneId SessionPane} {r : List PaneId × SortedMap PaneId SessionPane}
    (h : importPanes l all panes = .ok r) : ∀ e ∈ l, e.2.bytes ≠ [] := by
  induction l generalizing all panes with
  | nil => exact fun _ hm => absurd hm List.not_mem_nil
  | cons e l ih =>
    rw [importPanes] at h
    split_ifs at h
    obtain ⟨directory, hd, h⟩ := bind_eq_ok.mp h
    exact List.forall_mem_cons.mpr ⟨(validatedDirectory_eq_ok hd).2, ih h⟩

/-- What an import of panes leaves: the panes, stopped. -/
theorem importPanes_panes {l : List (PaneId × PathBuf)} {all all' : List PaneId}
    {panes : SortedMap PaneId SessionPane} (h : importPanes l all .empty = .ok (all', panes)) :
    (∀ e ∈ l, panes.get? e.1 = some (.stopped e.1 e.2 defaultRows defaultColumns)) ∧
      (∀ p, p ∈ panes.keys ↔ p ∈ l.map (·.1)) ∧ panes.length = l.length ∧
        all' = (l.map (·.1)).reverse ++ all := by
  obtain ⟨hall, -, -, hmem, hlen⟩ := importPanes_spec h (by simp)
  have hdirectories := importPanes_directories h
  have hget : ∀ e ∈ l, panes.get? e.1 = some (.stopped e.1 e.2 defaultRows defaultColumns) :=
    fun e he => SortedMap.get?_eq_some.mpr ((hmem _).mpr (.inl ⟨e, he, hdirectories e he, rfl⟩))
  refine ⟨hget, fun p => ⟨fun hp => ?_, fun hp => ?_⟩, hlen.trans (Nat.zero_add _), hall⟩
  · obtain ⟨x, hx, rfl⟩ := List.mem_map.mp hp
    obtain ⟨e, he, -, rfl⟩ | hx := (hmem x).mp hx
    · exact List.mem_map_of_mem he
    · cases hx
  · obtain ⟨e, he, rfl⟩ := List.mem_map.mp hp
    exact SortedMap.mem_keys_of_get? (hget e he)

theorem importWindows_ok {defs : List StoppedWindowDefinition} {all : List PaneId}
    {rng : RandomSource} (h : ∀ d ∈ defs, Importable d)
    (hn : (defs.flatMap (·.panes.map (·.1))).Nodup)
    (hall : ∀ p ∈ defs.flatMap (·.panes.map (·.1)), p ∉ all) (hrng : defs.length ≤ rng.length) :
    ∃ ws, importWindows defs all rng = .ok ws := by
  induction defs generalizing all rng with
  | nil => exact ⟨_, rfl⟩
  | cons d defs ih =>
    rw [List.forall_mem_cons] at h
    rw [List.flatMap_cons, List.nodup_append] at hn
    rw [List.flatMap_cons, List.forall_mem_append] at hall
    obtain ⟨⟨⟨name, hname⟩, hdirectories, hcount, hfocused, hlayout⟩, hrest⟩ := h
    obtain ⟨all', panes, hpanes⟩ := importPanes_ok .empty hdirectories hn.1 hall.1
    obtain ⟨-, hkeys, hlen, rfl⟩ := importPanes_panes hpanes
    obtain ⟨v, rng, rfl⟩ := List.exists_cons_of_length_pos ((Nat.succ_pos _).trans_le hrng)
    have hfits : ¬(panes.isEmpty ∨ panes.length > maxPanesPerWindow ∨
        panes.containsKey d.focusedPane = false ∨ d.root.validate panes = false) := by
      have hfocus : d.focusedPane ∈ panes.keys := (hkeys _).mpr hfocused
      rw [hlen]
      rintro (hempty | hmany | hfocus' | hroot)
      · rw [SortedMap.isEmpty_iff.mp hempty] at hfocus
        exact List.not_mem_nil hfocus
      · exact absurd hcount (not_le.mpr hmany)
      · rw [SortedMap.containsKey_iff.mpr hfocus] at hfocus'
        cases hfocus'
      · have hvalid : d.root.validate panes = true := SessionLayoutNode.validate_iff.mpr
          ⟨hlayout.height, hlayout.ratios, hlayout.nodup,
            fun p => (hlayout.mem p).trans (hkeys p).symm⟩
        rw [hvalid] at hroot
        cases hroot
    have hnew : ∀ p ∈ defs.flatMap (·.panes.map (·.1)), p ∉ (d.panes.map (·.1)).reverse ++ all := by
      intro p hp hmem
      rcases List.mem_append.mp hmem with hmem | hmem
      · exact hn.2.2 p (List.mem_reverse.mp hmem) p hp rfl
      · exact hall.2 p hp hmem
    obtain ⟨ws, hws⟩ := ih hrest hn.2.1 hnew (Nat.le_of_succ_le_succ hrng)
    rw [importWindows, hname]
    simp only [bind, Except.bind, hpanes, if_neg hfits, newId, OpaqueId.new, Except.mapError, hws]
    exact ⟨_, rfl⟩

theorem importWindows_imports {defs : List StoppedWindowDefinition} {all : List PaneId}
    {rng : RandomSource} {ws : List SessionWindow} (h : importWindows defs all rng = .ok ws) :
    List.Forall₂ Imports defs ws := by
  induction defs generalizing all rng ws with
  | nil =>
    cases h
    exact .nil
  | cons d defs ih =>
    rw [importWindows] at h
    obtain ⟨name, hname, h⟩ := bind_eq_ok.mp h
    obtain ⟨⟨all', panes⟩, hpanes, h⟩ := bind_eq_ok.mp h
    dsimp only at h
    split_ifs at h with hfits
    obtain ⟨⟨windowId, rng'⟩, -, h⟩ := bind_eq_ok.mp h
    obtain ⟨ws', hws, h⟩ := bind_eq_ok.mp h
    cases h
    obtain ⟨hget, -, hlen, -⟩ := importPanes_panes hpanes
    exact .cons ⟨hname, rfl, rfl, hget, hlen⟩ (ih hws)

/-- The catalog with one session, after its import. -/
def imported (id : SessionId) (name : String) (windows : List SessionWindow)
    (active : SessionWindow) : SessionCatalog :=
  ⟨1, .insert .empty id ⟨id, name, 1, windows, active.id⟩, some id⟩

variable {windows : List StoppedWindowDefinition} {active : Nat} {name name' : String}
  {rng : RandomSource} {session : SessionId} {c : SessionCatalog}

/-- What an import of a session into an empty catalog does. -/
theorem importStoppedSession_empty : wp (importStoppedSession 0 name windows active rng)
    (fun session c => windows.length ≤ maxWindowsPerSession ∧
      (windows.map (·.panes.length)).sum ≤ maxTotalPanes ∧
      ∃ rng' ws w name', rng = session.value :: rng' ∧ importWindows windows [] rng' = .ok ws ∧
        ws[active]? = some w ∧ validatedName name = .ok name' ∧ c = imported session name' ws w)
    (fun _ _ => True) False .new := by
  simp only [importStoppedSession, expectRevision, bumpRevision, putSession, setActive, wp_bind,
    wp_get, wp_ensure, wp_ofExcept, wp_orPanic, wp_modify, wp_pure, implies_true, and_true]
  rintro - ⟨-, -, hcount, hactive⟩ htotal ⟨session, rng'⟩ hid ws hws
  refine ⟨fun w hw name' hname => ?_, fun hnone => ?_⟩
  · have htotal' : (windows.map (·.panes.length)).sum ≤ maxTotalPanes := by
      rwa [show SessionCatalog.totalPanes .new = 0 from rfl, Nat.zero_add] at htotal
    exact ⟨hcount, htotal', rng', ws, w, name', newId_eq_ok.mp hid, hws, hw, hname, rfl⟩
  · have hlen : ws.length = windows.length := (importWindows_spec hws).2.1
    rw [List.getElem?_eq_none_iff, hlen] at hnone
    exact absurd hactive (not_lt.mpr hnone)

theorem importStoppedSession_ok {v : Fin (2 ^ 128)} {ws : List SessionWindow} {w : SessionWindow}
    (hcount : windows.length ≤ maxWindowsPerSession)
    (htotal : (windows.map (·.panes.length)).sum ≤ maxTotalPanes)
    (hws : importWindows windows [] rng = .ok ws) (hw : ws[active]? = some w)
    (hname : validatedName name = .ok name') :
    (importStoppedSession 0 name windows active (v :: rng)).exec .new =
      some (.ok ⟨v⟩, imported ⟨v⟩ name' ws w) := by
  have hlen : ws.length = windows.length := (importWindows_spec hws).2.1
  have hactive : active < windows.length := hlen ▸ (List.getElem?_eq_some_iff.mp hw).1
  have hne : windows ≠ [] := List.ne_nil_of_length_pos (Nat.zero_lt_of_lt hactive)
  have hid : newId .session (v :: rng) = .ok (⟨v⟩, rng) := newId_eq_ok.mpr rfl
  have hempty : SessionCatalog.totalPanes .new + (windows.map (·.panes.length)).sum ≤
      maxTotalPanes := by
    rwa [show SessionCatalog.totalPanes .new = 0 from rfl, Nat.zero_add]
  rw [← wp_returns]
  simp only [importStoppedSession, expectRevision, bumpRevision, putSession, setActive, wp_bind,
    wp_get, wp_ensure, wp_ofExcept, wp_orPanic, wp_modify, wp_pure, hid, hws, hw, hname,
    Except.ok.injEq, Option.some.injEq, forall_eq', reduceCtorEq, false_implies, implies_true,
    and_true]
  refine ⟨fun _ => ⟨fun _ => ⟨fun _ => ⟨trivial, rfl⟩, fun h => h hempty⟩, fun h => ?_⟩,
    fun h => h rfl⟩
  exact h ⟨by decide, hne, hcount, hactive⟩

/-- The active window of the imported session is found under its identifier. -/
theorem active_imported (name : String) {v : Fin (2 ^ 128)} {ws : List SessionWindow}
    {w : SessionWindow} (hw : w ∈ ws) :
    ∃ w', ((imported ⟨v⟩ name ws w).sessions.get? ⟨v⟩).bind Session.active = some w' ∧
      w'.id = w.id := by
  have hfound : (ws.find? (·.id = w.id)).isSome := List.find?_isSome.mpr ⟨w, hw, decide_eq_true rfl⟩
  obtain ⟨w', hw'⟩ := Option.isSome_iff_exists.mp hfound
  have hid := List.find?_some hw'
  refine ⟨w', ?_, of_decide_eq_true hid⟩
  rw [imported, SortedMap.get?_insert, if_pos rfl]
  exact hw'

end SessionCatalog

/-! ## The law -/

namespace TerminalSessionSnapshot

variable {t : TerminalSessionSnapshot}

def paneIds (t : TerminalSessionSnapshot) : List TerminalPaneId :=
  t.tabs.flatMap fun tab => tab.panes.map (·.id)

/-- The limits of a catalog. -/
structure Admissible (t : TerminalSessionSnapshot) : Prop where
  tabs : t.tabs.length ≤ maxWindowsPerSession
  total : t.paneIds.length ≤ maxTotalPanes
  panes : ∀ tab ∈ t.tabs, tab.panes.length ≤ maxPanesPerWindow
  height : ∀ tab ∈ t.tabs, tab.root.height ≤ maxLayoutDepth
  names : ∀ tab ∈ t.tabs, (trim tab.name).length ≤ 80

/-- What is known of a contribution that was accepted. -/
structure Accepted (t : TerminalSessionSnapshot) : Prop where
  version : t.schemaVersion = terminalSchemaVersion
  whole : ∀ tab ∈ t.tabs, TerminalWorkspace.Whole tab
  names : ∀ tab ∈ t.tabs, trim tab.name ≠ ""
  directories : ∀ tab ∈ t.tabs, ∀ pane ∈ tab.panes, pane.workingDirectory.bytes ≠ []
  panes : t.paneIds.Nodup
  leaves : (t.tabs.flatMap (·.root.leaves)).Nodup
  active : t.tabs ≠ [] → ∃ i tab, t.tabs[i]? = some tab ∧ t.activeTab = some tab.id ∧
    activeWindowIndex t = i

theorem restored {state : WorkspaceState} (h : terminalContribution state = .ok (some t)) :
    ∃ w, t.restore = .ok w := by
  unfold terminalContribution at h
  split at h
  · cases h
  · split at h
    · cases h
    · next snapshot _ =>
      cases hr : snapshot.restore with
      | error e =>
        rw [hr] at h
        cases h
      | ok w =>
        rw [hr] at h
        cases h
        exact ⟨w, hr⟩

theorem accepted {w : TerminalWorkspace} (h : t.restore = .ok w) : Accepted t := by
  unfold restore at h
  split_ifs at h with hversion
  cases hr : TerminalWorkspace.restore ⟨t.tabs, t.activeTab⟩ with
  | error e =>
    rw [hr] at h
    cases h
  | ok w' =>
    obtain ⟨hw, hval⟩ := TerminalWorkspace.restore_ok hr
    obtain ⟨-, -, hleaves, -, hwhole⟩ := TerminalWorkspace.validateTabs_ok hval
    have heach := TerminalWorkspace.validateTabs_each hval
    have hvalid := TerminalWorkspace.valid_restore hr
    have htabs := TerminalWorkspace.restored_tabs hr
    refine ⟨not_not.mp hversion, hwhole, fun tab htab => ?_, fun tab htab pane hpane => ?_, ?_,
      hleaves, fun hne => ?_⟩
    · obtain ⟨name, hname⟩ := (heach tab htab).1
      intro hempty
      rw [TerminalWorkspace.validatedName, hempty] at hname
      cases hname
    · have hd := (heach tab htab).2.2 pane hpane
      intro hempty
      rw [TerminalWorkspace.validatedDirectory, if_pos hempty] at hd
      cases hd
    · have hperm : t.paneIds.Perm (t.tabs.flatMap (·.root.leaves)) :=
        List.Perm.flatMap_left _ fun tab htab =>
          (List.perm_ext_iff_of_nodup (heach tab htab).2.1
            ((List.nodup_flatMap.mp hleaves).1 tab htab)).mpr (hwhole tab htab).panes
      exact hperm.nodup_iff.mpr hleaves
    · have hactive : w'.activeTab = t.activeTab := by
        rw [hw]
        exact (TerminalWorkspace.foldl_restoreTab t.tabs ⟨[], .empty, t.activeTab⟩).2.1
      have hids : w'.tabs.map (·.id) = t.tabs.map (·.id) := by
        rw [htabs, List.map_map]
        rfl
      have hsome : w'.activeTab.isSome := hvalid.active.mpr fun hnil => hne (by
        rw [htabs] at hnil
        exact List.map_eq_nil_iff.mp hnil)
      obtain ⟨active, ha⟩ := Option.isSome_iff_exists.mp hsome
      have hmem : active ∈ t.tabs.map (·.id) := hids ▸ hvalid.existing active ha
      obtain ⟨tab, htab, rfl⟩ := List.mem_map.mp hmem
      rw [hactive] at ha
      cases hi : t.tabs.findIdx? (·.id = tab.id) with
      | none =>
        have hno := List.findIdx?_eq_none_iff.mp hi tab htab
        rw [decide_eq_true rfl] at hno
        cases hno
      | some i =>
        obtain ⟨hlt, hid, -⟩ := List.findIdx?_eq_some_iff_getElem.mp hi
        refine ⟨i, t.tabs[i], List.getElem?_eq_getElem hlt, ?_, ?_⟩
        · rw [ha, of_decide_eq_true hid]
        · rw [activeWindowIndex, ha, Option.bind_some, hi, Option.getD_some]

variable {f : TerminalPaneId → PaneId}

theorem validatedName_eq {name name' : String} : validatedName name = .ok name' ↔
    trim name ≠ "" ∧ (trim name).length ≤ 80 ∧ name' = trim name := by
  unfold validatedName
  dsimp only
  split_ifs with h
  · rw [String.isEmpty_iff] at h
    refine ⟨nofun, fun ⟨hne, hlen, _⟩ => ?_⟩
    exact (h.elim (absurd · hne) fun hlong => absurd hlen (not_le.mpr hlong))
  · rw [not_or, String.isEmpty_iff, not_lt] at h
    rw [Except.ok.injEq]
    exact ⟨fun he => ⟨h.1, h.2, he.symm⟩, fun he => he.2.2.symm⟩

theorem map_renamedTab : (t.tabs.map (renamedTab f)).flatMap (·.panes.map (·.1)) =
    t.paneIds.map f := by
  rw [List.flatMap_map, paneIds, List.map_flatMap]
  refine List.flatMap_congr fun tab _ => ?_
  rw [renamedTab, List.map_map, List.map_map]
  rfl

theorem sum_renamedTab : ((t.tabs.map (renamedTab f)).map (·.panes.length)).sum =
    t.paneIds.length := by
  rw [paneIds, List.length_flatMap, List.map_map]
  congr 2
  funext tab
  rw [Function.comp_apply, renamedTab, List.length_map, List.length_map]

theorem mem_paneIds {tab : TerminalTabSnapshot} (htab : tab ∈ t.tabs) {p : TerminalPaneId}
    (hp : p ∈ tab.panes.map (·.id)) : p ∈ t.paneIds :=
  List.mem_flatMap.mpr ⟨tab, htab, hp⟩

theorem Accepted.importable (h : Accepted t) (ha : Admissible t)
    (hf : ∀ p ∈ t.paneIds, ∀ q ∈ t.paneIds, f p = f q → p = q) :
    ∀ d ∈ t.tabs.map (renamedTab f), SessionCatalog.Importable d := by
  intro d hd
  obtain ⟨tab, htab, rfl⟩ := List.mem_map.mp hd
  have hwhole := h.whole tab htab
  have hpanes : (renamedTab f tab).panes.map (·.1) = (tab.panes.map (·.id)).map f := by
    rw [renamedTab, List.map_map, List.map_map]
    rfl
  have hinj : ∀ p ∈ tab.root.leaves, ∀ q ∈ tab.root.leaves, f p = f q → p = q := fun p hp q hq =>
    hf p (mem_paneIds htab ((hwhole.panes p).mpr hp)) q (mem_paneIds htab ((hwhole.panes q).mpr hq))
  refine ⟨⟨_, validatedName_eq.mpr ⟨h.names tab htab, ha.names tab htab, rfl⟩⟩, ?_, ?_, ?_, ?_⟩
  · intro e he
    obtain ⟨pane, hpane, rfl⟩ := List.mem_map.mp he
    exact h.directories tab htab pane hpane
  · rw [renamedTab, List.length_map]
    exact ha.panes tab htab
  · rw [hpanes]
    exact List.mem_map_of_mem ((hwhole.panes _).mpr hwhole.focused)
  · rw [hpanes]
    refine ⟨?_, LayoutNode.ratiosValid_rename.mpr hwhole.ratios, ?_, fun p => ?_⟩
    · rw [renamedTab, LayoutNode.height_rename]
      exact ha.height tab htab
    · rw [renamedTab, LayoutNode.leaves_rename]
      exact List.Nodup.map_on hinj ((List.nodup_flatMap.mp h.leaves).1 tab htab)
    · rw [renamedTab, LayoutNode.leaves_rename, List.mem_map, List.mem_map]
      exact exists_congr fun q => and_congr_left' (hwhole.panes q).symm

/-- The window shows the tab, its panes renamed and stopped. -/
structure Renders (f : TerminalPaneId → PaneId) (tab : TerminalTabSnapshot) (w : SessionWindow) :
    Prop where
  name : w.name = trim tab.name
  root : w.root = tab.root.rename f
  focusedPane : w.focusedPane = f tab.focusedPane
  panes : ∀ pane ∈ tab.panes, w.panes.get? (f pane.id) =
    some (.stopped (f pane.id) pane.workingDirectory defaultRows defaultColumns)
  count : w.panes.length = tab.panes.length

/-- The plan's catalog is the terminal's workspace as one session. -/
structure Migrated (t : TerminalSessionSnapshot) (plan : SessionMigrationPlan) (s : Session)
    (f : TerminalPaneId → PaneId) : Prop where
  valid : plan.catalog.validate = .ok ()
  session : plan.catalog.sessions.entries = [(s.id, s)]
  injective : ∀ p ∈ t.paneIds, ∀ q ∈ t.paneIds, f p = f q → p = q
  windows : List.Forall₂ (Renders f) t.tabs s.windows
  active : ∃ (i : Nat) (tab : TerminalTabSnapshot) (w : SessionWindow), t.tabs[i]? = some tab ∧
    t.activeTab = some tab.id ∧ s.windows[i]? = some w ∧ s.activeWindow = w.id
  stopped : ∀ w ∈ s.windows, ∀ pane ∈ w.panes.values, pane.lifecycle = .stopped
  contribution : plan.contribution = ⟨sessionSchemaVersion, "native-local", some s.id,
    some s.activeWindow, some terminalSchemaVersion⟩

theorem renders_of_imports {tab : TerminalTabSnapshot} {w : SessionWindow}
    (h : SessionCatalog.Imports (renamedTab f tab) w) : Renders f tab w where
  name := (validatedName_eq.mp h.name).2.2
  root := h.root
  focusedPane := h.focusedPane
  panes _ hpane := h.panes _ (List.mem_map_of_mem hpane)
  count := h.count.trans (List.length_map _)

variable {rng : RandomSource}

/-- The tabs as they are migrated, and what is left of the random source. -/
theorem Accepted.migrateTabs_eq (h : Accepted t) (hlen : t.paneIds.length ≤ rng.length) :
    migrateTabs t.tabs rng =
      .ok (t.tabs.map (renamedTab (paneIdOf t.paneIds rng)), rng.drop t.paneIds.length) := by
  have htake : t.tabs.flatMap (fun tab => tab.panes.map fun pane =>
      (paneIdOf t.paneIds rng pane.id).value) = rng.take t.paneIds.length := by
    rw [← map_paneIdOf h.panes hlen, paneIds, List.map_flatMap]
    exact List.flatMap_congr fun tab _ => by rw [List.map_map]; rfl
  conv_lhs => rw [← List.take_append_drop t.paneIds.length rng, ← htake]
  exact Strukt.migrateTabs_eq h.whole

/-- What was imported respects the limits. -/
theorem admissible_of_imports {ws : List SessionWindow}
    (hcount : t.tabs.length ≤ maxWindowsPerSession) (htotal : t.paneIds.length ≤ maxTotalPanes)
    (himports : List.Forall₂ SessionCatalog.Imports (t.tabs.map (renamedTab f)) ws)
    (hvalid : ∀ w ∈ ws, w.Valid) : Admissible t := by
  have hwindow : ∀ tab ∈ t.tabs, ∃ w, SessionCatalog.Imports (renamedTab f tab) w ∧ w.Valid := by
    intro tab htab
    obtain ⟨i, hi, rfl⟩ := List.getElem_of_mem htab
    obtain ⟨hlen, hall⟩ := List.forall₂_iff_get.mp (List.forall₂_map_left_iff.mp himports)
    exact ⟨_, hall i hi (hlen ▸ hi), hvalid _ (List.get_mem _ _)⟩
  refine ⟨hcount, htotal, fun tab htab => ?_, fun tab htab => ?_, fun tab htab => ?_⟩
  · obtain ⟨w, hw, hv⟩ := hwindow tab htab
    have hle := hv.count
    rwa [hw.count, renamedTab, List.length_map] at hle
  · obtain ⟨w, hw, hv⟩ := hwindow tab htab
    have hle := hv.layout.height
    rwa [hw.root, renamedTab, LayoutNode.height_rename] at hle
  · obtain ⟨w, hw, -⟩ := hwindow tab htab
    exact (validatedName_eq.mp hw.name).2.1

theorem migrated_imported {ws : List SessionWindow} {w : SessionWindow} {v : Fin (2 ^ 128)}
    (h : Accepted t) (ha : Admissible t) (hne : t.tabs ≠ [])
    (hf : ∀ p ∈ t.paneIds, ∀ q ∈ t.paneIds, f p = f q → p = q) (hrng : rng.Nodup)
    (hws : SessionCatalog.importWindows (t.tabs.map (renamedTab f)) [] rng = .ok ws)
    (hw : ws[activeWindowIndex t]? = some w) :
    Migrated t
      ⟨SessionCatalog.imported ⟨v⟩ "Local" ws w, ⟨sessionSchemaVersion, "native-local", some ⟨v⟩,
        some w.id, some t.schemaVersion⟩⟩ ⟨⟨v⟩, "Local", 1, ws, w.id⟩ f := by
  obtain ⟨hnew, hlen, hlens, -, -⟩ := SessionCatalog.importWindows_spec hws
  have hnew := hnew hrng
  have himports := SessionCatalog.importWindows_imports hws
  refine ⟨SessionCatalog.validate_iff.mpr ?_, rfl, hf, ?_, ?_, ?_, ?_⟩
  · refine (SessionCatalog.valid_new.add (fun h => by cases h) (by decide) rfl
      (Session.valid_new rfl (List.mem_of_getElem? hw) ?_ hnew.ids hnew.valid) ?_ ?_).mpr
      fun _ _ h => by cases h
    · rw [hlen, List.length_map]
      exact ha.tabs
    · rw [Session.paneIds_eq]
      exact hnew.panes
    · rw [Session.paneIds_eq, List.length_flatMap]
      simp only [SortedMap.length_keys]
      rw [hlens, sum_renamedTab]
      exact (Nat.zero_add _).trans_le ha.total
  · exact (List.forall₂_map_left_iff.mp himports).imp fun _ _ => renders_of_imports
  · obtain ⟨i, tab, htab, hactive, hi⟩ := h.active hne
    exact ⟨i, tab, w, htab, hactive, hi ▸ hw, rfl⟩
  · intro w hw pane hpane
    obtain ⟨e, he, rfl⟩ := List.mem_map.mp hpane
    exact (hnew.isNew w hw e he).2
  · rw [h.version]

theorem Accepted.plan (h : Accepted t) (hne : t.tabs ≠ []) (hrng : rng.Nodup)
    (hlen : t.paneIds.length + 1 + t.tabs.length ≤ rng.length) :
    (Admissible t → ∃ plan s f, planTerminal t rng = some (.ok plan) ∧ Migrated t plan s f) ∧
      (¬Admissible t → ∃ e, planTerminal t rng = some (.error (.catalog e))) := by
  have hle : t.paneIds.length ≤ rng.length := by omega
  have hmigrate := h.migrateTabs_eq hle
  have hf := paneIdOf_injOn h.panes hle hrng
  generalize paneIdOf t.paneIds rng = f at hmigrate hf
  have hdrop : (rng.drop t.paneIds.length).Nodup := hrng.sublist (List.drop_sublist _ _)
  have hleft : t.tabs.length + 1 ≤ (rng.drop t.paneIds.length).length := by
    rw [List.length_drop]
    omega
  generalize rng.drop t.paneIds.length = rest at hmigrate hdrop hleft
  rw [planTerminal, hmigrate]
  dsimp only
  refine ⟨fun ha => ?_, fun hna => ?_⟩
  · obtain ⟨v, rest, rfl⟩ := List.exists_cons_of_length_pos ((Nat.succ_pos _).trans_le hleft)
    have hpanes : ((t.tabs.map (renamedTab f)).flatMap (·.panes.map (·.1))).Nodup := by
      rw [map_renamedTab]
      exact List.Nodup.map_on hf h.panes
    have hroom : (t.tabs.map (renamedTab f)).length ≤ rest.length := by
      rw [List.length_map]
      exact Nat.le_of_succ_le_succ hleft
    have hnone : ∀ p ∈ (t.tabs.map (renamedTab f)).flatMap (·.panes.map (·.1)), p ∉ [] :=
      fun _ _ => List.not_mem_nil
    obtain ⟨ws, hws⟩ := SessionCatalog.importWindows_ok (h.importable ha hf) hpanes hnone hroom
    have hlength : ws.length = t.tabs.length :=
      (SessionCatalog.importWindows_spec hws).2.1.trans (List.length_map _)
    obtain ⟨i, tab, htab, -, hi⟩ := h.active hne
    have hlt : activeWindowIndex t < ws.length := by
      rw [hi, hlength]
      exact (List.getElem?_eq_some_iff.mp htab).1
    have hexec := SessionCatalog.importStoppedSession_ok (v := v)
      (by rw [List.length_map]; exact ha.tabs) (by rw [sum_renamedTab]; exact ha.total) hws
      (List.getElem?_eq_getElem hlt) (validatedName_eq.mpr ⟨by decide, by decide, rfl⟩ :
        validatedName "Local" = .ok (trim "Local"))
    obtain ⟨w, hw, hid⟩ := SessionCatalog.active_imported (trim "Local") (v := v)
      (List.getElem_mem hlt)
    rw [hexec]
    dsimp only
    rw [hw]
    exact ⟨_, _, f, rfl, hid ▸ migrated_imported h ha hne hf (List.nodup_cons.mp hdrop).2 hws
      (List.getElem?_eq_getElem hlt)⟩
  · have hspec : wp (SessionCatalog.importStoppedSession 0 "Local" (t.tabs.map (renamedTab f))
      (activeWindowIndex t) rest) _ _ False .new := SessionCatalog.importStoppedSession_empty
    obtain ⟨r, c, hexec⟩ := hspec.ends
    rw [hexec]
    cases r with
    | error e => exact ⟨e, rfl⟩
    | ok session =>
      obtain ⟨hcount, htotal, rng', ws, w, name', rfl, hws, hw, -, -⟩ := hspec.of_ok hexec
      rw [List.length_map] at hcount
      rw [sum_renamedTab] at htotal
      exact absurd (admissible_of_imports hcount htotal
        (SessionCatalog.importWindows_imports hws)
        ((SessionCatalog.importWindows_spec hws).1 (List.nodup_cons.mp hdrop).2).valid) hna

end TerminalSessionSnapshot

open TerminalSessionSnapshot

variable {state : WorkspaceState} {existing : Option SessionCatalog} {rng : RandomSource}
  {t : TerminalSessionSnapshot}

theorem planSessionMigration_eq
    (hsession : state.contributions.get? sessionContributionId = none)
    (hexisting : ∀ c ∈ existing, c.sessions.isEmpty)
    (hterminal : terminalContribution state = .ok (some t)) (htabs : t.tabs ≠ []) :
    planSessionMigration state existing rng = (planTerminal t rng).map (·.map .planned) := by
  have hnone : sessionContribution state = .ok none := by rw [sessionContribution, hsession]
  have hempty : ¬((none : Option SessionContribution).isSome ∨
      existing.any (!·.sessions.isEmpty)) := by
    rintro (h | h)
    · cases h
    · obtain ⟨c, hc, h⟩ := (Option.any_eq_true _ _).mp h
      rw [hexisting c hc] at h
      cases h
  rw [planSessionMigration, hnone]
  dsimp only
  rw [if_neg hempty, hterminal]
  dsimp only
  rw [if_neg (mt List.isEmpty_iff.mp htabs)]

/-- With enough fresh identifiers, a terminal's contribution is migrated exactly if it respects the
limits of the catalog; otherwise the import is refused. -/
theorem migration_law (hsession : state.contributions.get? sessionContributionId = none)
    (hexisting : ∀ c ∈ existing, c.sessions.isEmpty)
    (hterminal : terminalContribution state = .ok (some t)) (htabs : t.tabs ≠ [])
    (hrng : rng.Nodup) (hlen : t.paneIds.length + 1 + t.tabs.length ≤ rng.length) :
    (t.Admissible → ∃ plan s f, planSessionMigration state existing rng =
        some (.ok (.planned plan)) ∧ Migrated t plan s f) ∧
      (¬t.Admissible →
        ∃ e, planSessionMigration state existing rng = some (.error (.catalog e))) := by
  obtain ⟨w, hw⟩ := restored hterminal
  obtain ⟨hok, herror⟩ := (accepted hw).plan htabs hrng hlen
  rw [planSessionMigration_eq hsession hexisting hterminal htabs]
  refine ⟨fun ha => ?_, fun hna => ?_⟩
  · obtain ⟨plan, s, f, hp, hm⟩ := hok ha
    rw [hp]
    exact ⟨plan, s, f, rfl, hm⟩
  · obtain ⟨e, he⟩ := herror hna
    rw [he]
    exact ⟨e, rfl⟩

/-- A terminal with one tab of one pane. -/
def oneTab (name : String) : TerminalSessionSnapshot where
  schemaVersion := terminalSchemaVersion
  tabs := [⟨⟨1⟩, name, .pane ⟨1⟩, ⟨1⟩, [⟨⟨1⟩, ⟨[47]⟩⟩]⟩]
  activeTab := some ⟨1⟩
  extensions := .empty

def oneTabState (name : String) : WorkspaceState where
  root := ⟨⟨"root"⟩, ⟨[47]⟩, "root", ⟨"root"⟩, 0, 0⟩
  explorer := ⟨true, false, false⟩
  staleFilesystem := false
  contributions := .insert .empty terminalContributionId ((oneTab name).toJson.getD .null)

theorem migration_law_shell : ∃ plan s f,
    planSessionMigration (oneTabState "shell") none [7, 8, 9] = some (.ok (.planned plan)) ∧
      Migrated (oneTab "shell") plan s f :=
  (migration_law rfl (fun _ h => by cases h) rfl (List.cons_ne_nil _ _) (by decide)
    (by decide)).1 ⟨by decide, by decide, by decide, by decide, by decide⟩

def longName : String :=
  "aaaaaaaaaaaaaaaaaaaaaaaaaaaaaaaaaaaaaaaaaaaaaaaaaaaaaaaaaaaaaaaaaaaaaaaaaaaaaaaaa"

/-- A name of 81 letters is a terminal's, and not a catalog's. -/
theorem long_name_not_migrated :
    ¬∀ (state : WorkspaceState) (existing : Option SessionCatalog) (rng : RandomSource)
        (t : TerminalSessionSnapshot),
      state.contributions.get? sessionContributionId = none →
        (∀ c ∈ existing, c.sessions.isEmpty) → terminalContribution state = .ok (some t) →
          t.tabs ≠ [] → rng.Nodup → t.paneIds.length + 1 + t.tabs.length ≤ rng.length →
            ∃ plan, planSessionMigration state existing rng = some (.ok (.planned plan)) := by
  intro h
  have hterminal : terminalContribution (oneTabState longName) = .ok (some (oneTab longName)) := rfl
  have htabs : (oneTab longName).tabs ≠ [] := List.cons_ne_nil _ _
  obtain ⟨w, hw⟩ := restored hterminal
  have hlong : ¬(oneTab longName).Admissible := fun ha =>
    absurd (ha.names _ List.mem_cons_self) (by decide)
  obtain ⟨e, he⟩ : ∃ e, planTerminal (oneTab longName) [7, 8, 9] = some (.error (.catalog e)) :=
    ((accepted hw).plan htabs (by decide) (by decide)).2 hlong
  obtain ⟨plan, hp⟩ := h (oneTabState longName) none [7, 8, 9] (oneTab longName) rfl
    (fun _ h => by cases h) hterminal htabs (by decide) (by decide)
  rw [planSessionMigration_eq rfl (fun _ h => by cases h) hterminal htabs, he] at hp
  cases hp

end Strukt
