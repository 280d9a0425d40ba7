import Strukt.Lib.Runs
import Strukt.Lib.SortedMap
import Strukt.Shell.State

/-!
# Contributions to the shell

A feature registers one contribution: an activity with its canvas and sidebar, further surfaces, and
commands. When it is removed, the shell's references to its surfaces go, and where its activity was
the active one another is selected.

* **What goes by design**: the references to removed surfaces, and, with the active activity, those
  of the sidebar and the canvas.
* **What is left behind**: the canvas to go back to keeps removed surfaces for as long as the
  promoted surface stays (`forgotten_canvas`), and the built-in canvas of the active activity takes
  the place of a removed one whether or not it is provided.
* **What goes too far**: two contributions may provide one surface, since `register` compares the
  surface lists only; the removal of one takes the reference to the other's surface.
* `references_law` says exactly when none of this happens.
-/

namespace Strukt.Shell

structure CommandId where
  value : String
  deriving DecidableEq

def CommandId.isValid (id : CommandId) : Bool := portable id.value

structure ShellContribution where
  id : String
  activity : Option ActivityContribution
  /-- The ids of the surfaces. -/
  surfaces : List SurfaceId
  /-- The ids of the commands. -/
  commands : List CommandId
  deriving DecidableEq

inductive ContributionError where
  | invalidContribution (id : String)
  | duplicateContribution (id : String)
  | duplicateActivity (activity : Activity)
  | duplicateSurface (surface : SurfaceId)
  | duplicateCommand (command : CommandId)
  | unknownContribution (id : String)
  deriving DecidableEq

namespace ActivityContribution

/-- The surfaces that come with an activity. -/
def provided (activity : ActivityContribution) : List SurfaceId :=
  activity.canvas :: activity.sidebar.toList

/-- The key of `fallback_activity`: the files first, then by order. -/
def fallbackKey (activity : ActivityContribution) : Bool ×ₗ Nat :=
  toLex (decide (activity.activity ≠ .files), activity.order.toNat)

end ActivityContribution

/-- All surfaces of a contribution: `removed_surfaces`. -/
def ShellContribution.provided (contribution : ShellContribution) : List SurfaceId :=
  contribution.surfaces ++ contribution.activity.toList.flatMap (·.provided)

/-- The first incoming id that is invalid, or already there, or comes twice. -/
def findDuplicate {α : Type} [DecidableEq α] (valid : α → Bool) (existing : List α) :
    List α → List α → Option α
  | _, [] => none
  | incoming, x :: xs =>
    if !valid x || x ∈ existing || x ∈ incoming then some x
    else findDuplicate valid existing (x :: incoming) xs

/-- An activity with its built-in surfaces, as a feature contributes it. -/
def builtIn (activity : Activity) (id : String) : ShellContribution where
  id := id
  activity := some ⟨activity, some activity.sidebarSurface, activity.canvasSurface, 0⟩
  surfaces := [activity.canvasSurface]
  commands := []

structure ContributionRegistry where
  contributions : SortedMap String ShellContribution
  deriving DecidableEq

namespace ContributionRegistry

def new : ContributionRegistry := ⟨.empty⟩

def surfaceIds (r : ContributionRegistry) : List SurfaceId :=
  r.contributions.values.flatMap (·.surfaces)

def commandIds (r : ContributionRegistry) : List CommandId :=
  r.contributions.values.flatMap (·.commands)

def activities (r : ContributionRegistry) : List ActivityContribution :=
  r.contributions.values.filterMap (·.activity)

def register (r : ContributionRegistry) (contribution : ShellContribution) :
    Except ContributionError ContributionRegistry :=
  if contribution.id = "" ∨ contribution.id.utf8ByteSize > 128 then
    .error (.invalidContribution contribution.id)
  else if r.contributions.containsKey contribution.id then
    .error (.duplicateContribution contribution.id)
  else
    match contribution.activity.filter fun activity =>
      r.activities.any (·.activity = activity.activity) with
    | some activity => .error (.duplicateActivity activity.activity)
    | none =>
      match findDuplicate (fun _ => true) r.surfaceIds [] contribution.surfaces with
      | some surface => .error (.duplicateSurface surface)
      | none =>
        match findDuplicate CommandId.isValid r.commandIds [] contribution.commands with
        | some command => .error (.duplicateCommand command)
        | none => .ok ⟨r.contributions.insert contribution.id contribution⟩

/-- The first of the activities in the order of their keys. -/
def fallbackActivity (r : ContributionRegistry) : Option ActivityContribution :=
  r.activities.argmin (·.fallbackKey)

/-- The activity to select once `removed` has gone from the registry. -/
def fallback (r : ContributionRegistry) (removed : ShellContribution) (state : ShellState) :
    Option ActivityContribution :=
  if removed.activity.any (·.activity = state.activeActivity) then r.fallbackActivity else none

def without (r : ContributionRegistry) (id : String) : ContributionRegistry :=
  ⟨r.contributions.remove id⟩

def unregister (r : ContributionRegistry) (id : String) (state : ShellState) :
    Except ContributionError (ShellContribution × ContributionRegistry × ShellState) :=
  match r.contributions.get? id with
  | none => .error (.unknownContribution id)
  | some removed =>
    let state' := state.removeSurfaces removed.provided
    .ok
      (removed, r.without id,
        match (r.without id).fallback removed state with
        | some activity => state'.selectContribution activity
        | none => state')

/-! ## The surfaces that are provided -/

def provided (r : ContributionRegistry) : List SurfaceId :=
  r.contributions.values.flatMap (·.provided)

theorem provided_of_activity {r : ContributionRegistry} {activity : ActivityContribution}
    {x : SurfaceId} (h : activity ∈ r.activities) (hx : x ∈ activity.provided) :
    x ∈ r.provided := by
  obtain ⟨contribution, hc, ha⟩ := List.mem_filterMap.mp h
  refine List.mem_flatMap.mpr ⟨contribution, hc, List.mem_append_right _ ?_⟩
  exact List.mem_flatMap.mpr ⟨activity, by simp [ha], hx⟩

theorem mem_activities_of_fallback {r : ContributionRegistry} {removed : ShellContribution}
    {state : ShellState} {activity : ActivityContribution}
    (h : r.fallback removed state = some activity) : activity ∈ r.activities := by
  unfold fallback at h
  split at h
  · exact List.argmin_mem (f := ActivityContribution.fallbackKey) h
  · cases h

end ContributionRegistry

/-! ## What a removal leaves -/

namespace ShellState

/-- The references to surfaces that are still provided are where they were. -/
def Kept (provided : List SurfaceId) (s s' : ShellState) : Prop :=
  ∀ place, ∀ x ∈ s.refs place, x ∈ provided → x ∈ s'.refs place

/-- No surface that is gone is referred to after the removal: beside the removed surfaces the
panels hold none, and, where no other activity is selected, neither does the canvas, be it the
present one or the built-in one in its place, nor the canvas to go back to if it is kept. -/
def LeavesFree (gone : SurfaceId → Prop) (removed : List SurfaceId)
    (fallback : Option ActivityContribution) (s : ShellState) : Prop :=
  (∀ x ∈ s.refs .context, gone x → x ∈ removed) ∧
    (∀ x ∈ s.refs .drawer, gone x → x ∈ removed) ∧
      (fallback = none →
        (∀ x ∈ s.refs .sidebar, gone x → x ∈ removed) ∧
          (s.canvasContainsAny removed = true → ¬gone s.activeActivity.canvasSurface) ∧
            (s.canvasContainsAny removed = false → ∀ x ∈ s.refs .canvas, ¬gone x) ∧
              (s.PromotionStays removed → ∀ x ∈ s.refs .remembered, ¬gone x))

/-- The removal takes no surface that another contribution provides: the panels show none that
comes from two; where no other activity is selected, a canvas with a removed surface shows no
provided one but the built-in one, and the canvas to go back to, if it goes, none; and where one is
selected, the sidebar and the canvas show no other provided surface than its. -/
def TakesNone (provided removed : List SurfaceId) (fallback : Option ActivityContribution)
    (s : ShellState) : Prop :=
  (∀ x ∈ s.refs .context, x ∈ provided → x ∉ removed) ∧
    (∀ x ∈ s.refs .drawer, x ∈ provided → x ∉ removed) ∧
      match fallback with
      | none =>
        (∀ x ∈ s.refs .sidebar, x ∈ provided → x ∉ removed) ∧
          (s.canvasContainsAny removed = true →
            ∀ x ∈ s.refs .canvas, x ∈ provided → x = s.activeActivity.canvasSurface) ∧
              (¬s.PromotionStays removed → ∀ x ∈ s.refs .remembered, x ∉ provided)
      | some activity =>
        (∀ x ∈ s.refs .sidebar, x ∈ provided → activity.sidebar = some x) ∧
          (∀ x ∈ s.refs .canvas, x ∈ provided → x = activity.canvas) ∧
            ∀ x ∈ s.refs .remembered, x ∉ provided

section Removal

variable {s : ShellState} {removed : List SurfaceId} {gone : SurfaceId → Prop}

/-- Of the surfaces that go with a contribution only the canvases can be left behind. -/
theorem leavesFree_iff_of_removed (hgone : ∀ x, gone x → x ∈ removed)
    {fallback : Option ActivityContribution} :
    LeavesFree gone removed fallback s ↔
      (fallback = none →
        (s.canvasContainsAny removed = true → ¬gone s.activeActivity.canvasSurface) ∧
          (s.PromotionStays removed → ∀ x ∈ s.refs .remembered, ¬gone x)) := by
  constructor
  · rintro ⟨-, -, h⟩ hf
    obtain ⟨-, hany, -, hremembered⟩ := h hf
    exact ⟨hany, hremembered⟩
  · intro h
    refine ⟨fun x _ hg => hgone x hg, fun x _ hg => hgone x hg, fun hf => ?_⟩
    obtain ⟨hany, hremembered⟩ := h hf
    refine ⟨fun x _ hg => hgone x hg, hany, fun hc x hx hg => ?_, hremembered⟩
    -- A canvas without removed surfaces shows none that is gone.
    have hcontains : s.canvasContainsAny removed = true :=
      List.any_eq_true.mpr ⟨x, hgone x hg, by simpa [refs] using hx⟩
    rw [hc] at hcontains
    cases hcontains

theorem free_removeSurfaces_iff :
    Free gone (s.removeSurfaces removed) ↔ LeavesFree gone removed none s := by
  constructor
  · intro h
    refine ⟨fun x hx hg => ?_, fun x hx hg => ?_, fun _ => ⟨fun x hx hg => ?_, fun hc hg => ?_,
      fun hc x hx => ?_, fun hp x hx => ?_⟩⟩
    · exact not_not.mp fun hn => h .context x (mem_context_removeSurfaces.mpr ⟨hx, hn⟩) hg
    · exact not_not.mp fun hn => h .drawer x (mem_drawer_removeSurfaces.mpr ⟨hx, hn⟩) hg
    · exact not_not.mp fun hn => h .sidebar x (mem_sidebar_removeSurfaces.mpr ⟨hx, hn⟩) hg
    · exact h .canvas _ ((mem_canvas_removeSurfaces_of_any hc).mpr rfl) hg
    · exact h .canvas x ((mem_canvas_removeSurfaces_of_not_any hc).mpr hx)
    · exact h .remembered x (mem_remembered_removeSurfaces.mpr ⟨hx, hp⟩)
  · rintro ⟨hcontext, hdrawer, hrest⟩ place x hx
    obtain ⟨hsidebar, hany, hnot, hremembered⟩ := hrest rfl
    cases place with
    | sidebar =>
      obtain ⟨hx, hn⟩ := mem_sidebar_removeSurfaces.mp hx
      exact fun hg => hn (hsidebar x hx hg)
    | context =>
      obtain ⟨hx, hn⟩ := mem_context_removeSurfaces.mp hx
      exact fun hg => hn (hcontext x hx hg)
    | drawer =>
      obtain ⟨hx, hn⟩ := mem_drawer_removeSurfaces.mp hx
      exact fun hg => hn (hdrawer x hx hg)
    | canvas =>
      cases hc : s.canvasContainsAny removed with
      | true =>
        rw [(mem_canvas_removeSurfaces_of_any hc).mp hx]
        exact hany hc
      | false => exact hnot hc x ((mem_canvas_removeSurfaces_of_not_any hc).mp hx)
    | remembered =>
      obtain ⟨hx, hp⟩ := mem_remembered_removeSurfaces.mp hx
      exact hremembered hp x hx

theorem free_selected_iff {activity : ActivityContribution}
    (ha : ∀ x ∈ activity.provided, ¬gone x) :
    Free gone ((s.removeSurfaces removed).selectContribution activity) ↔
      LeavesFree gone removed (some activity) s := by
  constructor
  · intro h
    refine ⟨fun x hx hg => ?_, fun x hx hg => ?_, by simp⟩
    · exact not_not.mp fun hn => h .context x (mem_context_removeSurfaces.mpr ⟨hx, hn⟩) hg
    · exact not_not.mp fun hn => h .drawer x (mem_drawer_removeSurfaces.mpr ⟨hx, hn⟩) hg
  · rintro ⟨hcontext, hdrawer, -⟩ place x hx
    cases place with
    | sidebar => exact ha x (List.mem_cons_of_mem _ hx)
    | context =>
      obtain ⟨hx, hn⟩ := mem_context_removeSurfaces.mp hx
      exact fun hg => hn (hcontext x hx hg)
    | drawer =>
      obtain ⟨hx, hn⟩ := mem_drawer_removeSurfaces.mp hx
      exact fun hg => hn (hdrawer x hx hg)
    | canvas =>
      obtain rfl := List.mem_singleton.mp hx
      exact ha _ List.mem_cons_self
    | remembered => simp [refs, selectContribution] at hx

theorem kept_removeSurfaces_iff {provided : List SurfaceId} :
    Kept provided s (s.removeSurfaces removed) ↔ TakesNone provided removed none s := by
  constructor
  · intro h
    refine ⟨fun x hx hp => ?_, fun x hx hp => ?_, fun x hx hp => ?_, fun hc x hx hp => ?_,
      fun hn x hx hp => ?_⟩
    · exact (mem_context_removeSurfaces.mp (h .context x hx hp)).2
    · exact (mem_drawer_removeSurfaces.mp (h .drawer x hx hp)).2
    · exact (mem_sidebar_removeSurfaces.mp (h .sidebar x hx hp)).2
    · exact (mem_canvas_removeSurfaces_of_any hc).mp (h .canvas x hx hp)
    · exact hn (mem_remembered_removeSurfaces.mp (h .remembered x hx hp)).2
  · rintro ⟨hcontext, hdrawer, hsidebar, hany, hremembered⟩ place x hx hp
    cases place with
    | sidebar => exact mem_sidebar_removeSurfaces.mpr ⟨hx, hsidebar x hx hp⟩
    | context => exact mem_context_removeSurfaces.mpr ⟨hx, hcontext x hx hp⟩
    | drawer => exact mem_drawer_removeSurfaces.mpr ⟨hx, hdrawer x hx hp⟩
    | canvas =>
      cases hc : s.canvasContainsAny removed with
      | true => exact (mem_canvas_removeSurfaces_of_any hc).mpr (hany hc x hx hp)
      | false => exact (mem_canvas_removeSurfaces_of_not_any hc).mpr hx
    | remembered =>
      by_cases hs : s.PromotionStays removed
      · exact mem_remembered_removeSurfaces.mpr ⟨hx, hs⟩
      · exact absurd hp (hremembered hs x hx)

theorem kept_selected_iff {provided : List SurfaceId} {activity : ActivityContribution} :
    Kept provided s ((s.removeSurfaces removed).selectContribution activity) ↔
      TakesNone provided removed (some activity) s := by
  constructor
  · intro h
    refine ⟨fun x hx hp => ?_, fun x hx hp => ?_, fun x hx hp => ?_, fun x hx hp => ?_,
      fun x hx hp => ?_⟩
    · exact (mem_context_removeSurfaces.mp (h .context x hx hp)).2
    · exact (mem_drawer_removeSurfaces.mp (h .drawer x hx hp)).2
    · exact Option.mem_toList.mp (h .sidebar x hx hp)
    · exact List.mem_singleton.mp (h .canvas x hx hp)
    · have := h .remembered x hx hp
      simp [refs, selectContribution] at this
  · rintro ⟨hcontext, hdrawer, hsidebar, hcanvas, hremembered⟩ place x hx hp
    cases place with
    | sidebar => exact Option.mem_toList.mpr (hsidebar x hx hp)
    | context => exact mem_context_removeSurfaces.mpr ⟨hx, hcontext x hx hp⟩
    | drawer => exact mem_drawer_removeSurfaces.mpr ⟨hx, hdrawer x hx hp⟩
    | canvas => exact List.mem_singleton.mpr (hcanvas x hx hp)
    | remembered => exact absurd hp (hremembered x hx)

end Removal

/-- The shell actions as a step function: none of them stops. -/
def next (s : ShellState) (action : ShellAction) : Option ShellState := some (s.apply action)

/-- A shell that is free of what is gone stays so exactly under harmless actions. -/
theorem runsIn_free_iff {gone : SurfaceId → Prop} {s : ShellState} (h : Free gone s)
    (actions : List ShellAction) :
    RunsIn next (Free gone) actions s ↔ Along next (Harmless gone) actions s := by
  refine runsIn_iff (fun s action hs => ?_) h
  rw [← free_apply_iff hs action]
  exact ⟨fun ⟨s', hs', hfree⟩ => Option.some.inj hs' ▸ hfree, fun hfree => ⟨_, rfl, hfree⟩⟩

end ShellState

namespace ContributionRegistry

open ShellState

variable {r : ContributionRegistry} {id : String} {state state' : ShellState}
  {removed : ShellContribution} {gone : SurfaceId → Prop}

/-- The removal of a registered contribution, by whether another activity is selected. -/
theorem unregister_spec (hid : r.contributions.get? id = some removed)
    (hu : r.unregister id state = .ok (removed, r.without id, state')) :
    ((r.without id).fallback removed state = none ∧
        state' = state.removeSurfaces removed.provided) ∨
      ∃ activity, (r.without id).fallback removed state = some activity ∧
        state' = (state.removeSurfaces removed.provided).selectContribution activity := by
  unfold unregister at hu
  rw [hid] at hu
  cases hf : (r.without id).fallback removed state with
  | none =>
    simp only [hf, Except.ok.injEq, Prod.mk.injEq, true_and] at hu
    exact .inl ⟨rfl, hu.symm⟩
  | some activity =>
    simp only [hf, Except.ok.injEq, Prod.mk.injEq, true_and] at hu
    exact .inr ⟨activity, rfl, hu.symm⟩

theorem free_unregister_iff (hid : r.contributions.get? id = some removed)
    (hu : r.unregister id state = .ok (removed, r.without id, state'))
    (hgone : ∀ x, gone x → x ∉ (r.without id).provided) :
    Free gone state' ↔
      LeavesFree gone removed.provided ((r.without id).fallback removed state) state := by
  obtain ⟨hf, rfl⟩ | ⟨activity, hf, rfl⟩ := unregister_spec hid hu
  · rw [hf]
    exact free_removeSurfaces_iff
  · rw [hf]
    exact free_selected_iff fun x hx hg =>
      hgone x hg (provided_of_activity (mem_activities_of_fallback hf) hx)

theorem kept_unregister_iff (hid : r.contributions.get? id = some removed)
    (hu : r.unregister id state = .ok (removed, r.without id, state')) {provided : List SurfaceId} :
    Kept provided state state' ↔
      TakesNone provided removed.provided ((r.without id).fallback removed state) state := by
  obtain ⟨hf, rfl⟩ | ⟨activity, hf, rfl⟩ := unregister_spec hid hu
  · rw [hf]
    exact kept_removeSurfaces_iff
  · rw [hf]
    exact kept_selected_iff

/-- Let a contribution be removed and actions follow, and let `gone` be surfaces that no remaining
contribution provides: those that went with the removed one, or all of them. While an activity is
left, no place comes to refer to a surface that is gone, and no reference to a surface still
provided is taken, exactly where the removal leaves and takes none and the actions bring none. -/
theorem references_law (hid : r.contributions.get? id = some removed)
    (hu : r.unregister id state = .ok (removed, r.without id, state'))
    (hgone : ∀ x, gone x → x ∉ (r.without id).provided) (actions : List ShellAction) :
    (((r.without id).activities ≠ [] → RunsIn next (Free gone) actions state') ∧
        Kept (r.without id).provided state state') ↔
      (((r.without id).activities ≠ [] →
          LeavesFree gone removed.provided ((r.without id).fallback removed state) state ∧
            Along next (Harmless gone) actions state') ∧
        TakesNone (r.without id).provided removed.provided ((r.without id).fallback removed state)
          state) := by
  refine and_congr (imp_congr_right fun _ => ?_) (kept_unregister_iff hid hu)
  rw [← free_unregister_iff hid hu hgone]
  constructor
  · intro hrun
    exact ⟨hrun.start, (runsIn_free_iff hrun.start actions).mp hrun⟩
  · rintro ⟨hfree, halong⟩
    exact (runsIn_free_iff hfree actions).mpr halong

/-- The session deck is active; with its removal the files are selected. -/
theorem references_law_sessions :
    let r : ContributionRegistry :=
      ⟨(SortedMap.empty.insert "files" (builtIn .files "files")).insert "sessions"
        (builtIn .sessions "sessions")⟩
    let removed := (builtIn .sessions "sessions").provided
    let state' := (ShellState.new.removeSurfaces removed).selectContribution
      ⟨.files, some Activity.files.sidebarSurface, Activity.files.canvasSurface, 0⟩
    ((r.without "sessions").activities ≠ [] →
        RunsIn next (Free (· ∈ removed)) [.demotePromotedSurface, .selectActivity .search] state') ∧
      Kept (r.without "sessions").provided .new state' := by
  intro r removed state'
  have hf : (r.without "sessions").fallback (builtIn .sessions "sessions") .new =
      some ⟨.files, some Activity.files.sidebarSurface, Activity.files.canvasSurface, 0⟩ := by
    decide
  have hid : r.contributions.get? "sessions" = some (builtIn .sessions "sessions") := by
    decide
  have hgone : ∀ x, x ∈ removed → x ∉ (r.without "sessions").provided := by
    decide
  refine (references_law hid (by rfl) hgone _).mpr ⟨fun _ => ⟨?_, ?_⟩, ?_⟩
  · rw [hf]
    exact (leavesFree_iff_of_removed fun _ hx => hx).mpr (by simp)
  · decide
  · rw [hf]
    unfold TakesNone
    decide

end ContributionRegistry

/-! ## A canvas that is left behind -/

/-- The contributions and the shell's state. -/
structure Window where
  registry : ContributionRegistry
  state : ShellState
  deriving DecidableEq

inductive ShellOp where
  | register (contribution : ShellContribution)
  | unregister (id : String)
  | action (action : ShellAction)

/-- The surfaces that an action names. -/
def ShellAction.names : ShellAction → List SurfaceId
  | .openDrawer surface => [surface]
  | _ => []

namespace Window

def start : Window := ⟨.new, .new⟩

/-- A refused registration or removal leaves everything as it is. -/
def step (shell : Window) : ShellOp → Option Window
  | .register contribution =>
    match shell.registry.register contribution with
    | .ok registry => some { shell with registry }
    | .error _ => some shell
  | .unregister id =>
    match shell.registry.unregister id shell.state with
    | .ok (_, registry, state) => some ⟨registry, state⟩
    | .error _ => some shell
  | .action action => some { shell with state := shell.state.apply action }

/-- Files and sessions are registered, the editor is promoted over the session deck, and the files
are selected: the deck stays remembered. -/
def overDeck : List ShellOp :=
  [.register (builtIn .files "files"), .register (builtIn .sessions "sessions"),
    .action (.openDrawer editorSupporting), .action .promoteDrawerToFull,
    .action (.selectActivity .files)]

/-- The sessions are removed, and the canvas to go back to still names them. -/
theorem forgotten_canvas :
    ¬ ∀ (shell : Window) (id : String) (removed : ShellContribution) (state' : ShellState),
      Runs step (fun _ _ => True) start shell →
      shell.registry.unregister id shell.state = .ok (removed, shell.registry.without id, state') →
      (shell.registry.without id).activities ≠ [] →
      ∀ actions : List ShellAction, (∀ a ∈ actions, ∀ x ∈ a.names, x ∉ removed.provided) →
        RunsIn ShellState.next
          (ShellState.Free fun x =>
            x ∈ removed.provided ∧ x ∉ (shell.registry.without id).provided) actions state' := by
  intro h
  have hrun : (overDeck.foldlM step start).any fun shell =>
      match shell.registry.unregister "sessions" shell.state with
      | .ok (removed, registry, state') =>
        removed = builtIn .sessions "sessions" ∧ registry = shell.registry.without "sessions" ∧
          registry.activities ≠ [] ∧ registry.provided = (builtIn .files "files").provided ∧
            Activity.sessions.canvasSurface ∈ state'.refs .remembered
      | .error _ => false := by
    decide
  obtain ⟨shell, hr, hshell⟩ := (Option.any_eq_true _ _).mp hrun
  have hruns := (along_true overDeck start).runs hr
  cases hu : shell.registry.unregister "sessions" shell.state with
  | error e =>
    rw [hu] at hshell
    cases hshell
  | ok result =>
    obtain ⟨removed, registry, state'⟩ := result
    rw [hu] at hshell
    obtain ⟨rfl, rfl, hact, hprovided, hmem⟩ := of_decide_eq_true hshell
    have hfree := (h shell "sessions" _ state' hruns hu hact [] (by simp)).start
    refine hfree .remembered _ hmem ⟨?_, ?_⟩
    · decide
    · rw [hprovided]
      decide

end Window

end Strukt.Shell
