import Strukt.Prim

/-!
# The shell's state

`ShellState` is the composition of the window: the active activity, the sidebar, the context panel,
the drawer, the canvas, and the drawer surface that is promoted to the canvas with the canvas to go
back to.

* **References** (`refs`): the five places that name surfaces.
* **Actions** (`free_apply_iff`): a shell that names no surface of a set stays so exactly under the
  actions that bring none of it.
* **Removals** (`mem_canvas_removeSurfaces_of_any` and its like): what each place refers to after
  surfaces were taken away.
-/

namespace Strukt.Shell

/-- `byte.is_ascii_lowercase() || byte.is_ascii_digit() || b".-_".contains(&byte)`. -/
def isPortable (c : Char) : Bool := c.isLower || c.isDigit || c = '.' || c = '-' || c = '_'

def portable (value : String) : Bool :=
  value ≠ "" && value.utf8ByteSize ≤ 128 && value.toList.all isPortable

structure SurfaceId where
  value : String
  valid : portable value
  deriving DecidableEq

inductive Activity where
  | files
  | search
  | sourceControl
  | sessions
  | tasks
  | connections
  | extensions
  | settings
  deriving DecidableEq

namespace Activity

def canvasSurface : Activity → SurfaceId
  | .files => ⟨"files", by decide⟩
  | .search => ⟨"search", by decide⟩
  | .sourceControl => ⟨"source-control", by decide⟩
  | .sessions => ⟨"sessions", by decide⟩
  | .tasks => ⟨"tasks", by decide⟩
  | .connections => ⟨"connections", by decide⟩
  | .extensions => ⟨"extensions", by decide⟩
  | .settings => ⟨"settings", by decide⟩

def sidebarSurface : Activity → SurfaceId
  | .files => ⟨"files.sidebar", by decide⟩
  | .search => ⟨"search.sidebar", by decide⟩
  | .sourceControl => ⟨"source-control.sidebar", by decide⟩
  | .sessions => ⟨"sessions.sidebar", by decide⟩
  | .tasks => ⟨"tasks.sidebar", by decide⟩
  | .connections => ⟨"connections.sidebar", by decide⟩
  | .extensions => ⟨"extensions.sidebar", by decide⟩
  | .settings => ⟨"settings.sidebar", by decide⟩

end Activity

structure ActivityContribution where
  activity : Activity
  sidebar : Option SurfaceId
  canvas : SurfaceId
  order : UInt16
  deriving DecidableEq

/-- The ratio of a split: `none` for an action's ratio that is not finite. -/
def clampSplitRatio : Option Rat → Rat
  | some ratio => max (1 / 5) (min ratio (4 / 5))
  | none => 1 / 2

inductive CanvasLayout where
  | single (primary : SurfaceId)
  | split (primary secondary : SurfaceId) (ratio : Rat)
  deriving DecidableEq

namespace CanvasLayout

def primary : CanvasLayout → SurfaceId
  | .single primary | .split primary .. => primary

def surfaces : CanvasLayout → List SurfaceId
  | .single primary => [primary]
  | .split primary secondary _ => [primary, secondary]

theorem primary_mem (canvas : CanvasLayout) : canvas.primary ∈ canvas.surfaces := by
  cases canvas with
  | single primary => exact List.mem_singleton_self primary
  | split primary secondary ratio => exact List.mem_cons_self

end CanvasLayout

structure PanelState where
  visible : Bool
  surface : Option SurfaceId
  width : UInt16
  deriving DecidableEq

structure DrawerState where
  surface : Option SurfaceId
  visible : Bool
  height : UInt16
  deriving DecidableEq

inductive FocusRegion where
  | activityRail
  | sidebar
  | canvas
  | contextPanel
  | drawer
  | commandCenter
  deriving DecidableEq

inductive ThemeMode where
  | light
  | dark
  deriving DecidableEq

structure PromotionState where
  priorCanvas : CanvasLayout
  surface : SurfaceId
  deriving DecidableEq

inductive ShellAction where
  | selectActivity (activity : Activity)
  | toggleContext
  | toggleDrawer
  | toggleExplorer
  | toggleTheme
  | setThemeMode (mode : ThemeMode)
  | setReducedMotion (reducedMotion : Bool)
  | openDrawer (surface : SurfaceId)
  | promoteDrawerToSplit (ratio : Option Rat)
  | promoteDrawerToFull
  | demotePromotedSurface
  | focus (region : FocusRegion)
  deriving DecidableEq

structure ShellState where
  activeActivity : Activity
  explorerVisible : Bool
  contextVisible : Bool
  drawerVisible : Bool
  themeMode : ThemeMode
  sidebar : PanelState
  context : PanelState
  canvas : CanvasLayout
  drawer : DrawerState
  focusRegion : FocusRegion
  reducedMotion : Bool
  promotion : Option PromotionState
  deriving DecidableEq

def editorSupporting : SurfaceId := ⟨"editor.supporting", by decide⟩

namespace ShellState

/-- `ShellState::default`. -/
def new : ShellState where
  activeActivity := .sessions
  explorerVisible := true
  contextVisible := false
  drawerVisible := false
  themeMode := .dark
  sidebar := ⟨true, some Activity.sessions.sidebarSurface, 218⟩
  context := ⟨false, none, 235⟩
  canvas := .single Activity.sessions.canvasSurface
  drawer := ⟨some editorSupporting, false, 205⟩
  focusRegion := .canvas
  reducedMotion := false
  promotion := none

/-- The focus leaves a region that is hidden. -/
def unfocus (focus region : FocusRegion) (visible : Bool) : FocusRegion :=
  if visible = false ∧ focus = region then .canvas else focus

/-- The canvas or the canvas to go back to shows the session deck. -/
def sessionDeckActive (s : ShellState) : Bool :=
  s.canvas.primary = Activity.sessions.canvasSurface ||
    s.promotion.any fun promotion =>
      promotion.priorCanvas.primary = Activity.sessions.canvasSurface

def selectActivity (s : ShellState) (activity : Activity) : ShellState :=
  let selected :=
    { s with
      activeActivity := activity
      sidebar := { s.sidebar with surface := some activity.sidebarSurface, visible := true }
      explorerVisible := true
      focusRegion := .canvas }
  if activity = .files ∧ s.sessionDeckActive then selected
  else { selected with canvas := .single activity.canvasSurface, promotion := none }

/-- `promote_drawer`: to the full canvas, or beside its primary surface with a ratio. -/
def promoteDrawer (s : ShellState) (splitRatio : Option (Option Rat)) : ShellState :=
  match s.drawer.surface, s.promotion with
  | some surface, none =>
    { s with
      canvas :=
        match splitRatio with
        | none => .single surface
        | some ratio => .split s.canvas.primary surface (clampSplitRatio ratio)
      promotion := some ⟨s.canvas, surface⟩
      drawer := { s.drawer with visible := false }
      drawerVisible := false
      focusRegion := .canvas }
  | _, _ => s

def demotePromotedSurface (s : ShellState) : ShellState :=
  match s.promotion with
  | none => s
  | some promotion =>
    { s with
      promotion := none
      canvas := promotion.priorCanvas
      drawer := { s.drawer with surface := some promotion.surface, visible := true }
      drawerVisible := true
      focusRegion := .drawer }

def apply (s : ShellState) : ShellAction → ShellState
  | .selectActivity activity => s.selectActivity activity
  | .toggleContext =>
    let visible := !s.context.visible
    { s with
      context := { s.context with visible }
      contextVisible := visible
      focusRegion := unfocus s.focusRegion .contextPanel visible }
  | .toggleDrawer =>
    let visible := !s.drawer.visible
    { s with
      drawer := { s.drawer with visible }
      drawerVisible := visible
      focusRegion := unfocus s.focusRegion .drawer visible }
  | .toggleExplorer =>
    let visible := !s.explorerVisible
    { s with
      explorerVisible := visible
      sidebar := { s.sidebar with visible }
      focusRegion := unfocus s.focusRegion .sidebar visible }
  | .toggleTheme =>
    { s with
      themeMode :=
        match s.themeMode with
        | .light => .dark
        | .dark => .light }
  | .setThemeMode mode => { s with themeMode := mode }
  | .setReducedMotion reducedMotion => { s with reducedMotion }
  | .openDrawer surface =>
    { s with
      drawer := { s.drawer with surface := some surface, visible := true }
      drawerVisible := true }
  | .promoteDrawerToSplit ratio => s.promoteDrawer (some ratio)
  | .promoteDrawerToFull => s.promoteDrawer none
  | .demotePromotedSurface => s.demotePromotedSurface
  | .focus region => { s with focusRegion := region }

def selectContribution (s : ShellState) (contribution : ActivityContribution) : ShellState :=
  { s with
    activeActivity := contribution.activity
    sidebar :=
      { s.sidebar with
        surface := contribution.sidebar, visible := contribution.sidebar.isSome }
    explorerVisible := contribution.sidebar.isSome
    canvas := .single contribution.canvas
    promotion := none
    focusRegion := .canvas }

/-- A panel's surface is taken away if it is among the removed ones. -/
def isRemoved (surface : Option SurfaceId) (removed : List SurfaceId) : Bool :=
  surface.any (· ∈ removed)

def canvasContainsAny (s : ShellState) (surfaces : List SurfaceId) : Bool :=
  surfaces.any (· ∈ s.canvas.surfaces)

def removeSurfaces (s : ShellState) (removed : List SurfaceId) : ShellState :=
  let noSidebar := isRemoved s.sidebar.surface removed
  let noContext := isRemoved s.context.surface removed
  let noDrawer := isRemoved s.drawer.surface removed
  { s with
    sidebar := if noSidebar then { s.sidebar with surface := none, visible := false } else s.sidebar
    explorerVisible := if noSidebar then false else s.explorerVisible
    context := if noContext then { s.context with surface := none, visible := false } else s.context
    contextVisible := if noContext then false else s.contextVisible
    drawer := if noDrawer then { s.drawer with surface := none, visible := false } else s.drawer
    drawerVisible := if noDrawer then false else s.drawerVisible
    canvas :=
      if s.canvasContainsAny removed then .single s.activeActivity.canvasSurface else s.canvas
    promotion := if isRemoved (s.promotion.map (·.surface)) removed then none else s.promotion
    focusRegion :=
      match s.focusRegion with
      | .sidebar | .contextPanel | .drawer => .canvas
      | region => region }

/-! ## References -/

/-- The places of the shell that refer to surfaces; `remembered` is the canvas to go back to when
the promoted surface is demoted. -/
inductive Place where
  | sidebar
  | context
  | drawer
  | canvas
  | remembered
  deriving DecidableEq

def refs (s : ShellState) : Place → List SurfaceId
  | .sidebar => s.sidebar.surface.toList
  | .context => s.context.surface.toList
  | .drawer => s.drawer.surface.toList
  | .canvas => s.canvas.surfaces
  | .remembered => s.promotion.toList.flatMap (·.priorCanvas.surfaces)

/-- No place refers to a surface that is gone. -/
def Free (gone : SurfaceId → Prop) (s : ShellState) : Prop :=
  ∀ place, ∀ x ∈ s.refs place, ¬gone x

/-- The action brings no surface that is gone back to a place. -/
def Harmless (gone : SurfaceId → Prop) (s : ShellState) : ShellAction → Prop
  | .selectActivity activity =>
    ¬gone activity.sidebarSurface ∧
      (¬(activity = .files ∧ s.sessionDeckActive) → ¬gone activity.canvasSurface)
  | .openDrawer surface => ¬gone surface
  | .demotePromotedSurface => ∀ promotion ∈ s.promotion, ¬gone promotion.surface
  | _ => True

instance Harmless.decidable (gone : SurfaceId → Prop) [DecidablePred gone] (s : ShellState) :
    ∀ a, Decidable (Harmless gone s a)
  | .selectActivity activity =>
    inferInstanceAs (Decidable (¬gone activity.sidebarSurface ∧
      (¬(activity = .files ∧ s.sessionDeckActive) → ¬gone activity.canvasSurface)))
  | .openDrawer surface => inferInstanceAs (Decidable (¬gone surface))
  | .demotePromotedSurface =>
    inferInstanceAs (Decidable (∀ promotion ∈ s.promotion, ¬gone promotion.surface))
  | .toggleContext | .toggleDrawer | .toggleExplorer | .toggleTheme | .setThemeMode _
  | .setReducedMotion _ | .promoteDrawerToSplit _ | .promoteDrawerToFull | .focus _ =>
    isTrue trivial

section Free

variable {gone : SurfaceId → Prop} {s s' : ShellState}

theorem free_congr (h : ∀ place, s'.refs place = s.refs place) :
    Free gone s' ↔ Free gone s := by
  unfold Free
  simp only [h]

theorem free_selectActivity_iff (h : Free gone s) (activity : Activity) :
    Free gone (s.selectActivity activity) ↔ Harmless gone s (.selectActivity activity) := by
  unfold selectActivity Harmless
  by_cases hdeck : activity = .files ∧ s.sessionDeckActive = true
  · rw [if_pos hdeck]
    constructor
    · intro hfree
      exact ⟨hfree .sidebar _ (by simp [refs]), fun hn => absurd hdeck hn⟩
    · rintro ⟨hside, -⟩ place x hx
      cases place with
      | sidebar => simp only [refs, Option.toList_some, List.mem_singleton] at hx; rwa [hx]
      | context => exact h .context x hx
      | drawer => exact h .drawer x hx
      | canvas => exact h .canvas x hx
      | remembered => exact h .remembered x hx
  · rw [if_neg hdeck]
    constructor
    · intro hfree
      exact ⟨hfree .sidebar _ (by simp [refs]),
        fun _ => hfree .canvas _ (by simp [refs, CanvasLayout.surfaces])⟩
    · rintro ⟨hside, hcanvas⟩ place x hx
      cases place with
      | sidebar => simp only [refs, Option.toList_some, List.mem_singleton] at hx; rwa [hx]
      | context => exact h .context x hx
      | drawer => exact h .drawer x hx
      | canvas =>
        simp only [refs, CanvasLayout.surfaces, List.mem_singleton] at hx
        rw [hx]
        exact hcanvas hdeck
      | remembered => simp [refs] at hx

/-- The drawer's surface and the canvas were free, so the canvas with the drawer's surface on it
and the canvas to go back to are. -/
theorem free_promoteDrawer (h : Free gone s) (splitRatio : Option (Option Rat)) :
    Free gone (s.promoteDrawer splitRatio) := by
  unfold promoteDrawer
  split
  · next surface hsurface hnone =>
    have hsurf : ¬gone surface := h .drawer surface (by simp [refs, hsurface])
    intro place x hx
    cases place with
    | sidebar => exact h .sidebar x hx
    | context => exact h .context x hx
    | drawer => exact h .drawer x hx
    | remembered =>
      simp only [refs, Option.toList_some, List.flatMap_singleton] at hx
      exact h .canvas x hx
    | canvas =>
      cases splitRatio with
      | none =>
        simp only [refs, CanvasLayout.surfaces, List.mem_singleton] at hx
        rwa [hx]
      | some ratio =>
        simp only [refs, CanvasLayout.surfaces, List.mem_cons, List.not_mem_nil, or_false] at hx
        obtain rfl | rfl := hx
        · exact h .canvas _ s.canvas.primary_mem
        · exact hsurf
  · exact h

theorem free_demote_iff (h : Free gone s) :
    Free gone s.demotePromotedSurface ↔ Harmless gone s .demotePromotedSurface := by
  unfold demotePromotedSurface Harmless
  cases hp : s.promotion with
  | none => exact iff_of_true h (by simp)
  | some promotion =>
    constructor
    · intro hfree promotion' hp'
      obtain rfl := Option.some.inj hp'
      exact hfree .drawer _ (by simp [refs])
    · intro hgone place x hx
      cases place with
      | sidebar => exact h .sidebar x hx
      | context => exact h .context x hx
      | drawer =>
        simp only [refs, Option.toList_some, List.mem_singleton] at hx
        rw [hx]
        exact hgone promotion rfl
      | canvas => exact h .remembered x (by simpa [refs, hp] using hx)
      | remembered => simp [refs] at hx

theorem free_openDrawer_iff (h : Free gone s) (surface : SurfaceId) :
    Free gone (s.apply (.openDrawer surface)) ↔ Harmless gone s (.openDrawer surface) := by
  constructor
  · intro hfree
    exact hfree .drawer surface (by simp [apply, refs])
  · intro hgone place x hx
    cases place with
    | sidebar => exact h .sidebar x hx
    | context => exact h .context x hx
    | drawer =>
      simp only [apply, refs, Option.toList_some, List.mem_singleton] at hx
      rwa [hx]
    | canvas => exact h .canvas x hx
    | remembered => exact h .remembered x hx

theorem free_apply_iff (h : Free gone s) (action : ShellAction) :
    Free gone (s.apply action) ↔ Harmless gone s action := by
  cases action with
  | selectActivity activity => exact free_selectActivity_iff h activity
  | openDrawer surface => exact free_openDrawer_iff h surface
  | demotePromotedSurface => exact free_demote_iff h
  | promoteDrawerToSplit ratio => exact iff_of_true (free_promoteDrawer h _) trivial
  | promoteDrawerToFull => exact iff_of_true (free_promoteDrawer h _) trivial
  | toggleContext | toggleDrawer | toggleExplorer | toggleTheme | setThemeMode _
  | setReducedMotion _ | focus _ =>
    refine iff_of_true ((free_congr fun place => ?_).mpr h) trivial
    cases place with
    | _ => rfl

end Free

/-! ## What a removal and a selection leave -/

section Removal

variable {s : ShellState} {removed : List SurfaceId} {x : SurfaceId}

theorem mem_toList_cleared {surface : Option SurfaceId} {cleared : Option SurfaceId}
    (h : cleared = if isRemoved surface removed then none else surface) :
    x ∈ cleared.toList ↔ x ∈ surface.toList ∧ x ∉ removed := by
  subst h
  cases surface with
  | none => simp
  | some y =>
    by_cases hy : y ∈ removed
    · simp only [isRemoved, Option.any_some, hy, decide_true, if_true, Option.toList_none,
        List.not_mem_nil, Option.toList_some, List.mem_singleton, false_iff, not_and, not_not]
      rintro rfl
      exact hy
    · simp only [isRemoved, Option.any_some, hy, decide_false, Bool.false_eq_true, if_false,
        Option.toList_some, List.mem_singleton, iff_self_and]
      rintro rfl
      exact hy

theorem mem_sidebar_removeSurfaces :
    x ∈ (s.removeSurfaces removed).refs .sidebar ↔ x ∈ s.refs .sidebar ∧ x ∉ removed :=
  mem_toList_cleared (apply_ite PanelState.surface _ _ _)

theorem mem_context_removeSurfaces :
    x ∈ (s.removeSurfaces removed).refs .context ↔ x ∈ s.refs .context ∧ x ∉ removed :=
  mem_toList_cleared (apply_ite PanelState.surface _ _ _)

theorem mem_drawer_removeSurfaces :
    x ∈ (s.removeSurfaces removed).refs .drawer ↔ x ∈ s.refs .drawer ∧ x ∉ removed :=
  mem_toList_cleared (apply_ite DrawerState.surface _ _ _)

theorem mem_canvas_removeSurfaces_of_any (h : s.canvasContainsAny removed = true) :
    x ∈ (s.removeSurfaces removed).refs .canvas ↔ x = s.activeActivity.canvasSurface := by
  simp only [refs, removeSurfaces, if_pos h, CanvasLayout.surfaces, List.mem_singleton]

theorem mem_canvas_removeSurfaces_of_not_any (h : s.canvasContainsAny removed = false) :
    x ∈ (s.removeSurfaces removed).refs .canvas ↔ x ∈ s.refs .canvas := by
  simp only [refs, removeSurfaces, h, Bool.false_eq_true, if_false]

/-- The promoted surface stays. -/
def PromotionStays (s : ShellState) (removed : List SurfaceId) : Prop :=
  ∀ promotion ∈ s.promotion, promotion.surface ∉ removed

theorem mem_remembered_removeSurfaces :
    x ∈ (s.removeSurfaces removed).refs .remembered ↔
      x ∈ s.refs .remembered ∧ s.PromotionStays removed := by
  unfold refs removeSurfaces PromotionStays
  cases hp : s.promotion with
  | none => simp [isRemoved]
  | some promotion => by_cases hs : promotion.surface ∈ removed <;> simp [isRemoved, hs]

end Removal

end ShellState

end Strukt.Shell
