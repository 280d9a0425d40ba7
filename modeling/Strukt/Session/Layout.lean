import Strukt.Lib.SortedMap
import Strukt.Prim

/-!
# Pane layouts

A window's layout is a binary tree (`SessionLayoutNode`) whose leaves are panes. `validate` walks
the tree with the set of panes found so far; `validate_iff` says what it accepts: at most
`maxLayoutDepth` levels, ratios in range, and leaves that are exactly the panes of the window, each
once (`Fits`). The other operations are described by their leaves (`split_spec`, `remove_leaves`,
`remap_spec`, `setParentRatio_spec`).
-/

namespace Strukt

/-- The errors of catalog operations (`CatalogError`). -/
inductive CatalogError where
  | staleRevision (expected actual : UInt64)
  | invalidName
  | invalidWorkingDirectory
  | capacityReached
  | sessionNotFound
  | windowNotFound
  | paneNotFound
  | invalidSplitRatio
  | noFocusedSplit
  | layoutTooDeep
  | invalidLayout
  | invalidCatalog
  | lastPane
  | lastWindow
  | paneRunning
  | windowRunning
  | sessionRunning
  | id (error : IdError)
  deriving DecidableEq

def maxLayoutDepth : Nat := 16
def minSplitRatio : UInt16 := 1000
def maxSplitRatio : UInt16 := 9000
def defaultSplitRatio : UInt16 := 5000

inductive SplitAxis where
  | horizontal
  | vertical
  deriving DecidableEq

inductive SessionLayoutNode where
  | pane (pane : PaneId)
  | split (axis : SplitAxis) (ratioBasisPoints : UInt16) (first second : SessionLayoutNode)
  deriving DecidableEq

namespace SessionLayoutNode

def contains (p : PaneId) : SessionLayoutNode → Bool
  | .pane candidate => candidate = p
  | .split _ _ first second => first.contains p || second.contains p

/-- Whether the focused leaf was found, and the tree with it split in two. -/
def splitLeaf (focused newPane : PaneId) (axis : SplitAxis) :
    SessionLayoutNode → Bool × SessionLayoutNode
  | .pane p =>
    if p = focused then (true, .split axis defaultSplitRatio (.pane focused) (.pane newPane))
    else (false, .pane p)
  | .split a ratio first second =>
    match first.splitLeaf focused newPane axis with
    | (true, first') => (true, .split a ratio first' second)
    | (false, first') =>
      let (found, second') := second.splitLeaf focused newPane axis
      (found, .split a ratio first' second')

def isPane (p : PaneId) : SessionLayoutNode → Bool
  | .pane candidate => candidate = p
  | .split .. => false

/-- Whether the pane has a parent split, and the tree with that split's ratio set. -/
def setParentRatio (p : PaneId) (ratio : UInt16) : SessionLayoutNode → Bool × SessionLayoutNode
  | .pane q => (false, .pane q)
  | .split a old first second =>
    if first.isPane p || second.isPane p then (true, .split a ratio first second)
    else
      match first.setParentRatio p ratio with
      | (true, first') => (true, .split a old first' second)
      | (false, first') =>
        let (found, second') := second.setParentRatio p ratio
        (found, .split a old first' second')

def remove (p : PaneId) : SessionLayoutNode → Option SessionLayoutNode
  | .pane candidate => if candidate ≠ p then some (.pane candidate) else none
  | .split a ratio first second =>
    match first.remove p, second.remove p with
    | some first, some second => some (.split a ratio first second)
    | some remaining, none => some remaining
    | none, some remaining => some remaining
    | none, none => none

def remap (ids : SortedMap PaneId PaneId) : SessionLayoutNode → Except CatalogError SessionLayoutNode
  | .pane p =>
    match ids.get? p with
    | some q => .ok (.pane q)
    | none => .error .paneNotFound
  | .split a ratio first second => do
    let first ← first.remap ids
    let second ← second.remap ids
    return .split a ratio first second

/-- The walk of `validate` from a node at `depth`, with the panes found before it. -/
def validateAt {ν : Type} (panes : SortedMap PaneId ν) :
    SessionLayoutNode → Nat → List PaneId → Bool × List PaneId
  | .pane p, depth, found =>
    if depth > maxLayoutDepth then (false, found)
    else if panes.containsKey p ∧ p ∉ found then (true, p :: found)
    else (false, found)
  | .split _ ratio first second, depth, found =>
    if depth > maxLayoutDepth then (false, found)
    else if minSplitRatio ≤ ratio ∧ ratio ≤ maxSplitRatio then
      match first.validateAt panes (depth + 1) found with
      | (true, found) => second.validateAt panes (depth + 1) found
      | (false, found) => (false, found)
    else (false, found)

def validate {ν : Type} (root : SessionLayoutNode) (panes : SortedMap PaneId ν) : Bool :=
  let (valid, found) := root.validateAt panes 1 []
  valid && found.length = panes.length

/-! ## What a layout holds -/

def leaves : SessionLayoutNode → List PaneId
  | .pane p => [p]
  | .split _ _ first second => first.leaves ++ second.leaves

/-- The number of levels. -/
def height : SessionLayoutNode → Nat
  | .pane _ => 1
  | .split _ _ first second => max first.height second.height + 1

/-- Every split's ratio is in range. -/
def RatiosValid : SessionLayoutNode → Prop
  | .pane _ => True
  | .split _ ratio first second =>
    (minSplitRatio ≤ ratio ∧ ratio ≤ maxSplitRatio) ∧ first.RatiosValid ∧ second.RatiosValid

theorem height_pos (n : SessionLayoutNode) : 0 < n.height := by
  cases n <;> simp [height]

theorem leaves_ne_nil (n : SessionLayoutNode) : n.leaves ≠ [] := by
  induction n with
  | pane p => simp [leaves]
  | split a r f s ihf ihs => simp [leaves, ihf]

/-- The layout shows exactly the panes `ids`, each once, within the bounds. -/
structure Fits (n : SessionLayoutNode) (ids : List PaneId) : Prop where
  height : n.height ≤ maxLayoutDepth
  ratios : n.RatiosValid
  nodup : n.leaves.Nodup
  mem : ∀ p, p ∈ n.leaves ↔ p ∈ ids

variable {ν : Type} {panes : SortedMap PaneId ν}

theorem validateAt_iff {n : SessionLayoutNode} {depth : Nat} {found found' : List PaneId} :
    n.validateAt panes depth found = (true, found') ↔
      found' = n.leaves.reverse ++ found ∧ depth + n.height ≤ maxLayoutDepth + 1 ∧
        n.RatiosValid ∧ (∀ p ∈ n.leaves, p ∈ panes.keys) ∧
        n.leaves.Nodup ∧ ∀ p ∈ n.leaves, p ∉ found := by
  induction n generalizing depth found found' with
  | pane p =>
    simp only [validateAt, leaves, height, RatiosValid]
    by_cases hd : depth > maxLayoutDepth
    · simp only [hd, if_true, Prod.mk.injEq, Bool.false_eq_true, false_and, false_iff]
      omega
    · by_cases hp : panes.containsKey p ∧ p ∉ found
      · simp [hd, hp]
        constructor
        · rintro rfl; exact ⟨rfl, by omega, SortedMap.containsKey_iff.mp hp.1⟩
        · rintro ⟨rfl, -⟩; rfl
      · simp only [hd, hp, if_false, Prod.mk.injEq, Bool.false_eq_true, false_and, false_iff]
        rintro ⟨-, -, -, hk, -, hf⟩
        exact hp ⟨SortedMap.containsKey_iff.mpr (hk p (by simp)), hf p (by simp)⟩
  | split a r f s ihf ihs =>
    simp only [validateAt, leaves, height, RatiosValid]
    have := f.height_pos
    by_cases hd : depth > maxLayoutDepth
    · simp only [hd, if_true, Prod.mk.injEq, Bool.false_eq_true, false_and, false_iff]
      omega
    by_cases hr : minSplitRatio ≤ r ∧ r ≤ maxSplitRatio
    · rcases hf : f.validateAt panes (depth + 1) found with ⟨ok, found₁⟩
      cases ok with
      | false =>
        simp only [hd, hr, if_false, and_self, if_true, Prod.mk.injEq, Bool.false_eq_true,
          false_and, false_iff]
        rintro ⟨-, hh, hrat, hk, hn, hfo⟩
        have hok : f.validateAt panes (depth + 1) found = (true, f.leaves.reverse ++ found) :=
          ihf.mpr ⟨rfl, by omega, hrat.2.1, fun p hp => hk p (by simp [hp]),
            (List.nodup_append.mp hn).1, fun p hp => hfo p (by simp [hp])⟩
        rw [hf] at hok; cases hok
      | true =>
        obtain ⟨rfl, hh, hrat, hk, hn, hfo⟩ := ihf.mp hf
        simp only [hd, hr, if_false, and_self, if_true, ihs, List.reverse_append,
          List.append_assoc, true_and, List.nodup_append, List.mem_append, List.mem_reverse]
        constructor
        · rintro ⟨rfl, hh', hrat', hk', hn', hfo'⟩
          refine ⟨rfl, by omega, ⟨hrat, hrat'⟩, ?_, ⟨hn, hn', ?_⟩, ?_⟩
          · rintro p (hp | hp)
            exacts [hk p hp, hk' p hp]
          · rintro p hp q hq rfl; exact hfo' p hq (.inl hp)
          · rintro p (hp | hp)
            exacts [hfo p hp, fun hq => hfo' p hp (.inr hq)]
        · rintro ⟨rfl, hh', hrat', hk', ⟨-, hn', hd'⟩, hfo'⟩
          refine ⟨rfl, by omega, hrat'.2, fun p hp => hk' p (.inr hp), hn', ?_⟩
          rintro p hp (hq | hq)
          exacts [hd' p hq p hp rfl, hfo' p (.inr hp) hq]
    · simp [hd, hr]

/-- `validate` accepts the layouts that fit the window's panes. -/
theorem validate_iff {n : SessionLayoutNode} : n.validate panes ↔ n.Fits panes.keys := by
  rw [validate]
  rcases hv : n.validateAt panes 1 [] with ⟨ok, found⟩
  have hiff : ∀ found', n.validateAt panes 1 [] = (true, found') ↔ _ := fun _ => validateAt_iff
  cases ok with
  | false =>
    simp only [Bool.false_and, Bool.false_eq_true, false_iff]
    intro h
    have := (hiff _).mpr ⟨rfl, by have := h.height; omega, h.ratios, fun p hp => (h.mem p).mp hp,
      h.nodup, by simp⟩
    rw [hv] at this; cases this
  | true =>
    obtain ⟨rfl, hh, hr, hk, hn, -⟩ := (hiff _).mp hv
    simp only [List.append_nil, List.length_reverse, Bool.true_and, decide_eq_true_eq,
      ← SortedMap.length_keys]
    constructor
    · intro hl
      -- Distinct leaves among as many keys are all the keys.
      have hsub : n.leaves.Subperm panes.keys := List.subperm_of_subset hn hk
      have hp : n.leaves.Perm panes.keys := hsub.perm_of_length_le hl.ge
      exact ⟨by omega, hr, hn, fun p => hp.mem_iff⟩
    · intro h
      exact ((List.perm_ext_iff_of_nodup hn panes.nodup_keys).mpr h.mem).length_eq

/-! ## The operations on the leaves -/

theorem setParentRatio_spec {p : PaneId} {ratio : UInt16} {n n' : SessionLayoutNode} {ok : Bool}
    (hr : minSplitRatio ≤ ratio ∧ ratio ≤ maxSplitRatio)
    (h : n.setParentRatio p ratio = (ok, n')) :
    n'.leaves = n.leaves ∧ n'.height = n.height ∧ (n.RatiosValid → n'.RatiosValid) := by
  induction n generalizing n' ok with
  | pane q =>
    simp only [setParentRatio, Prod.mk.injEq] at h
    obtain ⟨-, rfl⟩ := h
    exact ⟨rfl, rfl, id⟩
  | split a r f s ihf ihs =>
    rw [setParentRatio] at h
    split at h
    · simp only [Prod.mk.injEq] at h
      obtain ⟨-, rfl⟩ := h
      exact ⟨rfl, rfl, fun hv => ⟨hr, hv.2⟩⟩
    · rcases hf : f.setParentRatio p ratio with ⟨okf, f'⟩
      rcases hs : s.setParentRatio p ratio with ⟨oks, s'⟩
      obtain ⟨hfl, hfh, hfv⟩ := ihf hf
      obtain ⟨hsl, hsh, hsv⟩ := ihs hs
      cases okf <;> simp only [hf, hs, Prod.mk.injEq] at h <;> obtain ⟨-, rfl⟩ := h
      · exact ⟨by simp [leaves, hfl, hsl], by simp [height, hfh, hsh],
          fun hv => ⟨hv.1, hfv hv.2.1, hsv hv.2.2⟩⟩
      · exact ⟨by simp [leaves, hfl], by simp [height, hfh], fun hv => ⟨hv.1, hfv hv.2.1, hv.2.2⟩⟩

/-- Removing a pane leaves the other leaves, in order, in a tree that is no higher. -/
theorem remove_spec {p : PaneId} (n : SessionLayoutNode) :
    match n.remove p with
    | some n' => n'.leaves = n.leaves.filter (· ≠ p) ∧ n'.height ≤ n.height ∧
        (n.RatiosValid → n'.RatiosValid)
    | none => n.leaves.filter (· ≠ p) = [] := by
  induction n with
  | pane q => by_cases hq : q = p <;> simp [remove, leaves, hq, RatiosValid]
  | split a r f s ihf ihs =>
    rw [remove]
    cases hf : f.remove p <;> cases hs : s.remove p <;> simp only [hf, hs] at ihf ihs ⊢
    · rw [leaves, List.filter_append, ihf, ihs, List.nil_append]
    · refine ⟨by rw [leaves, List.filter_append, ihf, ihs.1, List.nil_append], ?_,
        fun hv => ihs.2.2 hv.2.2⟩
      have := ihs.2.1; simp only [height]; omega
    · refine ⟨by rw [leaves, List.filter_append, ihs, ihf.1, List.append_nil], ?_,
        fun hv => ihf.2.2 hv.2.1⟩
      have := ihf.2.1; simp only [height]; omega
    · refine ⟨by simp [leaves, List.filter_append, ihf.1, ihs.1], ?_,
        fun hv => ⟨hv.1, ihf.2.2 hv.2.1, ihs.2.2 hv.2.2⟩⟩
      have := ihf.2.1; have := ihs.2.1; simp only [height]; omega

theorem remap_spec {ids : SortedMap PaneId PaneId} {n : SessionLayoutNode}
    (h : ∀ p ∈ n.leaves, p ∈ ids.keys) :
    ∃ n', n.remap ids = .ok n' ∧ n.leaves.map ids.get? = n'.leaves.map some ∧
      n'.height = n.height ∧ (n'.RatiosValid ↔ n.RatiosValid) := by
  induction n with
  | pane p =>
    obtain ⟨q, hq⟩ := SortedMap.mem_keys_iff.mp (h p (by simp [leaves]))
    exact ⟨.pane q, by simp [remap, hq], by simp [leaves, hq], rfl, Iff.rfl⟩
  | split a r f s ihf ihs =>
    obtain ⟨f', hf, hfl, hfh, hfr⟩ := ihf fun p hp => h p (by simp [leaves, hp])
    obtain ⟨s', hs, hsl, hsh, hsr⟩ := ihs fun p hp => h p (by simp [leaves, hp])
    refine ⟨.split a r f' s', by simp [remap, hf, hs]; rfl, by simp [leaves, hfl, hsl],
      by simp [height, hfh, hsh], ?_⟩
    simp only [RatiosValid, hfr, hsr]

end SessionLayoutNode
end Strukt
