import Strukt.Terminal.GridGeometry
import Strukt.Terminal.GridPairing
import Strukt.Terminal.GridShape
import Strukt.Terminal.Sgr

/-!
# Links of printed cells

An OSC 8 sequence opens a link for the characters that follow, or closes it; a sequence that is
rejected opens none. `LinkState` reads off the calls of the parser which URI is in effect: what
follows the second `;` of the last such sequence, if it was accepted. A terminal model keeps a link
identifier in its pen and the URIs in a table.

* **The table** (`Linked`): identifiers are given out in order and stay bound, so what a cell was
  printed with resolves to the same URI in every later state (`Grows`).
* **The pen** (`LinkState.Keeps`): it has the URI in effect as long as no sequence has a `;` in its
  URI, none is rejected while a link is open, and no SGR sequence resets the pen then.
* **Printing** (`printed_cell`): the cells of a character get the link of the pen.
-/

namespace Strukt

/-! ## The URI in effect -/

/-- The URI of an OSC 8 sequence, none for an invalid or oversized one. -/
def linkUri (params : List (List UInt8)) : Option String :=
  if (params.tail.map (·.length)).sum > oscPayloadLimit ∨ params.length < 3 then none
  else fromUtf8 ([59].intercalate (params.drop 2))

/-- The URI in effect, and how many were accepted. -/
structure LinkState where
  uri : Option String
  accepted : Nat
  deriving DecidableEq

/-- Whether an SGR sequence sets the pen back. -/
def resets : List UInt16 → Bool
  | [] => false
  | n :: rest =>
    if n = 38 ∨ n = 48 then
      match extendedColor rest with
      | some (_, consumed) => resets (rest.drop consumed)
      | none => resets rest
    else n = 0 || resets rest
termination_by params => params.length
decreasing_by all_goals simp only [List.length_cons, List.length_drop]; omega

namespace LinkState

def initial : LinkState := ⟨none, 0⟩

/-- The sequence is invalid, oversized or beyond the limit of the table. -/
def Rejects (s : LinkState) (params : List (List UInt8)) : Prop :=
  linkUri params = none ∨ (linkUri params ≠ some "" ∧ s.accepted ≥ 4096)

instance (s : LinkState) (params : List (List UInt8)) : Decidable (s.Rejects params) := by
  unfold Rejects
  infer_instance

def step (s : LinkState) : PerformCall → LinkState
  | .oscDispatch params =>
    if params.head? = some [56] then
      if s.Rejects params ∨ linkUri params = some "" then { s with uri := none }
      else ⟨linkUri params, s.accepted + 1⟩
    else s
  | _ => s

/-- The calls after which the pen has the URI in effect if it had it before. -/
def Keeps (s : LinkState) : PerformCall → Prop
  | .oscDispatch params =>
    params.head? = some [56] → params.length ≤ 3 ∧ (s.Rejects params → s.uri = none)
  | .csiDispatch params [] false 'm' =>
    resets (if params.flatten = [] then [0] else params.flatten) = true → s.uri = none
  | _ => True

end LinkState

/-! ## The table and the pen -/

/-- The pen has the URI in effect, and every identifier up to the next one is given out. -/
structure Linked (s : LinkState) (p : TerminalPerformer) : Prop where
  link : p.pen.hyperlink.map p.hyperlinkTargets.get? = s.uri.map some
  count : p.hyperlinkTargets.length = s.accepted
  bound : s.accepted ≤ 4096
  next : p.nextHyperlinkId.toNat = s.accepted + 1
  given : ∀ id ∈ p.hyperlinkTargets.keys, id.value.toNat ≤ s.accepted

/-- Links keep their URIs. -/
def Grows (p p' : TerminalPerformer) : Prop :=
  ∀ id uri, p.hyperlinkTargets.get? id = some uri → p'.hyperlinkTargets.get? id = some uri

theorem Grows.refl (p : TerminalPerformer) : Grows p p := fun _ _ h => h

theorem Grows.trans {p p' p'' : TerminalPerformer} (h : Grows p p') (h' : Grows p' p'') :
    Grows p p'' := fun id uri hid => h' id uri (h id uri hid)

/-- The table stays. -/
structure SameTable (p p' : TerminalPerformer) : Prop where
  targets : p'.hyperlinkTargets = p.hyperlinkTargets
  next : p'.nextHyperlinkId = p.nextHyperlinkId

/-- The table and the link of the pen stay. -/
structure SameLink (p p' : TerminalPerformer) : Prop extends SameTable p p' where
  hyperlink : p'.pen.hyperlink = p.pen.hyperlink

namespace SameLink

variable {p p' p'' : TerminalPerformer}

theorem refl (p : TerminalPerformer) : SameLink p p := ⟨⟨rfl, rfl⟩, rfl⟩

theorem trans (h : SameLink p p') (h' : SameLink p' p'') : SameLink p p'' :=
  ⟨⟨h'.targets.trans h.targets, h'.next.trans h.next⟩, h'.hyperlink.trans h.hyperlink⟩

theorem linked (h : SameLink p p') {s : LinkState} (hp : Linked s p) : Linked s p' := by
  refine ⟨?_, ?_, hp.bound, ?_, ?_⟩
  · rw [h.hyperlink, h.targets]
    exact hp.link
  · rw [h.targets]
    exact hp.count
  · rw [h.next]
    exact hp.next
  · rw [h.targets]
    exact hp.given

theorem onGrid {f : Grid → Option Grid} (h : p.onGrid f = some p') : SameLink p p' := by
  obtain ⟨g, -, rfl⟩ := Option.map_eq_some_iff.mp h
  exact ⟨⟨rfl, rfl⟩, rfl⟩

theorem setPrivateMode (enabled : Bool) (mode : UInt16) :
    SameLink p (p.setPrivateMode enabled mode) := by
  simp only [TerminalPerformer.setPrivateMode]
  split_ifs
  all_goals exact ⟨⟨rfl, rfl⟩, rfl⟩

theorem setPrivateModes (enabled : Bool) (modes : List UInt16) :
    SameLink p (modes.foldl (TerminalPerformer.setPrivateMode enabled) p) := by
  induction modes generalizing p with
  | nil => exact refl p
  | cons mode modes ih => exact (setPrivateMode enabled mode).trans ih

theorem applyScrollRegion {values : List UInt16} : SameLink p (p.applyScrollRegion values) := by
  simp only [TerminalPerformer.applyScrollRegion]
  split <;> exact ⟨⟨rfl, rfl⟩, rfl⟩

theorem csiAction {values : List UInt16} {action : Char} (hm : action ≠ 'm')
    (h : p.csiAction values action = some p') : SameLink p p' := by
  unfold TerminalPerformer.csiAction at h
  split at h
  · exact absurd rfl hm
  all_goals first
    | exact onGrid h
    | (cases h; exact applyScrollRegion)
    | (cases h; exact ⟨⟨rfl, rfl⟩, rfl⟩)

theorem execute {cw : Char → Option Nat} {byte : UInt8} (h : p.execute cw byte = some p') :
    SameLink p p' := by
  unfold TerminalPerformer.execute at h
  split_ifs at h
  all_goals first
    | exact onGrid h
    | (cases h; exact ⟨⟨rfl, rfl⟩, rfl⟩)

theorem escDispatch {cw : Char → Option Nat} {intermediates : List UInt8} {ignore : Bool}
    {byte : UInt8} (h : p.escDispatch cw intermediates ignore byte = some p') :
    SameLink p p' := by
  unfold TerminalPerformer.escDispatch at h
  split_ifs at h
  all_goals first
    | exact onGrid h
    | (cases h; exact ⟨⟨rfl, rfl⟩, rfl⟩)

end SameLink

/-! ## SGR sequences -/

open TerminalPerformer (sgrPen sgrLoop)

def KeepsLink (f : Pen → Option Pen) : Prop :=
  ∀ pen pen', f pen = some pen' → pen'.hyperlink = pen.hyperlink

/-- The only value that touches the link is 0. -/
theorem sgrPen_link {n : UInt16} (hn : n ≠ 0) : KeepsLink (sgrPen n) := by
  unfold sgrPen
  simp only [if_neg hn]
  repeat' refine ite_pen (P := KeepsLink) _ ?_ ?_
  all_goals
    intro pen pen' h
    cases h
  all_goals rfl

theorem sgr_link (n : UInt16) (p : TerminalPerformer) :
    SameTable p (TerminalPerformer.sgr n p) ∧ (TerminalPerformer.sgr n p).pen.hyperlink =
      if n = 0 then none else p.pen.hyperlink := by
  refine ⟨?_, ?_⟩
  · unfold TerminalPerformer.sgr
    split <;> exact ⟨rfl, rfl⟩
  · rw [sgr_pen]
    split
    · rename_i h0
      rw [h0]
      rfl
    · rename_i h0
      cases hs : sgrPen n p.pen with
      | none => rfl
      | some pen => exact sgrPen_link h0 _ _ hs

/-- The pen's link after the values. -/
theorem sgrLoop_link (values : List UInt16) (p : TerminalPerformer) :
    SameTable p (sgrLoop values p) ∧ (sgrLoop values p).pen.hyperlink =
      if resets values then none else p.pen.hyperlink := by
  induction values, p using TerminalPerformer.sgrLoop.induct with
  | case1 p =>
    rw [sgrLoop, resets]
    exact ⟨⟨rfl, rfl⟩, rfl⟩
  | case2 n rest p hn color consumed hc ih =>
    rw [sgrLoop, if_pos hn, hc, resets, if_pos hn, hc]
    have hset : SameLink p (p.setColor (n = 38) color) := by
      unfold TerminalPerformer.setColor
      split <;> exact ⟨⟨rfl, rfl⟩, rfl⟩
    refine ⟨⟨ih.1.targets.trans hset.targets, ih.1.next.trans hset.next⟩, ?_⟩
    rw [← hset.hyperlink]
    exact ih.2
  | case3 n rest p hn hc ih =>
    rw [sgrLoop, if_pos hn, hc, resets, if_pos hn, hc]
    exact ⟨⟨ih.1.targets, ih.1.next⟩, ih.2⟩
  | case4 n rest p hn ih =>
    rw [sgrLoop, if_neg hn, resets, if_neg hn]
    obtain ⟨hsame, hlink⟩ := sgr_link n p
    refine ⟨⟨ih.1.targets.trans hsame.targets, ih.1.next.trans hsame.next⟩, ?_⟩
    rw [ih.2, hlink]
    by_cases h0 : n = 0 <;> simp [h0]

theorem Linked.sgr {s : LinkState} {p : TerminalPerformer} (h : Linked s p) {values : List UInt16}
    (hk : resets values = true → s.uri = none) : Linked s (sgrLoop values p) := by
  obtain ⟨hsame, hlink⟩ := sgrLoop_link values p
  by_cases hr : resets values = true
  · -- The pen had no link to lose.
    have hnone : p.pen.hyperlink = none := by
      have := h.link
      rw [hk hr] at this
      exact Option.map_eq_none_iff.mp this
    rw [if_pos hr, ← hnone] at hlink
    exact SameLink.linked ⟨hsame, hlink⟩ h
  · rw [if_neg hr] at hlink
    exact SameLink.linked ⟨hsame, hlink⟩ h

/-! ## OSC sequences -/

variable {s : LinkState} {p p' : TerminalPerformer}

/-- A rejected sequence, and one that closes the link. -/
theorem Linked.closed (h : Linked s p) :
    Linked { s with uri := none } { p with pen.hyperlink := none } :=
  ⟨rfl, h.count, h.bound, h.next, h.given⟩

theorem Linked.rejected (h : Linked s p) (hs : s.uri = none) :
    Linked { s with uri := none } p.discarded := by
  have hsame : SameLink p p.discarded := ⟨⟨rfl, rfl⟩, rfl⟩
  have he : ({ s with uri := none } : LinkState) = s := by rw [← hs]
  rw [he]
  exact hsame.linked h

/-- An accepted sequence takes the next identifier, which no cell has yet. -/
theorem Linked.opened (h : Linked s p) (hlt : s.accepted < 4096) (uri : String) :
    Linked ⟨some uri, s.accepted + 1⟩
        { p with
          nextHyperlinkId := satSucc32 p.nextHyperlinkId
          hyperlinkTargets := p.hyperlinkTargets.insert ⟨p.nextHyperlinkId⟩ uri
          pen.hyperlink := some ⟨p.nextHyperlinkId⟩ } ∧
      (⟨p.nextHyperlinkId⟩ : HyperlinkId) ∉ p.hyperlinkTargets.keys := by
  have hnext := h.next
  have hfresh : (⟨p.nextHyperlinkId⟩ : HyperlinkId) ∉ p.hyperlinkTargets.keys := by
    intro hmem
    have hle : p.nextHyperlinkId.toNat ≤ s.accepted := h.given _ hmem
    omega
  refine ⟨⟨?_, ?_, hlt, ?_, ?_⟩, hfresh⟩
  · simp
  · rw [SortedMap.length_insert_of_notMem hfresh, h.count]
  · have hmax : p.nextHyperlinkId ≠ -1 := by
      intro he
      rw [he] at hnext
      have : (-1 : UInt32).toNat = 4294967295 := by decide
      omega
    have hadd : (p.nextHyperlinkId + 1).toNat = p.nextHyperlinkId.toNat + 1 := by
      rw [UInt32.toNat_add]
      have : (1 : UInt32).toNat = 1 := rfl
      omega
    rw [satSucc32, if_neg hmax, hadd, hnext]
  · intro id hid
    rcases SortedMap.mem_keys_insert.mp hid with rfl | hid
    · exact hnext.le
    · exact (h.given id hid).trans (Nat.le_succ _)

theorem Grows.of_same (h : SameTable p p') : Grows p p' := by
  intro id uri hid
  rw [h.targets]
  exact hid

/-- The URI of a sequence without a `;` in it. -/
theorem linkUri_three (command : List UInt8) {attributes uri : List UInt8}
    (h : ([attributes, uri].map (·.length)).sum ≤ oscPayloadLimit) :
    linkUri [command, attributes, uri] = fromUtf8 uri := by
  rw [linkUri, if_neg (by simpa using h)]
  simp [List.intercalate]

theorem fromUtf8_empty {bytes : List UInt8} (h : fromUtf8 bytes = some "") : bytes = [] := by
  unfold fromUtf8 String.fromUTF8? at h
  split at h
  · have he := congrArg (fun s => s.toUTF8.data.toList) (Option.some.inj h)
    exact he
  · cases h

/-- An OSC 8 sequence without a `;` in its URI. -/
theorem Linked.applyHyperlink (h : Linked s p) {attributes uri : List UInt8}
    (hsize : ([attributes, uri].map (·.length)).sum ≤ oscPayloadLimit)
    (hk : s.Rejects [[56], attributes, uri] → s.uri = none) :
    Linked (s.step (.oscDispatch [[56], attributes, uri]))
        (p.applyHyperlink [[56], attributes, uri]) ∧
      Grows p (p.applyHyperlink [[56], attributes, uri]) := by
  have huri := linkUri_three [56] hsize
  simp only [LinkState.step, List.head?_cons, if_true, LinkState.Rejects, huri] at hk ⊢
  unfold TerminalPerformer.applyHyperlink
  simp only [List.getElem?_cons_succ, List.getElem?_cons_zero]
  by_cases hempty : uri = []
  · have hclose : fromUtf8 uri = some "" := by rw [hempty]; decide
    rw [if_pos hempty, if_pos (.inr hclose)]
    exact ⟨h.closed, .of_same ⟨rfl, rfl⟩⟩
  · rw [if_neg hempty]
    cases hu : fromUtf8 uri with
    | none =>
      rw [if_pos (.inl (.inl rfl))]
      exact ⟨h.rejected (hk (.inl hu)), .of_same ⟨rfl, rfl⟩⟩
    | some text =>
      have htext : text ≠ "" := fun he => hempty (fromUtf8_empty (hu.trans (congrArg some he)))
      dsimp only
      rw [h.count]
      by_cases hfull : s.accepted ≥ 4096
      · rw [if_pos hfull, if_pos (.inl (.inr ⟨by simpa using htext, hfull⟩))]
        exact ⟨h.rejected (hk (.inr ⟨by simpa [hu] using htext, hfull⟩)), .of_same ⟨rfl, rfl⟩⟩
      · rw [if_neg hfull, if_neg (by simp [htext, hfull])]
        obtain ⟨hopen, hfresh⟩ := h.opened (Nat.lt_of_not_ge hfull) text
        refine ⟨hopen, fun id u hid => ?_⟩
        have hne : id ≠ ⟨p.nextHyperlinkId⟩ := by
          rintro rfl
          exact hfresh (SortedMap.mem_keys_of_get? hid)
        rw [SortedMap.get?_insert, if_neg hne]
        exact hid

theorem Linked.osc (h : Linked s p) {params : List (List UInt8)}
    (hk : s.Keeps (.oscDispatch params)) :
    Linked (s.step (.oscDispatch params)) (p.oscDispatch params) ∧
      Grows p (p.oscDispatch params) := by
  have hsame : ∀ q, SameLink p q → s.step (.oscDispatch params) = s →
      Linked (s.step (.oscDispatch params)) q ∧ Grows p q :=
    fun q hq hs => ⟨by rw [hs]; exact hq.linked h, .of_same hq.toSameTable⟩
  unfold TerminalPerformer.oscDispatch
  cases params with
  | nil => exact hsame _ ⟨⟨rfl, rfl⟩, rfl⟩ rfl
  | cons command rest =>
    dsimp only
    by_cases hc : command = [56]
    · subst hc
      obtain ⟨hlen, hreject⟩ := hk rfl
      -- What is too short or too long is rejected.
      have hrejected : linkUri ([56] :: rest) = none →
          Linked (s.step (.oscDispatch ([56] :: rest))) p.discarded ∧ Grows p p.discarded := by
        intro hu
        have hr : s.Rejects ([56] :: rest) := .inl hu
        simp only [LinkState.step, List.head?_cons, if_true, hr, true_or]
        exact ⟨h.rejected (hreject hr), .of_same ⟨rfl, rfl⟩⟩
      split
      · rename_i hsize
        exact hrejected (if_pos (.inl hsize))
      · rename_i hsize
        rcases rest with _ | ⟨attributes, _ | ⟨uri, rest⟩⟩
        · exact hrejected (if_pos (.inr (by simp)))
        · exact hrejected (if_pos (.inr (by simp)))
        · obtain rfl : rest = [] := by
            simp only [List.length_cons] at hlen
            exact List.length_eq_zero_iff.mp (by omega)
          exact h.applyHyperlink (not_lt.mp hsize) hreject
    · have hs : s.step (.oscDispatch (command :: rest)) = s := by
        simp [LinkState.step, hc]
      split
      · exact hsame _ ⟨⟨rfl, rfl⟩, rfl⟩ hs
      split
      · split
        · split <;> exact hsame _ ⟨⟨rfl, rfl⟩, rfl⟩ hs
        · exact hsame _ ⟨⟨rfl, rfl⟩, rfl⟩ hs
      · exact hsame _ ⟨⟨rfl, rfl⟩, rfl⟩ hs

/-! ## Runs -/

/-- A call of the parser. -/
theorem Linked.perform {cw : Char → Option Nat} {call : PerformCall} (h : Linked s p)
    (hk : s.Keeps call) (hp : p.perform cw call = some p') :
    Linked (s.step call) p' ∧ Grows p p' := by
  have hsame : SameLink p p' → Linked s p' ∧ Grows p p' :=
    fun hq => ⟨hq.linked h, .of_same hq.toSameTable⟩
  cases call with
  | print ch =>
    simp only [TerminalPerformer.perform] at hp
    exact hsame (.onGrid hp)
  | execute byte => exact hsame (.execute hp)
  | oscDispatch params => cases hp; exact h.osc hk
  | csiDispatch params intermediates ignore action =>
    simp only [TerminalPerformer.perform, TerminalPerformer.csiDispatch] at hp
    split at hp
    · cases hp
      exact hsame ⟨⟨rfl, rfl⟩, rfl⟩
    · rename_i hignore
      split at hp
      · rename_i hi
        by_cases hm : action = 'm'
        · subst hm hi
          obtain rfl : ignore = false := by simpa using hignore
          cases hp
          exact ⟨h.sgr hk, .of_same (sgrLoop_link _ p).1⟩
        · exact hsame (.csiAction hm hp)
      split at hp
      · cases hp
        exact hsame (.setPrivateModes _ _)
      · cases hp
        exact hsame ⟨⟨rfl, rfl⟩, rfl⟩
  | escDispatch intermediates ignore byte => exact hsame (.escDispatch hp)

/-- Every call keeps the URI in effect. -/
def LinkState.KeepsAll : LinkState → List PerformCall → Prop
  | _, [] => True
  | s, call :: rest => s.Keeps call ∧ (s.step call).KeepsAll rest

theorem LinkState.keepsAll_append {s : LinkState} {calls rest : List PerformCall} :
    s.KeepsAll (calls ++ rest) ↔ s.KeepsAll calls ∧ (calls.foldl step s).KeepsAll rest := by
  induction calls generalizing s with
  | nil => simp [KeepsAll]
  | cons call calls ih => simp only [List.cons_append, KeepsAll, ih, List.foldl_cons, and_assoc]

theorem Linked.run {cw : Char → Option Nat} {calls : List PerformCall} (h : Linked s p)
    (hk : s.KeepsAll calls) (hr : calls.foldlM (·.perform cw) p = some p') :
    Linked (calls.foldl LinkState.step s) p' ∧ Grows p p' := by
  induction calls generalizing s p with
  | nil => cases hr; exact ⟨h, .refl _⟩
  | cons call calls ih =>
    rw [List.foldlM_cons] at hr
    obtain ⟨mid, hm, hr⟩ := Option.bind_eq_some_iff.mp hr
    obtain ⟨hmid, hgrows⟩ := h.perform hk.1 hm
    obtain ⟨hend, hgrows'⟩ := ih hmid hk.2 hr
    exact ⟨hend, hgrows.trans hgrows'⟩

theorem linked_new {V : VteParser} (size : GridSize) (limit : Nat) :
    Linked .initial (TerminalModel.new size limit : TerminalModel V).performer :=
  ⟨rfl, rfl, Nat.zero_le _, rfl, by simp [TerminalModel.new]⟩

/-! ## Printed cells -/

/-- The cell at a position of the active screen. -/
def Grid.cellAt (g : Grid) (row column : Nat) : Option Cell :=
  g.screen.rows[row]?.bind (·[column]?)

theorem hyperlink_writeStyled {text : String} {w : CellWidth} {fg bg : Color} {a : CellAttributes}
    {l : Option HyperlinkId} {c c' : Cell} (h : Grid.writeStyled text w fg bg a l c = .ok c') :
    c'.hyperlink = l := by
  unfold Grid.writeStyled at h
  cases hs : c.setText text w with
  | error e => simp [hs, Except.map] at h
  | ok d =>
    simp only [hs, Except.map, Except.ok.injEq] at h
    rw [← h]
    rfl

/-- The cells of a character. -/
theorem writeCells_link {rows rows' : List Row} {row column w : Nat} {ch : Char} {fg bg : Color}
    {a : CellAttributes} {l : Option HyperlinkId}
    (h : Grid.writeCells rows row column w ch fg bg a l = some rows') :
    (∃ cell, rows'[row]?.bind (·[column]?) = some cell ∧ cell.hyperlink = l) ∧
      (w = 2 → ∃ cell, rows'[row]?.bind (·[column + 1]?) = some cell ∧ cell.hyperlink = l) := by
  obtain ⟨mid, hm, h⟩ := Option.bind_eq_some_iff.mp h
  obtain ⟨line, c, c', hline, hc, hc', rfl⟩ := modifyCell_eq hm
  have hrow : row < rows.length := (List.getElem?_eq_some_iff.mp hline).1
  have hcol : column < line.length := (List.getElem?_eq_some_iff.mp hc).1
  have hlink := hyperlink_writeStyled hc'
  split at h
  · rename_i hw
    obtain ⟨line₁, d, d', hline₁, hd, hd', rfl⟩ := modifyCell_eq h
    rw [List.getElem?_set_self hrow, Option.some.injEq] at hline₁
    subst hline₁
    have hcol₁ : column + 1 < (line.set column c').length := (List.getElem?_eq_some_iff.mp hd).1
    refine ⟨⟨c', ?_, hlink⟩, fun _ => ⟨d', ?_, hyperlink_writeStyled hd'⟩⟩
    · rw [List.getElem?_set_self (by simpa using hrow), Option.bind_some,
        List.getElem?_set_ne (by omega), List.getElem?_set_self hcol]
    · rw [List.getElem?_set_self (by simpa using hrow), Option.bind_some,
        List.getElem?_set_self hcol₁]
  · rename_i hw
    cases h
    refine ⟨⟨c', ?_, hlink⟩, fun h2 => absurd h2 hw⟩
    rw [List.getElem?_set_self hrow, Option.bind_some, List.getElem?_set_self hcol]

/-- A character that takes columns is printed, with the link of the pen, where the cursor is after
the wrap before it. -/
theorem printed_cell {cw : Char → Option Nat} {ch : Char}
    (h : p.perform cw (.print ch) = some p') (hw : min ((cw ch).getD 0) 2 ≠ 0) :
    ∃ mid, p.grid.wrapFor (min ((cw ch).getD 0) 2) = some mid ∧
      ∀ i < p.grid.columnsOf (min ((cw ch).getD 0) 2),
        ∃ cell, p'.grid.cellAt mid.screen.cursor.row (mid.screen.cursor.column + i) = some cell ∧
          cell.hyperlink = p.pen.hyperlink := by
  simp only [TerminalPerformer.perform] at h
  obtain ⟨g, hg, rfl⟩ := Option.map_eq_some_iff.mp h
  rcases Grid.writeCharacter_cases hg with ⟨h0, -⟩ | ⟨mid, rows, rendered, t, -, hm, hr, ht, rfl⟩
  · exact absurd h0 hw
  · refine ⟨mid, hm, fun i hi => ?_⟩
    have hat : ∀ column, (mid.setScreen t).bumpRevision.cellAt mid.screen.cursor.row column =
        rows[mid.screen.cursor.row]?.bind (·[column]?) := by
      intro column
      rw [Grid.cellAt, Grid.screen_bumpRevision, Grid.screen_setScreen, ht]
    have hle : p.grid.columnsOf (min ((cw ch).getD 0) 2) ≤ 2 := by
      unfold Grid.columnsOf
      split <;> omega
    obtain ⟨⟨first, hf, hfl⟩, hsecond⟩ := writeCells_link hr
    by_cases h0 : i = 0
    · subst h0
      exact ⟨first, (hat _).trans hf, hfl⟩
    · obtain rfl : i = 1 := by omega
      obtain ⟨second, hs, hsl⟩ := hsecond (by omega)
      exact ⟨second, (hat _).trans hs, hsl⟩

/-! ## The model -/

/-- The calls that a parser makes on chunks of output. -/
def VteParser.calls (V : VteParser) : V.State → List (List UInt8) → List PerformCall
  | _, [] => []
  | state, chunk :: rest => (V.advance state chunk).2 ++ V.calls (V.advance state chunk).1 rest

theorem TerminalModel.performer_advances {V : VteParser} {chunks : List (List UInt8)}
    {m m' : TerminalModel V} (h : chunks.foldlM advance m = some m') :
    (V.calls m.parser chunks).foldlM (·.perform V.charWidth) m.performer =
      some m'.performer := by
  induction chunks generalizing m with
  | nil => cases h; rfl
  | cons chunk rest ih =>
    rw [List.foldlM_cons] at h
    obtain ⟨mid, hm, h⟩ := Option.bind_eq_some_iff.mp h
    simp only [advance, Option.bind_eq_bind, Option.pure_def] at hm
    obtain ⟨p, hp, hm⟩ := Option.bind_eq_some_iff.mp hm
    cases hm
    rw [VteParser.calls, List.foldlM_append, hp]
    exact ih h

/-- For every output, in any chunks: as long as no call loses the URI in effect, each printed cell
has a link that resolves to the URI in effect when it was printed, and none if none was. -/
theorem hyperlink_law (V : VteParser) (size : GridSize) (limit : Nat) (chunks : List (List UInt8))
    (m : TerminalModel V) (h : chunks.foldlM TerminalModel.advance (.new size limit) = some m)
    (hk : LinkState.initial.KeepsAll (V.calls V.new chunks)) (before after : List PerformCall)
    (ch : Char) (hc : V.calls V.new chunks = before ++ .print ch :: after)
    (hw : min ((V.charWidth ch).getD 0) 2 ≠ 0) :
    ∃ p p' mid,
      before.foldlM (·.perform V.charWidth)
        (TerminalModel.new size limit : TerminalModel V).performer = some p ∧
      p.perform V.charWidth (.print ch) = some p' ∧
      p.grid.wrapFor (min ((V.charWidth ch).getD 0) 2) = some mid ∧
      ∀ i < p.grid.columnsOf (min ((V.charWidth ch).getD 0) 2),
        ∃ cell, p'.grid.cellAt mid.screen.cursor.row (mid.screen.cursor.column + i) = some cell ∧
          cell.hyperlink.map m.performer.hyperlinkTargets.get? =
            (before.foldl LinkState.step .initial).uri.map some := by
  have hrun := TerminalModel.performer_advances h
  rw [show (TerminalModel.new size limit : TerminalModel V).parser = V.new from rfl, hc,
    List.foldlM_append] at hrun
  obtain ⟨p, hp, hrun⟩ := Option.bind_eq_some_iff.mp hrun
  rw [hc, LinkState.keepsAll_append] at hk
  obtain ⟨hlinked, -⟩ := (linked_new size limit).run hk.1 hp
  obtain ⟨-, hgrows⟩ := hlinked.run hk.2 hrun
  rw [List.foldlM_cons] at hrun
  obtain ⟨p', hp', -⟩ := Option.bind_eq_some_iff.mp hrun
  obtain ⟨mid, hmid, hcells⟩ := printed_cell hp' hw
  refine ⟨p, p', mid, hp, hp', hmid, fun i hi => ?_⟩
  obtain ⟨cell, hcell, hlink⟩ := hcells i hi
  refine ⟨cell, hcell, ?_⟩
  rw [hlink, ← hlinked.link]
  -- What the link resolves to when it is printed, it resolves to at the end.
  cases hl : p.pen.hyperlink with
  | none => rfl
  | some id =>
    have hget := hlinked.link
    rw [hl, Option.map_some] at hget
    obtain ⟨uri, -, hu⟩ := Option.map_eq_some_iff.mp hget.symm
    rw [Option.map_some, Option.map_some, ← hu, hgrows id uri hu.symm]

/-- The calls for OSC 8 sequences with the URIs `u` and `u;v`, one without a URI, an SGR sequence
without parameters and an `x`; other bytes are left alone. -/
def linkParser : VteParser where
  State := Unit
  new := ()
  advance _ bytes :=
    ((), if bytes = [0x1b, 0x5d, 0x38, 0x3b, 0x3b, 0x75, 0x07] then
      [.oscDispatch [[0x38], [], [0x75]]]
    else if bytes = [0x1b, 0x5d, 0x38, 0x3b, 0x3b, 0x75, 0x3b, 0x76, 0x07] then
      [.oscDispatch [[0x38], [], [0x75], [0x76]]]
    else if bytes = [0x1b, 0x5d, 0x38, 0x3b, 0x07] then [.oscDispatch [[0x38], []]]
    else if bytes = [0x1b, 0x5b, 0x6d] then [.csiDispatch [[0]] [] false 'm']
    else if bytes = [0x78] then [.print 'x']
    else [])
  charWidth _ := some 1
  advance_nil _ := rfl

/-- A link that is opened and printed. -/
theorem hyperlink_law_open :
    let z : GridSize := ⟨1, 1, by decide, by decide⟩
    let chunks : List (List UInt8) := [[0x1b, 0x5d, 0x38, 0x3b, 0x3b, 0x75, 0x07], [0x78]]
    ∃ m : TerminalModel linkParser, chunks.foldlM TerminalModel.advance (.new z 0) = some m ∧
      ∃ p p' : TerminalPerformer, p.perform linkParser.charWidth (.print 'x') = some p' ∧
        ∃ row column cell, p'.grid.cellAt row column = some cell ∧
          cell.hyperlink.map m.performer.hyperlinkTargets.get? = some (some "u") := by
  intro z chunks
  have hsome : (chunks.foldlM TerminalModel.advance
      (.new z 0 : TerminalModel linkParser)).isSome := by decide
  obtain ⟨m, h⟩ := Option.isSome_iff_exists.mp hsome
  have hcalls : linkParser.calls linkParser.new chunks =
      [.oscDispatch [[0x38], [], [0x75]]] ++ .print 'x' :: [] := by decide
  have hk : LinkState.initial.KeepsAll (linkParser.calls linkParser.new chunks) := by
    rw [hcalls]
    exact ⟨fun _ => ⟨by decide, fun hr => absurd hr (by decide)⟩, trivial, trivial⟩
  obtain ⟨p, p', mid, -, hp, hmid, hcells⟩ := hyperlink_law linkParser z 0 chunks m h hk _ _ 'x'
    hcalls (by decide)
  obtain ⟨cell, hcell, hlink⟩ := hcells 0 (by
    show 0 < p.grid.columnsOf 1
    simp [Grid.columnsOf])
  exact ⟨m, h, p, p', hp, _, _, cell, hcell, hlink.trans (by decide)⟩

/-- What the cell of a grid of one cell links to after some output, and the URI in effect before
the last chunk. -/
def linkOf (chunks : List (List UInt8)) : Option (Option String) × Option String :=
  let m : TerminalModel linkParser := .new ⟨1, 1, Nat.one_pos, Nat.one_pos⟩ 0
  ((chunks.foldlM TerminalModel.advance m).bind fun m =>
    (m.performer.grid.cellAt 0 0).map fun cell =>
      cell.hyperlink.bind m.performer.hyperlinkTargets.get?,
    ((linkParser.calls linkParser.new chunks.dropLast).foldl LinkState.step .initial).uri)

/-- A URI with a `;` loses what follows it, a rejected sequence leaves the last link open, and an
SGR reset closes it. -/
theorem link_truncated :
    let opened : List UInt8 := [0x1b, 0x5d, 0x38, 0x3b, 0x3b, 0x75, 0x07]
    let split : List UInt8 := [0x1b, 0x5d, 0x38, 0x3b, 0x3b, 0x75, 0x3b, 0x76, 0x07]
    let rejected : List UInt8 := [0x1b, 0x5d, 0x38, 0x3b, 0x07]
    let reset : List UInt8 := [0x1b, 0x5b, 0x6d]
    linkOf [split, [0x78]] = (some (some "u"), some "u;v") ∧
      linkOf [opened, rejected, [0x78]] = (some (some "u"), none) ∧
      linkOf [opened, reset, [0x78]] = (some none, some "u") := by
  decide +kernel

end Strukt
