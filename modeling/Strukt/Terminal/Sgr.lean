import Strukt.Terminal.Parser

/-!
# The groups of an SGR sequence

A parameter of an SGR sequence stands alone, or is a group: one with sub-parameters, or 38 or 48
with the operands that follow it. `sgrUnits` reads a sequence group by group, and a group that is
malformed or not supported asks for nothing (`SgrUnit.apply`). `apply_sgr` reads the values of all
parameters in one list (`sgrLoop`).

* **The list is read as the groups** (`Readable`): each colour is read with its own operands, and
  each group that asks for nothing is `Silent` where it stands.
* **One group** (`unit_iff`): it is read as it should be, whatever the pen is, exactly then. A value
  that has an effect leaves some pen unreached (`silent_or_unreached`).
-/

namespace Strukt

open TerminalPerformer (sgrPen sgrLoop)

/-- What a group asks for. -/
inductive SgrRequest where
  | single (n : UInt16)
  | color (foreground : Bool) (color : Color)
  | nothing
  deriving DecidableEq

/-- The values of a group, and what they ask for. -/
structure SgrUnit where
  values : List UInt16
  request : SgrRequest
  deriving DecidableEq

/-- The operands of an extended colour. -/
def colorOf : List UInt16 → Option Color
  | [5, index] => do return .indexed (← u8TryFrom index)
  | [2, red, green, blue] => do
    return .rgb (← u8TryFrom red) (← u8TryFrom green) (← u8TryFrom blue)
  | _ => none

/-- The operands as sub-parameters, where a colour space may stand before the components. -/
def colonColorOf : List UInt16 → Option Color
  | [2, _, red, green, blue] => do
    return .rgb (← u8TryFrom red) (← u8TryFrom green) (← u8TryFrom blue)
  | operands => colorOf operands

/-- The operands of a 38 or 48 without sub-parameters: the mode and as many parameters as it takes,
as far as they stand alone. -/
def colorOperands (rest : List (List UInt16)) : List (List UInt16) :=
  let count := if rest.head? = some [5] then 2 else if rest.head? = some [2] then 4 else 1
  (rest.take count).takeWhile (·.length = 1)

namespace SgrUnit

def extended (n : UInt16) (operands : List UInt16) (color : Option Color) : SgrUnit where
  values := n :: operands
  request := match color with
    | some color => .color (n = 38) color
    | none => .nothing

def apply (u : SgrUnit) (pen : Pen) : Pen :=
  match u.request with
  | .single n => (sgrPen n pen).getD pen
  | .color true color => { pen with foreground := color }
  | .color false color => { pen with background := color }
  | .nothing => pen

end SgrUnit

def sgrUnits : List (List UInt16) → List SgrUnit
  | [] => []
  | [] :: rest => sgrUnits rest
  | [n] :: rest =>
    if n = 38 ∨ n = 48 then
      let operands := colorOperands rest
      .extended n operands.flatten (colorOf operands.flatten) ::
        sgrUnits (rest.drop operands.length)
    else ⟨[n], .single n⟩ :: sgrUnits rest
  | (n :: operands) :: rest =>
    (if n = 38 ∨ n = 48 then .extended n operands (colonColorOf operands)
      else ⟨n :: operands, .nothing⟩) :: sgrUnits rest
termination_by groups => groups.length
decreasing_by all_goals simp only [List.length_cons, List.length_drop]; omega

/-- No parameters are one zero. -/
def sgrGroups (params : List (List UInt16)) : List (List UInt16) :=
  if params.flatten = [] then [[0]] else params

/-- The pen after a sequence read group by group. -/
def sgrReference (params : List (List UInt16)) (pen : Pen) : Pen :=
  (sgrUnits (sgrGroups params)).foldl (fun pen u => u.apply pen) pen

/-! ## The flat list -/

/-- No value has an effect when `after` follows. -/
def Silent (after : List UInt16) : List UInt16 → Prop
  | [] => True
  | n :: rest =>
    (if n = 38 ∨ n = 48 then extendedColor (rest ++ after) = none
      else sgrPen n .plain = none) ∧ Silent after rest

/-- The flat list reads the group as a group when `after` follows. -/
def SgrUnit.Reads (after : List UInt16) (u : SgrUnit) : Prop :=
  match u.request with
  | .single _ => True
  | .color _ color =>
    ∃ consumed, extendedColor u.values.tail = some (color, consumed) ∧
      Silent after (u.values.tail.drop consumed)
  | .nothing => Silent after u.values

/-- The flat list reads every group as a group. -/
def Readable : List SgrUnit → Prop
  | [] => True
  | u :: rest => u.Reads (rest.flatMap (·.values)) ∧ Readable rest

/-- The units that a sequence can have. -/
inductive SgrUnit.Formed : SgrUnit → Prop where
  | single {n : UInt16} (h : ¬(n = 38 ∨ n = 48)) : Formed ⟨[n], .single n⟩
  | color {n : UInt16} {operands : List UInt16} {color : Color} (head : n = 38 ∨ n = 48)
      (h : colonColorOf operands = some color) : Formed ⟨n :: operands, .color (n = 38) color⟩
  | nothing {values : List UInt16} : Formed ⟨values, .nothing⟩

variable {operands : List UInt16}

theorem colonColorOf_of_colorOf {color : Color}
    (h : colorOf operands = some color) : colonColorOf operands = some color := by
  unfold colonColorOf
  split
  · simp [colorOf] at h
  · exact h

theorem SgrUnit.extended_formed {n : UInt16} {color : Option Color}
    (hn : n = 38 ∨ n = 48) (h : ∀ c, color = some c → colonColorOf operands = some c) :
    (SgrUnit.extended n operands color).Formed := by
  unfold SgrUnit.extended
  cases color with
  | none => exact .nothing
  | some c => exact .color hn (h c rfl)

theorem sgrUnits_formed (groups : List (List UInt16)) : ∀ u ∈ sgrUnits groups, u.Formed := by
  fun_induction sgrUnits groups with
  | case1 => simp
  | case2 rest ih => exact ih
  | case3 n rest hn operands ih =>
    exact List.forall_mem_cons.mpr
      ⟨SgrUnit.extended_formed hn fun c hc => colonColorOf_of_colorOf hc, ih⟩
  | case4 n rest hn ih => exact List.forall_mem_cons.mpr ⟨.single hn, ih⟩
  | case5 n operands rest _ ih =>
    refine List.forall_mem_cons.mpr ⟨?_, ih⟩
    split
    · exact SgrUnit.extended_formed ‹_› fun c hc => hc
    · exact .nothing

theorem colorOperands_append (rest : List (List UInt16)) :
    colorOperands rest ++ rest.drop (colorOperands rest).length = rest := by
  have hp : colorOperands rest <+: rest :=
    (List.takeWhile_prefix _).trans (List.take_prefix _ _)
  obtain ⟨tail, ht⟩ := hp
  conv_rhs => rw [← ht]
  conv_lhs => arg 2; arg 2; rw [← ht]
  rw [List.drop_left]

/-- The units hold the values of the parameters in their order. -/
theorem sgrUnits_values (groups : List (List UInt16)) :
    (sgrUnits groups).flatMap (·.values) = groups.flatten := by
  fun_induction sgrUnits groups with
  | case1 => rfl
  | case2 rest ih => rw [ih, List.flatten_cons, List.nil_append]
  | case3 n rest hn operands ih =>
    rw [List.flatMap_cons, ih, List.flatten_cons]
    conv_rhs => rw [← colorOperands_append rest, List.flatten_append]
    rfl
  | case4 n rest hn ih => rw [List.flatMap_cons, ih, List.flatten_cons]
  | case5 n operands rest _ ih =>
    rw [List.flatMap_cons, ih, List.flatten_cons]
    split <;> rfl

theorem extendedColor_append {color : Color} {consumed : Nat}
    (h : extendedColor operands = some (color, consumed)) (after : List UInt16) :
    extendedColor (operands ++ after) = some (color, consumed) ∧ consumed ≤ operands.length := by
  unfold extendedColor at h
  split at h
  · simp only [Option.bind_eq_bind, Option.pure_def] at h
    obtain ⟨index, hi, h⟩ := Option.bind_eq_some_iff.mp h
    cases h
    refine ⟨?_, by simp⟩
    simp only [List.cons_append, extendedColor, hi, Option.bind_eq_bind, Option.bind_some,
      Option.pure_def]
  · simp only [Option.bind_eq_bind, Option.pure_def] at h
    obtain ⟨red, hr, h⟩ := Option.bind_eq_some_iff.mp h
    obtain ⟨green, hg, h⟩ := Option.bind_eq_some_iff.mp h
    obtain ⟨blue, hb, h⟩ := Option.bind_eq_some_iff.mp h
    cases h
    refine ⟨?_, by simp⟩
    simp only [List.cons_append, extendedColor, hr, hg, hb, Option.bind_eq_bind, Option.bind_some,
      Option.pure_def]
  · cases h

/-- What both branches of a choice have, the choice has. -/
theorem ite_pen {P : (Pen → Option Pen) → Prop} {f f' : Pen → Option Pen} (c : Prop) [Decidable c]
    (h : P f) (h' : P f') : P fun pen => if c then f pen else f' pen := by
  by_cases hc : c
  · simpa only [if_pos hc] using h
  · simpa only [if_neg hc] using h'

/-- A value without effect, or one with an effect on every pen: then there is a pen that it never
leaves. No value sets the colour `.rgb r g b`. -/
def Effect (r g b : UInt8) (f : Pen → Option Pen) : Prop :=
  (∀ pen, f pen = none) ∨ ((∀ pen, f pen ≠ none) ∧
    ∃ left : Pen, left.foreground = .rgb r g b ∧ left.background = .rgb r g b ∧
      ∀ pen, f pen ≠ some left)

/-- An effect that no pen with some attributes has. -/
theorem Effect.some {r g b : UInt8} {f : Pen → Pen} (attributes : CellAttributes)
    (h : ∀ pen, f pen ≠ ⟨.rgb r g b, .rgb r g b, attributes, none⟩) :
    Effect r g b fun pen => some (f pen) :=
  .inr ⟨fun _ => Option.some_ne_none _, _, rfl, rfl, fun pen he => h pen (Option.some.inj he)⟩

theorem sgrPen_effect (r g b : UInt8) (n : UInt16) : Effect r g b (sgrPen n) := by
  have on : ∀ f : Pen → Pen, (∀ pen, f pen ≠ ⟨.rgb r g b, .rgb r g b, .plain, none⟩) →
      Effect r g b fun pen => some (f pen) := fun f => Effect.some .plain
  have off : ∀ f : Pen → Pen,
      (∀ pen, f pen ≠ ⟨.rgb r g b, .rgb r g b, ⟨true, true, true, true, true, true⟩, none⟩) →
      Effect r g b fun pen => some (f pen) := fun f => Effect.some _
  unfold sgrPen
  repeat' refine ite_pen (P := Effect r g b) _ ?_ ?_
  all_goals first
    | exact .inl fun _ => rfl
    | (refine on _ fun pen h => ?_; simp [CellAttributes.plain, Pen.plain] at h; done)
    | (refine off _ fun pen h => ?_; simp at h)

theorem sgr_pen (n : UInt16) (p : TerminalPerformer) :
    (TerminalPerformer.sgr n p).pen = (sgrPen n p.pen).getD p.pen := by
  unfold TerminalPerformer.sgr
  split
  · rename_i pen h
    rw [h]
    rfl
  · rename_i h
    rw [h]
    rfl

theorem sgrLoop_silent {after values : List UInt16} (h : Silent after values)
    (p : TerminalPerformer) :
    ∃ p', sgrLoop (values ++ after) p = sgrLoop after p' ∧ p'.pen = p.pen := by
  induction values generalizing p with
  | nil => exact ⟨p, rfl, rfl⟩
  | cons n rest ih =>
    obtain ⟨hn, hrest⟩ := h
    rw [List.cons_append, sgrLoop]
    split at hn
    · rename_i hhead
      rw [if_pos hhead, hn]
      exact ih hrest p.discarded
    · rename_i hhead
      rw [if_neg hhead]
      obtain ⟨p', hl, hp⟩ := ih hrest (TerminalPerformer.sgr n p)
      refine ⟨p', hl, hp.trans ?_⟩
      rcases sgrPen_effect 0 0 0 n with hnone | ⟨hsome, -⟩
      · rw [sgr_pen, hnone]
        rfl
      · exact absurd hn (hsome _)

theorem SgrUnit.apply_color (values : List UInt16) (foreground : Bool) (color : Color) (pen : Pen) :
    SgrUnit.apply ⟨values, .color foreground color⟩ pen =
      if foreground then { pen with foreground := color }
      else { pen with background := color } := by
  cases foreground <;> rfl

theorem pen_setColor (p : TerminalPerformer) (foreground : Bool) (color : Color) :
    (p.setColor foreground color).pen =
      if foreground then { p.pen with foreground := color }
      else { p.pen with background := color } := by
  cases foreground <;> rfl

/-- A group that is read as a group. -/
theorem sgrLoop_unit {after : List UInt16} {u : SgrUnit} (hf : u.Formed) (h : u.Reads after)
    (p : TerminalPerformer) :
    ∃ p', sgrLoop (u.values ++ after) p = sgrLoop after p' ∧ p'.pen = u.apply p.pen := by
  cases hf with
  | single hn =>
    refine ⟨TerminalPerformer.sgr _ p, ?_, sgr_pen _ p⟩
    rw [List.singleton_append, sgrLoop, if_neg hn]
  | @color n operands color hn hc =>
    obtain ⟨consumed, he, hs⟩ := h
    obtain ⟨he', hle⟩ := extendedColor_append he after
    obtain ⟨p', hl, hp⟩ := sgrLoop_silent hs (p.setColor (n = 38) color)
    refine ⟨p', ?_, hp.trans ((pen_setColor _ _ _).trans (SgrUnit.apply_color _ _ _ _).symm)⟩
    rw [List.tail_cons] at he' hle hl
    rw [List.cons_append, sgrLoop, if_pos hn, he']
    dsimp only
    rw [List.drop_append_of_le_length hle]
    exact hl
  | nothing => exact sgrLoop_silent h p

theorem sgrLoop_units {units : List SgrUnit} (hf : ∀ u ∈ units, u.Formed) (h : Readable units)
    (p : TerminalPerformer) :
    (sgrLoop (units.flatMap (·.values)) p).pen =
      units.foldl (fun pen u => u.apply pen) p.pen := by
  induction units generalizing p with
  | nil =>
    rw [List.flatMap_nil, sgrLoop]
    rfl
  | cons u rest ih =>
    obtain ⟨hu, hrest⟩ := List.forall_mem_cons.mp hf
    obtain ⟨p', hl, hp⟩ := sgrLoop_unit hu h.1 p
    rw [List.flatMap_cons, hl, ih hrest h.2 p', hp, List.foldl_cons]

/-- The values that `apply_sgr` reads. -/
theorem applySgr_eq (params : List (List UInt16)) (p : TerminalPerformer) :
    p.applySgr params.flatten = sgrLoop ((sgrUnits (sgrGroups params)).flatMap (·.values)) p := by
  rw [TerminalPerformer.applySgr, sgrUnits_values, sgrGroups]
  split <;> simp_all

/-! ## One group -/

/-- A pen that the values never leave. -/
def Unreached (values : List UInt16) : Prop := ∃ left : Pen, ∀ p, (sgrLoop values p).pen ≠ left

/-- The last value with an effect decides a part of the pen. -/
theorem silent_or_unreached (values : List UInt16) (p : TerminalPerformer) :
    Silent [] values ∨ Unreached values := by
  induction values, p using TerminalPerformer.sgrLoop.induct with
  | case1 p => exact .inl trivial
  | case2 n rest p hn color consumed hc ih =>
    right
    have hloop : ∀ q, sgrLoop (n :: rest) q =
        sgrLoop (rest.drop consumed) (q.setColor (n = 38) color) := by
      intro q
      rw [sgrLoop, if_pos hn, hc]
    rcases ih with hs | ⟨left, hleft⟩
    · -- The colour is the last one.
      have hpen : ∀ q, (sgrLoop (n :: rest) q).pen = (q.setColor (n = 38) color).pen := by
        intro q
        obtain ⟨q', hl, hq⟩ := sgrLoop_silent hs (q.setColor (n = 38) color)
        rw [List.append_nil] at hl
        rw [hloop, hl, sgrLoop, hq]
      obtain ⟨other, hother⟩ : ∃ other : Color, other ≠ color := by
        cases color with
        | default => exact ⟨.indexed 0, by simp⟩
        | indexed index => exact ⟨.default, by simp⟩
        | rgb red green blue => exact ⟨.default, by simp⟩
      refine ⟨⟨other, other, .plain, none⟩, fun q he => hother ?_⟩
      rw [hpen, pen_setColor] at he
      split at he
      · exact (congrArg Pen.foreground he).symm
      · exact (congrArg Pen.background he).symm
    · exact ⟨left, fun q he => hleft _ (by rw [← hloop]; exact he)⟩
  | case3 n rest p hn hc ih =>
    rcases ih with hs | ⟨left, hleft⟩
    · exact .inl ⟨by rw [if_pos hn, List.append_nil]; exact hc, hs⟩
    · refine .inr ⟨left, fun q he => hleft q.discarded ?_⟩
      rw [sgrLoop, if_pos hn, hc] at he
      exact he
  | case4 n rest p hn ih =>
    have hloop : ∀ q, sgrLoop (n :: rest) q = sgrLoop rest (TerminalPerformer.sgr n q) := by
      intro q
      rw [sgrLoop, if_neg hn]
    rcases ih with hs | ⟨left, hleft⟩
    · rcases sgrPen_effect 0 0 0 n with hnone | ⟨hsome, left, -, -, hleft⟩
      · exact .inl ⟨by rw [if_neg hn]; exact hnone _, hs⟩
      · refine .inr ⟨left, fun q he => ?_⟩
        obtain ⟨q', hl, hq⟩ := sgrLoop_silent hs (TerminalPerformer.sgr n q)
        rw [List.append_nil] at hl
        rw [hloop, hl, sgrLoop, hq, sgr_pen] at he
        obtain ⟨pen, hpen⟩ := Option.ne_none_iff_exists'.mp (hsome q.pen)
        rw [hpen] at he
        exact hleft q.pen (hpen.trans (congrArg some he))
    · exact .inr ⟨left, fun q he => hleft _ (by rw [← hloop]; exact he)⟩

/-- No colour of three components. -/
def Pen.NoRgb (pen : Pen) : Prop :=
  ∀ red green blue, pen.foreground ≠ .rgb red green blue ∧ pen.background ≠ .rgb red green blue

def KeepsNoRgb (f : Pen → Option Pen) : Prop :=
  ∀ pen pen', f pen = some pen' → pen.NoRgb → pen'.NoRgb

theorem sgrPen_noRgb (n : UInt16) : KeepsNoRgb (sgrPen n) := by
  unfold sgrPen
  repeat' refine ite_pen (P := KeepsNoRgb) _ ?_ ?_
  all_goals
    intro pen pen' h hp red green blue
    first
      | (cases h; exact hp red green blue)
      | (cases h; exact ⟨Color.noConfusion, Color.noConfusion⟩)
      | (cases h; exact ⟨Color.noConfusion, (hp red green blue).2⟩)
      | (cases h; exact ⟨(hp red green blue).1, Color.noConfusion⟩)
      | cases h

/-- A colour of three components needs five values. -/
theorem sgrLoop_noRgb {values : List UInt16} {p : TerminalPerformer} (h : values.length ≤ 4)
    (hp : p.pen.NoRgb) : (sgrLoop values p).pen.NoRgb := by
  fun_induction TerminalPerformer.sgrLoop values p with
  | case1 p => exact hp
  | case2 n rest p hn color consumed hc ih =>
    rw [List.length_cons] at h
    refine ih (by rw [List.length_drop]; omega) ?_
    have hcolor : ∀ red green blue, color ≠ .rgb red green blue := by
      rintro red green blue rfl
      unfold extendedColor at hc
      split at hc
      · simp only [Option.bind_eq_bind, Option.pure_def] at hc
        obtain ⟨index, -, hc⟩ := Option.bind_eq_some_iff.mp hc
        cases hc
      · simp at h
        omega
      · cases hc
    rw [pen_setColor]
    intro red green blue
    split
    · exact ⟨hcolor red green blue, (hp red green blue).2⟩
    · exact ⟨(hp red green blue).1, hcolor red green blue⟩
  | case3 n rest p hn hc ih =>
    rw [List.length_cons] at h
    exact ih (by omega) hp
  | case4 n rest p hn ih =>
    rw [List.length_cons] at h
    refine ih (by omega) ?_
    rw [sgr_pen]
    cases hs : sgrPen n p.pen with
    | none => exact hp
    | some pen => exact sgrPen_noRgb n _ _ hs hp

theorem extendedColor_of_colorOf {color : Color}
    (h : colorOf operands = some color) :
    extendedColor operands = some (color, operands.length) := by
  unfold colorOf at h
  split at h
  · simp only [Option.bind_eq_bind, Option.pure_def] at h
    obtain ⟨index, hi, h⟩ := Option.bind_eq_some_iff.mp h
    cases h
    simp [extendedColor, hi]
  · simp only [Option.bind_eq_bind, Option.pure_def] at h
    obtain ⟨r, hr, h⟩ := Option.bind_eq_some_iff.mp h
    obtain ⟨g, hg, h⟩ := Option.bind_eq_some_iff.mp h
    obtain ⟨b, hb, h⟩ := Option.bind_eq_some_iff.mp h
    cases h
    simp [extendedColor, hr, hg, hb]
  · cases h

/-- A colour after which one value stands alone. -/
theorem silent_of_single {n value : UInt16} {r g b : UInt8} {c : Color} {p : TerminalPerformer}
    (h : ∀ pen,
      (sgrLoop [value] (TerminalPerformer.setColor { p with pen := pen } (n = 38) c)).pen =
        SgrUnit.apply ⟨[], .color (n = 38) (.rgb r g b)⟩ pen) :
    c = .rgb r g b ∧ Silent [] [value] := by
  have hsilent : Silent [] [value] := by
    refine ⟨?_, trivial⟩
    split
    · rfl
    · rename_i hv
      rcases sgrPen_effect r g b value with hnone | ⟨hsome, left, hf, hb, hleft⟩
      · exact hnone _
      · -- The pen that already has the colour is not left by the value.
        have hl := h left
        rw [sgrLoop, if_neg hv, sgrLoop, sgr_pen, SgrUnit.apply_color] at hl
        have hsame : (if decide (n = 38) then { left with foreground := Color.rgb r g b }
            else { left with background := Color.rgb r g b }) = left := by
          split
          · rw [← hf]
          · rw [← hb]
        rw [hsame] at hl
        obtain ⟨pen, hpen⟩ := Option.ne_none_iff_exists'.mp (hsome
          (TerminalPerformer.setColor { p with pen := left } (n = 38) c).pen)
        rw [hpen] at hl
        exact absurd (hpen.trans (congrArg some hl)) (hleft _)
  refine ⟨?_, hsilent⟩
  obtain ⟨p', hl, hp⟩ := sgrLoop_silent hsilent
    (TerminalPerformer.setColor { p with pen := .plain } (n = 38) c)
  have hpen := h .plain
  rw [List.append_nil] at hl
  rw [hl, sgrLoop, hp, pen_setColor, SgrUnit.apply_color] at hpen
  split at hpen
  exacts [congrArg Pen.foreground hpen, congrArg Pen.background hpen]

/-- A group alone is read as it should be, whatever the pen is, exactly if the flat list reads it
as a group. -/
theorem unit_iff {u : SgrUnit} (hf : u.Formed) (p : TerminalPerformer) :
    (∀ pen, (sgrLoop u.values { p with pen := pen }).pen = u.apply pen) ↔ u.Reads [] := by
  refine ⟨fun h => ?_, fun h pen => ?_⟩
  swap
  · obtain ⟨p', hl, hp⟩ := sgrLoop_unit hf h { p with pen := pen }
    rw [List.append_nil] at hl
    rw [hl, sgrLoop, hp]
  cases hf with
  | single hn => trivial
  | @nothing values =>
    rcases silent_or_unreached values p with hs | ⟨left, hleft⟩
    · exact hs
    · exact absurd (h left) (hleft _)
  | @color n operands color hn hc =>
    unfold colonColorOf at hc
    split at hc
    · rename_i space red green blue
      simp only [Option.bind_eq_bind, Option.pure_def] at hc
      obtain ⟨r, hr, hc⟩ := Option.bind_eq_some_iff.mp hc
      obtain ⟨g, hg, hc⟩ := Option.bind_eq_some_iff.mp hc
      obtain ⟨b, hb, hc⟩ := Option.bind_eq_some_iff.mp hc
      cases hc
      -- The flat list takes the colour space for a component.
      have hspace : extendedColor [2, space, red, green, blue] =
          (u8TryFrom space).map fun s => (.rgb s r g, 4) := by
        simp only [extendedColor, hr, hg, Option.bind_eq_bind, Option.bind_some, Option.pure_def]
        cases u8TryFrom space <;> rfl
      cases hs : u8TryFrom space with
      | some s =>
        rw [hs, Option.map_some] at hspace
        have hloop : ∀ pen, (sgrLoop [blue]
            (TerminalPerformer.setColor { p with pen := pen } (n = 38) (.rgb s r g))).pen =
              SgrUnit.apply ⟨[], .color (n = 38) (.rgb r g b)⟩ pen := by
          intro pen
          have hpen := h pen
          rw [sgrLoop, if_pos hn, hspace] at hpen
          exact hpen
        obtain ⟨hcolor, hsilent⟩ := silent_of_single hloop
        exact ⟨4, hspace.trans (by rw [hcolor]), hsilent⟩
      | none =>
        rw [hs, Option.map_none] at hspace
        have hpen := h .plain
        have hno : (sgrLoop [n, 2, space, red, green, blue] { p with pen := .plain }).pen.NoRgb := by
          rw [sgrLoop, if_pos hn, hspace]
          dsimp only
          rw [sgrLoop, if_neg (by decide)]
          refine sgrLoop_noRgb (by simp) ?_
          rw [sgr_pen]
          exact fun red green blue => ⟨Color.noConfusion, Color.noConfusion⟩
        rw [hpen, SgrUnit.apply_color] at hno
        split at hno
        exacts [absurd rfl (hno r g b).1, absurd rfl (hno r g b).2]
    · refine ⟨operands.length, extendedColor_of_colorOf hc, ?_⟩
      rw [List.tail_cons, List.drop_length]
      trivial

theorem csiDispatch_sgr (params : List (List UInt16)) (p : TerminalPerformer) :
    (p.csiDispatch params [] false 'm').map (·.pen) =
      some (sgrLoop ((sgrUnits (sgrGroups params)).flatMap (·.values)) p).pen := by
  rw [← applySgr_eq]
  rfl

/-- Every sequence leaves the pen that its groups ask for, if the flat list reads each of them as a
group. For one group alone this is needed as well. -/
theorem sgr_law (params : List (List UInt16)) (p : TerminalPerformer) :
    (Readable (sgrUnits (sgrGroups params)) →
      (p.csiDispatch params [] false 'm').map (·.pen) = some (sgrReference params p.pen)) ∧
    ∀ u, sgrUnits (sgrGroups params) = [u] →
      ((∀ pen,
        (TerminalPerformer.csiDispatch params [] false 'm' { p with pen := pen }).map (·.pen) =
          some (sgrReference params pen)) ↔ Readable (sgrUnits (sgrGroups params))) := by
  have hf := sgrUnits_formed (sgrGroups params)
  refine ⟨fun h => ?_, fun u hu => ?_⟩
  · rw [csiDispatch_sgr, sgrLoop_units hf h, sgrReference]
  · rw [hu] at hf
    have hunit := unit_iff (hf u (List.mem_singleton_self u)) p
    have hread : Readable [u] ↔ u.Reads [] := and_iff_left trivial
    rw [hu, hread, ← hunit]
    refine forall_congr' fun pen => ?_
    rw [csiDispatch_sgr, sgrReference, hu, List.flatMap_singleton, Option.some.injEq,
      List.foldl_cons, List.foldl_nil]

/-- Bold, a colour in each form, one out of range, an underline colour without effect. -/
theorem sgr_law_colors :
    let p : TerminalPerformer :=
      ⟨.new ⟨1, 1, by decide, by decide⟩ 0, .plain, none, ⟨0, 0⟩, ⟨false, false, false, false⟩,
        .empty, 1⟩
    (p.csiDispatch [[1], [38], [5], [200], [48, 2, 10, 20, 30], [38], [5], [300], [58, 5, 8]] []
      false 'm').map (·.pen) =
      some { Pen.plain with
        foreground := .indexed 200
        background := .rgb 10 20 30
        attributes.bold := true } := by
  intro p
  have hunits : sgrUnits (sgrGroups
      [[1], [38], [5], [200], [48, 2, 10, 20, 30], [38], [5], [300], [58, 5, 8]]) =
      [⟨[1], .single 1⟩, ⟨[38, 5, 200], .color true (.indexed 200)⟩,
        ⟨[48, 2, 10, 20, 30], .color false (.rgb 10 20 30)⟩, ⟨[38, 5, 300], .nothing⟩,
        ⟨[58, 5, 8], .nothing⟩] := by decide +kernel
  refine ((sgr_law _ p).1 ?_).trans (by decide +kernel)
  rw [hunits]
  refine ⟨trivial, ⟨2, by decide, trivial⟩, ⟨4, by decide, trivial⟩, ?_, ?_, trivial⟩
  · exact ⟨by decide, by decide, by decide, trivial⟩
  · exact ⟨by decide, by decide, by decide, trivial⟩

/-- A curly underline is read as an underline and as italic, and a colour space as red. -/
theorem curly_italic :
    let p : TerminalPerformer :=
      ⟨.new ⟨1, 1, by decide, by decide⟩ 0, .plain, none, ⟨0, 0⟩, ⟨false, false, false, false⟩,
        .empty, 1⟩
    (p.csiDispatch [[4, 3]] [] false 'm').map (·.pen) =
        some { Pen.plain with attributes.underline := true, attributes.italic := true } ∧
      (p.csiDispatch [[4, 3]] [] false 'm').map (·.pen) ≠ some (sgrReference [[4, 3]] p.pen) ∧
      (p.csiDispatch [[38, 2, 0, 10, 20, 30]] [] false 'm').map (·.pen) ≠
        some (sgrReference [[38, 2, 0, 10, 20, 30]] p.pen) := by
  decide +kernel

end Strukt
