import Strukt.Terminal.Parser

/-!
# The status that Git reports

`git status --porcelain=v2 -z` writes records that end in NUL, a renamed one over two fields.
`parseStatus` reads them in turn and counts.

* **Records** (`Record`): what Git writes, of any bytes without NUL. A head is its text: that of a
  detached head is one a branch could have too.
* **In step** (`parseRecords_render`): reading one rendered record leaves those after it, whatever
  its paths look like.
* **The law** (`parse_law`): the counts are those of the records, unless a head is not UTF-8.
-/

namespace Strukt

structure RemoteGitSummary where
  branch : Option String
  detached : Bool
  staged : Nat
  modified : Nat
  untracked : Nat
  deriving DecidableEq

/-- `RemoteGitSummary::default()`. -/
def RemoteGitSummary.empty : RemoteGitSummary := ⟨none, false, 0, 0, 0⟩

inductive GitError where
  | unavailable
  | notRepository
  | outputTooLarge
  | invalidOutput
  deriving DecidableEq

/-- `"# branch.head "`. -/
def headTag : List UInt8 := 35 :: " branch.head ".toUTF8.data.toList

/-- `record.get(2..4)`. -/
def statusOf : List UInt8 → Option (UInt8 × UInt8)
  | _ :: _ :: x :: y :: _ => some (x, y)
  | _ => none

/-- The summary with one record more. The flag says that the next field belongs to it. The counts do
not saturate: a slice has fewer records than `usize::MAX`. -/
def readRecord (summary : RemoteGitSummary) (record : List UInt8) :
    Except GitError (RemoteGitSummary × Bool) :=
  if record = [] then .ok (summary, false)
  else match record.dropPrefix? headTag with
  | some branch =>
    match fromUtf8 branch with
    | none => .error .invalidOutput
    | some branch =>
      if branch = "(detached)" then .ok ({ summary with detached := true }, false)
      else .ok ({ summary with branch := some branch }, false)
  | none =>
    match record.head? with
    | some 63 => .ok ({ summary with untracked := summary.untracked + 1 }, false)
    | some 35 | some 33 => .ok (summary, false)
    | some kind =>
      if kind = 49 ∨ kind = 50 ∨ kind = 117 then
        match statusOf record with
        | none => .error .invalidOutput
        | some (x, y) =>
          .ok ({ summary with
            staged := if x ≠ 46 then summary.staged + 1 else summary.staged
            modified := if y ≠ 46 then summary.modified + 1 else summary.modified }, kind = 50)
      else .error .invalidOutput
    | none => .error .invalidOutput

def parseRecords (summary : RemoteGitSummary) : List (List UInt8) → Except GitError RemoteGitSummary
  | [] => .ok summary
  | record :: records =>
    match readRecord summary record with
    | .error e => .error e
    | .ok (summary, paired) => parseRecords summary (if paired then records.drop 1 else records)
  termination_by records => records.length
  decreasing_by
    split
    · simp only [List.length_drop, List.length_cons]; omega
    · exact Nat.lt_succ_self _

def parseStatus (output : List UInt8) : Except GitError RemoteGitSummary :=
  parseRecords .empty (output.splitOn 0)

/-! ## Records -/

/-- Bytes without NUL. -/
abbrev Text := {bytes : List UInt8 // 0 ∉ bytes}

abbrev StatusCode := {code : UInt8 // code ≠ 0}

/-- The two codes of a changed path. -/
structure Change where
  index : StatusCode
  worktree : StatusCode
  fields : Text
  path : Text

inductive Record where
  | head (name : Text)
  | header (text : Text) (other : ¬ headTag <+: 35 :: text.val)
  | ordinary (change : Change)
  | renamed (change : Change) (origPath : Text)
  | unmerged (change : Change)
  | untracked (path : Text)
  | ignored (path : Text)

/-- A change's field, after the letter of its kind. -/
def Change.render (c : Change) (kind : UInt8) : List UInt8 :=
  kind :: 32 :: c.index.val :: c.worktree.val :: 32 :: (c.fields.val ++ 32 :: c.path.val)

namespace Record

/-- The record up to its first NUL. -/
def field : Record → List UInt8
  | head name => headTag ++ name.val
  | header text _ => 35 :: text.val
  | ordinary change => change.render 49
  | renamed change _ => change.render 50
  | unmerged change => change.render 117
  | untracked path => 63 :: 32 :: path.val
  | ignored path => 33 :: 32 :: path.val

def render : Record → List UInt8
  | renamed change origPath => change.render 50 ++ 0 :: (origPath.val ++ [0])
  | r => r.field ++ [0]

def headName : Record → Option (List UInt8)
  | head name => some name.val
  | _ => none

def change? : Record → Option Change
  | ordinary change | renamed change _ | unmerged change => some change
  | _ => none

/-- The index has a change of the path. -/
def isStaged (r : Record) : Bool := r.change?.any fun c => c.index.val ≠ 46

/-- The worktree has a change of the path. -/
def isModified (r : Record) : Bool := r.change?.any fun c => c.worktree.val ≠ 46

def isUntracked : Record → Bool
  | untracked _ => true
  | _ => false

/-- The record has a second field. -/
def isRenamed : Record → Bool
  | renamed .. => true
  | _ => false

end Record

/-- The texts of the records' heads, where each is UTF-8. -/
def headNames (records : List Record) : Option (List String) :=
  (records.filterMap Record.headName).mapM fromUtf8

/-- What the records say, from what was said before them. -/
def RemoteGitSummary.over (summary : RemoteGitSummary) (records : List Record)
    (heads : List String) : RemoteGitSummary where
  branch := (heads.filter (· ≠ "(detached)")).getLast?.or summary.branch
  detached := summary.detached || "(detached)" ∈ heads
  staged := summary.staged + records.countP Record.isStaged
  modified := summary.modified + records.countP Record.isModified
  untracked := summary.untracked + records.countP Record.isUntracked

namespace Record

/-! ## One record -/

theorem zero_notMem_field (r : Record) : 0 ∉ r.field := by
  have hchange : ∀ (c : Change) (kind : UInt8), kind ≠ 0 → 0 ∉ c.render kind := by
    intro c kind hkind h
    simp only [Change.render, List.mem_cons, List.mem_append] at h
    obtain h | h | h | h | h | h | h | h := h
    · exact hkind h.symm
    · cases h
    · exact c.index.2 h.symm
    · exact c.worktree.2 h.symm
    · cases h
    · exact c.fields.2 h
    · cases h
    · exact c.path.2 h
  cases r with
  | head name =>
    intro h
    obtain h | h := List.mem_append.mp h
    · revert h
      decide
    · exact name.2 h
  | header text other =>
    intro h
    obtain h | h := List.mem_cons.mp h
    · cases h
    · exact text.2 h
  | ordinary change => exact hchange change 49 (by decide)
  | renamed change origPath => exact hchange change 50 (by decide)
  | unmerged change => exact hchange change 117 (by decide)
  | untracked path =>
    intro h
    obtain h | h | h := (List.mem_cons.trans (or_congr_right List.mem_cons)).mp h
    · cases h
    · cases h
    · exact path.2 h
  | ignored path =>
    intro h
    obtain h | h | h := (List.mem_cons.trans (or_congr_right List.mem_cons)).mp h
    · cases h
    · cases h
    · exact path.2 h

theorem field_ne_nil (r : Record) : r.field ≠ [] := by
  cases r <;> exact List.cons_ne_nil _ _

/-- Only a head's field has the head's tag. -/
theorem dropPrefix_field (r : Record) : r.field.dropPrefix? headTag = r.headName := by
  have hnone : ∀ l : List UInt8, ¬ headTag <+: l → l.dropPrefix? headTag = none := by
    intro l hl
    rw [Option.eq_none_iff_forall_ne_some]
    intro rest h
    obtain ⟨front, rfl, hfront⟩ := List.dropPrefix?_eq_some_iff.mp h
    exact hl ⟨rest, by rw [eq_of_beq hfront]⟩
  have hkind : ∀ (kind : UInt8) (l : List UInt8), kind ≠ 35 → ¬ headTag <+: kind :: l := by
    rintro kind l hne ⟨rest, h⟩
    exact hne (List.cons.inj h).1.symm
  cases r with
  | head name =>
    exact List.dropPrefix?_eq_some_iff.mpr ⟨headTag, rfl, beq_self_eq_true _⟩
  | header text other => exact hnone _ other
  | ordinary change => exact hnone _ (hkind _ _ (by decide))
  | renamed change origPath => exact hnone _ (hkind _ _ (by decide))
  | unmerged change => exact hnone _ (hkind _ _ (by decide))
  | untracked path => exact hnone _ (hkind _ _ (by decide))
  | ignored path => exact hnone _ (hkind _ _ (by decide))

end Record

theorem headNames_nil : headNames [] = some [] := rfl

theorem headNames_cons (r : Record) (records : List Record) :
    headNames (r :: records) =
      match r.headName with
      | none => headNames records
      | some name => (fromUtf8 name).bind fun text => (headNames records).map (text :: ·) := by
  unfold headNames
  rw [List.filterMap_cons]
  cases r.headName with
  | none => rfl
  | some name =>
    simp only [List.mapM_cons]
    cases fromUtf8 name with
    | none => rfl
    | some text => cases List.mapM fromUtf8 (records.filterMap Record.headName) <;> rfl

theorem over_cons (summary : RemoteGitSummary) (r : Record) (records : List Record)
    (heads heads' : List String) :
    (summary.over [r] heads).over records heads' = summary.over (r :: records) (heads ++ heads') := by
  simp only [RemoteGitSummary.over, RemoteGitSummary.mk.injEq, List.filter_append,
    List.getLast?_append, Option.or_assoc, List.countP_cons, List.countP_nil, List.mem_append,
    true_and, Bool.or_assoc, Bool.decide_or]
  omega

theorem over_singleton (summary : RemoteGitSummary) (r : Record) :
    summary.over [r] [] =
      { summary with
        staged := summary.staged + if r.isStaged then 1 else 0
        modified := summary.modified + if r.isModified then 1 else 0
        untracked := summary.untracked + if r.isUntracked then 1 else 0 } := by
  simp only [RemoteGitSummary.over, List.countP_singleton, List.filter_nil, List.getLast?_nil,
    Option.none_or, List.not_mem_nil, decide_false, Bool.or_false]

/-- A changed path's field is counted by its codes. -/
theorem readRecord_change (summary : RemoteGitSummary) {r : Record} {c : Change} {kind : UInt8}
    (hc : r.change? = some c) (hfield : r.field = c.render kind)
    (hkind : kind = 49 ∨ kind = 50 ∨ kind = 117) (hname : r.headName = none) :
    readRecord summary r.field = .ok (summary.over [r] [], kind = 50) := by
  have hdrop := r.dropPrefix_field
  have huntracked : r.isUntracked = false := by
    cases r with
    | untracked => cases hc
    | _ => rfl
  rw [hfield, hname] at hdrop
  have hhead : (c.render kind).head? = some kind := rfl
  have hstatus : statusOf (c.render kind) = some (c.index.val, c.worktree.val) := rfl
  unfold readRecord
  rw [if_neg r.field_ne_nil, hfield, hdrop, hhead, over_singleton, huntracked]
  simp only [Record.isStaged, Record.isModified, hc, Option.any_some, decide_eq_true_eq,
    Bool.false_eq_true, if_false]
  obtain rfl | rfl | rfl := hkind
  all_goals
    simp only [hstatus]
    split_ifs <;> rfl

/-- A record's field read: only a renamed one takes the next field too. -/
theorem readRecord_field (summary : RemoteGitSummary) (r : Record) :
    readRecord summary r.field =
      match headNames [r] with
      | none => .error .invalidOutput
      | some heads => .ok (summary.over [r] heads, r.isRenamed) := by
  have hdrop := r.dropPrefix_field
  rw [headNames_cons]
  cases r with
  | head name =>
    unfold readRecord
    rw [if_neg (Record.field_ne_nil _), hdrop]
    simp only [Record.headName]
    cases fromUtf8 name.val with
    | none => rfl
    | some text =>
      by_cases htext : text = "(detached)"
      · subst htext
        simp [headNames, RemoteGitSummary.over, Record.isStaged,
          Record.isModified, Record.change?, Record.isUntracked, Record.isRenamed]
      · have hmem : ¬ "(detached)" = text := fun h => htext h.symm
        simp [htext, hmem, headNames, RemoteGitSummary.over, Record.isStaged,
          Record.isModified, Record.change?, Record.isUntracked, Record.isRenamed]
  | header text other =>
    unfold readRecord
    rw [hdrop, if_neg (Record.field_ne_nil _)]
    simp only [Record.headName, headNames_nil, over_singleton]
    rfl
  | ordinary change => exact readRecord_change summary rfl rfl (.inl rfl) rfl
  | renamed change origPath => exact readRecord_change summary rfl rfl (.inr (.inl rfl)) rfl
  | unmerged change => exact readRecord_change summary rfl rfl (.inr (.inr rfl)) rfl
  | untracked path =>
    unfold readRecord
    rw [hdrop, if_neg (Record.field_ne_nil _)]
    simp only [Record.headName, headNames_nil, over_singleton]
    rfl
  | ignored path =>
    unfold readRecord
    rw [hdrop, if_neg (Record.field_ne_nil _)]
    simp only [Record.headName, headNames_nil, over_singleton]
    rfl

/-! ## All records -/

theorem parseRecords_nil (summary : RemoteGitSummary) : parseRecords summary [] = .ok summary := by
  unfold parseRecords
  rfl

theorem parseRecords_cons (summary : RemoteGitSummary) (record : List UInt8)
    (records : List (List UInt8)) :
    parseRecords summary (record :: records) =
      match readRecord summary record with
      | .error e => .error e
      | .ok (summary, paired) => parseRecords summary (if paired then records.drop 1 else records) := by
  rw [parseRecords]

/-- The fields of a record stand first, and the rest is read on where the next one begins. -/
theorem splitOn_render (r : Record) (rest : List UInt8) :
    ∃ fields, (r.render ++ rest).splitOn 0 = r.field :: fields ∧
      (if r.isRenamed then fields.drop 1 else fields) = rest.splitOn 0 := by
  have hsplit : ∀ rest', (r.field ++ 0 :: rest').splitOn 0 = r.field :: rest'.splitOn 0 :=
    List.splitOn_append_cons_self_of_not_mem r.zero_notMem_field
  cases r with
  | renamed change origPath =>
    refine ⟨origPath.val :: rest.splitOn 0, ?_, rfl⟩
    have hrender : (Record.renamed change origPath).render ++ rest =
        (Record.renamed change origPath).field ++ 0 :: (origPath.val ++ 0 :: rest) := by
      simp only [Record.render, Record.field, List.append_assoc, List.cons_append, List.nil_append]
    rw [hrender, hsplit, List.splitOn_append_cons_self_of_not_mem origPath.2]
  | _ =>
    refine ⟨rest.splitOn 0, ?_, rfl⟩
    rw [Record.render, List.append_assoc, List.singleton_append, hsplit]
    all_goals simp

theorem parseRecords_render (summary : RemoteGitSummary) (records : List Record) :
    parseRecords summary ((records.flatMap Record.render).splitOn 0) =
      match headNames records with
      | none => .error .invalidOutput
      | some heads => .ok (summary.over records heads) := by
  induction records generalizing summary with
  | nil =>
    -- The last record's NUL leaves an empty field behind it.
    have hread : readRecord summary [] = .ok (summary, false) := if_pos rfl
    rw [List.flatMap_nil, List.splitOn_nil, parseRecords_cons, hread]
    simp only [Bool.false_eq_true, if_false, parseRecords_nil, headNames_nil, RemoteGitSummary.over,
      List.filter_nil, List.getLast?_nil, Option.none_or, List.not_mem_nil, decide_false,
      Bool.or_false, List.countP_nil, Nat.add_zero]
  | cons r records ih =>
    obtain ⟨fields, hfields, hrest⟩ := splitOn_render r (records.flatMap Record.render)
    rw [List.flatMap_cons, hfields, parseRecords_cons, readRecord_field, headNames_cons,
      headNames_cons r records, headNames_nil]
    cases r.headName with
    | none =>
      simp only [hrest, ih]
      cases headNames records with
      | none => rfl
      | some heads => exact congrArg Except.ok (over_cons summary r records [] heads)
    | some name =>
      dsimp only
      cases fromUtf8 name with
      | none => rfl
      | some text =>
        simp only [Option.bind_some, Option.map_some, hrest, ih]
        cases headNames records with
        | none => rfl
        | some heads => exact congrArg Except.ok (over_cons summary r records [text] heads)

/-- The summary of the records that Git reports: the branch is that of the last head that has one,
and the counts are exact. A head that is not UTF-8 is an error. -/
theorem parse_law (records : List Record) :
    parseStatus (records.flatMap Record.render) =
      match headNames records with
      | none => .error .invalidOutput
      | some heads =>
        .ok {
          branch := (heads.filter (· ≠ "(detached)")).getLast?
          detached := "(detached)" ∈ heads
          staged := records.countP Record.isStaged
          modified := records.countP Record.isModified
          untracked := records.countP Record.isUntracked } := by
  unfold parseStatus
  rw [parseRecords_render]
  cases headNames records with
  | none => rfl
  | some heads =>
    simp only [RemoteGitSummary.over, RemoteGitSummary.empty, Option.or_none, Bool.false_or,
      Nat.zero_add]

/-- A branch may have a name of other bytes. -/
theorem parse_invalid_head :
    parseStatus (Record.render (.head ⟨[0xff], of_decide_eq_true rfl⟩)) = .error .invalidOutput := by
  have h := parseRecords_render .empty [.head ⟨[0xff], of_decide_eq_true rfl⟩]
  rw [List.flatMap_singleton] at h
  exact h

end Strukt
