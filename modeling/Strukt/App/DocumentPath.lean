import Strukt.App.EditorDesk
import Strukt.Lib.Split

/-!
# Normalized document paths

`RelativeDocumentPath::new` checks the text that it is given and then takes the components `.` out of
it.

* **Components**: a path that is accepted has components, and none of them is empty, `.` or `..`; so
  it is not absolute.
* **The law** (`path_law`): the drive prefix is looked for before the leading `.` components go. A
  path is accepted again, as it is, exactly if its first component does not begin like a drive;
  `./C:/x` is accepted as `C:/x` (`drive_behind_dot`).
-/

namespace Strukt

namespace RelativeDocumentPath

/-- The text with slashes alone, as it is checked. -/
def slashed (path : String) : List Char := path.toList.map fun c => if c = '\\' then '/' else c

/-- The byte behind the first one is a colon. -/
def drivePrefixed : List Char → Bool
  | a :: ':' :: _ => a.utf8Size = 1
  | _ => false

/-- The components that are kept. -/
def keptComponents (path : String) : List (List Char) :=
  ((slashed path).splitOn '/').filter (· ≠ ['.'])

/-- The first component other than `.` does not begin like a drive. -/
def NoDriveBehindDots (path : String) : Prop :=
  ∀ component ∈ (keptComponents path).head?, drivePrefixed component = false

instance (path : String) : Decidable (NoDriveBehindDots path) :=
  inferInstanceAs (Decidable (∀ component ∈ (keptComponents path).head?, _))

variable {path : String} {p : RelativeDocumentPath} {kept : List (List Char)}

theorem new_eq (path : String) : RelativeDocumentPath.new path =
    if (slashed path).isEmpty || (slashed path).head? = some '/' || drivePrefixed (slashed path) ||
      ((slashed path).splitOn '/').any (fun c => c = [] ∨ c = ['.', '.']) then none
    else if (['/'].intercalate (keptComponents path)).isEmpty then none
    else some ⟨String.ofList (['/'].intercalate (keptComponents path))⟩ := rfl

theorem new_eq_some : RelativeDocumentPath.new path = some p ↔
    slashed path ≠ [] ∧ (slashed path).head? ≠ some '/' ∧ drivePrefixed (slashed path) = false ∧
      (∀ c ∈ (slashed path).splitOn '/', c ≠ [] ∧ c ≠ ['.', '.']) ∧
      ['/'].intercalate (keptComponents path) ≠ [] ∧
      p = ⟨String.ofList (['/'].intercalate (keptComponents path))⟩ := by
  rw [new_eq]
  split
  · next h =>
    simp only [reduceCtorEq, false_iff]
    rintro ⟨hempty, habsolute, hdrive, hcomponents, -⟩
    simp only [Bool.or_eq_true, List.isEmpty_iff, decide_eq_true_eq, List.any_eq_true] at h
    obtain ((h | h) | h) | ⟨c, hc, h⟩ := h
    · exact hempty h
    · exact habsolute h
    · rw [hdrive] at h
      cases h
    · exact h.elim (hcomponents c hc).1 (hcomponents c hc).2
  · next h =>
    simp only [Bool.or_eq_true, List.isEmpty_iff, decide_eq_true_eq, List.any_eq_true,
      not_or] at h
    obtain ⟨⟨⟨hempty, habsolute⟩, hdrive⟩, hcomponents⟩ := h
    have hall : ∀ c ∈ (slashed path).splitOn '/', c ≠ [] ∧ c ≠ ['.', '.'] := fun c hc =>
      not_or.mp fun hbad => hcomponents ⟨c, hc, hbad⟩
    rw [Bool.not_eq_true] at hdrive
    split
    · next hjoined =>
      simp only [reduceCtorEq, false_iff]
      rintro ⟨-, -, -, -, hne, -⟩
      exact hne (List.isEmpty_iff.mp hjoined)
    · next hjoined =>
      rw [List.isEmpty_iff] at hjoined
      refine ⟨fun heq => ?_, fun ⟨_, _, _, _, _, heq⟩ => congrArg some heq.symm⟩
      cases heq
      exact ⟨hempty, habsolute, hdrive, hall, hjoined, rfl⟩

/-! ## What a path consists of -/

/-- The components of an accepted path. -/
structure Normal (kept : List (List Char)) : Prop where
  ne_nil : kept ≠ []
  plain : ∀ c ∈ kept, c ≠ [] ∧ c ≠ ['.'] ∧ c ≠ ['.', '.']
  no_slash : ∀ c ∈ kept, '/' ∉ c
  no_backslash : ∀ c ∈ kept, '\\' ∉ c

theorem no_backslash_slashed (path : String) : '\\' ∉ slashed path := by
  intro h
  obtain ⟨c, -, hc⟩ := List.mem_map.mp h
  split at hc
  · cases hc
  · next hne => exact hne hc

theorem normal_of_new (h : RelativeDocumentPath.new path = some p) :
    Normal (keptComponents path) ∧
      p.value = String.ofList (['/'].intercalate (keptComponents path)) := by
  obtain ⟨-, -, -, hcomponents, hne, rfl⟩ := new_eq_some.mp h
  refine ⟨⟨fun hnil => hne (by rw [hnil]; rfl), fun c hc => ?_, fun c hc => ?_, fun c hc => ?_⟩,
    rfl⟩
  · obtain ⟨hc, hdot⟩ := List.mem_filter.mp hc
    exact ⟨(hcomponents c hc).1, of_decide_eq_true hdot, (hcomponents c hc).2⟩
  · exact not_mem_of_mem_splitOn c (List.mem_of_mem_filter hc)
  · exact fun hmem => no_backslash_slashed path
      ((mem_iff_mem_splitOn (by decide)).mpr ⟨c, List.mem_of_mem_filter hc, hmem⟩)

theorem Normal.splitOn (h : Normal kept) : (['/'].intercalate kept).splitOn '/' = kept :=
  List.splitOn_intercalate '/' h.no_slash h.ne_nil

theorem Normal.slashed (h : Normal kept) :
    slashed (String.ofList (['/'].intercalate kept)) = ['/'].intercalate kept := by
  unfold RelativeDocumentPath.slashed
  rw [String.toList_ofList]
  refine (List.map_congr_left fun c hc => if_neg ?_).trans (List.map_id _)
  rintro rfl
  obtain ⟨l, hl, hmem⟩ := (mem_iff_mem_splitOn (a := '/') (by decide)).mp hc
  rw [h.splitOn] at hl
  exact h.no_backslash l hl hmem

/-- The first component is at the front. -/
theorem Normal.front (h : Normal kept) : ∃ x first rest, kept.head? = some (x :: first) ∧ x ≠ '/' ∧
    ['/'].intercalate kept = x :: first ++ rest ∧ ∀ c ∈ rest.head?, c = '/' := by
  obtain ⟨component, others, hkept⟩ := List.exists_cons_of_ne_nil h.ne_nil
  have hmem : component ∈ kept := hkept ▸ List.mem_cons_self
  obtain ⟨x, first, rfl⟩ := List.exists_cons_of_ne_nil (h.plain component hmem).1
  have hx : x ≠ '/' := fun hx => h.no_slash _ hmem (hx ▸ List.mem_cons_self)
  rw [hkept]
  cases others with
  | nil => exact ⟨x, first, [], rfl, hx, by rw [List.intercalate_singleton, List.append_nil], nofun⟩
  | cons second others =>
    refine ⟨x, first, '/' :: ['/'].intercalate (second :: others), rfl, hx, ?_, fun c hc => ?_⟩
    · rw [List.intercalate_cons_cons]
      simp
    · exact (Option.some.inj hc).symm

theorem drivePrefixed_cons (x y : Char) (l : List Char) :
    drivePrefixed (x :: y :: l) = decide (y = ':' ∧ x.utf8Size = 1) := by
  unfold drivePrefixed
  split
  · next heq =>
    cases heq
    simp
  · next hne =>
    have hy : y ≠ ':' := fun hy => hne x l (hy ▸ rfl)
    simp [hy]

theorem drivePrefixed_append {x : Char} {first rest : List Char} (h : ∀ c ∈ rest.head?, c = '/') :
    drivePrefixed (x :: first ++ rest) = drivePrefixed (x :: first) := by
  cases first with
  | cons y first => rw [List.cons_append, List.cons_append, drivePrefixed_cons, drivePrefixed_cons]
  | nil =>
    cases rest with
    | nil => rfl
    | cons c rest =>
      obtain rfl := h c rfl
      rfl

/-! ## The law -/

theorem path_law (h : RelativeDocumentPath.new path = some p) :
    (p.value ≠ "" ∧ p.value.toList.head? ≠ some '/' ∧
      ∀ c ∈ p.value.toList.splitOn '/', c ≠ [] ∧ c ≠ ['.'] ∧ c ≠ ['.', '.']) ∧
    ((RelativeDocumentPath.new p.value = some p ∧ drivePrefixed p.value.toList = false) ↔
      NoDriveBehindDots path) := by
  obtain ⟨hnormal, hvalue⟩ := normal_of_new h
  obtain ⟨x, first, rest, hhead, hx, hjoined, hrest⟩ := hnormal.front
  have htext : p.value.toList = ['/'].intercalate (keptComponents path) := by
    rw [hvalue, String.toList_ofList]
  have hslashed : slashed p.value = ['/'].intercalate (keptComponents path) := by
    rw [hvalue]
    exact hnormal.slashed
  have hdrive : drivePrefixed (['/'].intercalate (keptComponents path)) = false ↔
      NoDriveBehindDots path := by
    rw [hjoined, drivePrefixed_append hrest]
    unfold NoDriveBehindDots
    rw [hhead]
    exact ⟨fun h c hc => Option.some.inj hc ▸ h, fun h => h _ rfl⟩
  have hkept : keptComponents p.value = keptComponents path := by
    rw [keptComponents, hslashed, hnormal.splitOn]
    exact List.filter_eq_self.mpr fun c hc => decide_eq_true (hnormal.plain c hc).2.1
  rw [htext]
  refine ⟨⟨fun hempty => ?_, ?_, fun c hc => ?_⟩, fun h => hdrive.mp h.2, fun hno => ⟨?_, ?_⟩⟩
  · rw [hempty, hjoined] at htext
    cases htext
  · rw [hjoined]
    exact fun hslash => hx (Option.some.inj hslash)
  · rw [hnormal.splitOn] at hc
    exact hnormal.plain c hc
  · rw [new_eq_some, hslashed, hkept, hnormal.splitOn]
    refine ⟨?_, ?_, hdrive.mpr hno, fun c hc => ⟨(hnormal.plain c hc).1, (hnormal.plain c hc).2.2⟩,
      ?_, ?_⟩
    · rw [hjoined]
      exact List.cons_ne_nil _ _
    · rw [hjoined]
      exact fun hslash => hx (Option.some.inj hslash)
    · rw [hjoined]
      exact List.cons_ne_nil _ _
    · cases p
      exact congrArg RelativeDocumentPath.mk hvalue
  · exact hdrive.mpr hno

/-- A path with both separators and a `.` in it. -/
theorem path_law_dots : RelativeDocumentPath.new ".\\src/./a:b" = some ⟨"src/a:b"⟩ ∧
    RelativeDocumentPath.new "src/a:b" = some ⟨"src/a:b"⟩ :=
  have h : RelativeDocumentPath.new ".\\src/./a:b" = some ⟨"src/a:b"⟩ := by decide
  ⟨h, ((path_law h).2.mpr (by decide)).1⟩

/-- A drive behind a `.` is accepted, and the path that it gives is not. -/
theorem drive_behind_dot : ¬ ∀ (path : String) (p : RelativeDocumentPath),
    RelativeDocumentPath.new path = some p →
      RelativeDocumentPath.new p.value = some p ∧ drivePrefixed p.value.toList = false := by
  intro h
  have hnew : RelativeDocumentPath.new "./C:/x" = some ⟨"C:/x"⟩ := by decide
  have hdrive : drivePrefixed "C:/x".toList = true := by decide
  rw [(h "./C:/x" _ hnew).2] at hdrive
  cases hdrive

end RelativeDocumentPath
end Strukt
