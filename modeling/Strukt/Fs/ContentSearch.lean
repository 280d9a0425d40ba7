import Strukt.Bytes
import Strukt.Fs.Discovery
import Strukt.Lib.Split

/-!
# Search in the contents of a workspace

`searchContentInner` looks for a needle in the lines of the discovered files, within a budget of
bytes for all files and a limit for each.

* **Files** (`SearchedFile`): what each step on a file gives, which need not fit what another step
  gave. A file that is away by then is skipped, and any other error ends the search.
* **Reference** (`matchingLines`): the lines of a text that contain the needle, with their numbers.
* **The law** (`search_law`): the matches are the first of the lines of the files that were read as
  text, and where the result is not truncated, these are all files.

The search is not cancelled, and the root stays where it is.
-/

namespace Strukt.Fs

open Strukt.Language (IoErrorKind)

structure SearchOptions where
  maxResults : Nat
  maxFileBytes : Nat
  deriving DecidableEq

structure SearchMatch where
  relativePath : PathBuf
  line : Nat
  preview : List Char
  deriving DecidableEq

structure SearchResult where
  found : List SearchMatch
  truncated : Bool
  deriving DecidableEq

def maxTotalSearchBytes : Nat := 64 * 1024 * 1024

def maxPreviewBytes : Nat := 512

def ellipsis : Char := '…'

structure Metadata where
  isFile : Bool
  len : Nat
  deriving DecidableEq

/-- What the steps on a file give. -/
structure SearchedFile where
  symlinkMetadata : Except IoErrorKind Metadata
  openForSearch : Except IoErrorKind Unit
  metadata : Except IoErrorKind Metadata
  /-- What each read gives, as far as the buffer takes it. -/
  reads : List (Except IoErrorKind (List UInt8))

/-! ## Lines -/

/-- A line without its end. -/
def stripLineEnd (line : List Char) : List Char :=
  if line.getLast? = some '\n' then
    if line.dropLast.getLast? = some '\r' then line.dropLast.dropLast else line.dropLast
  else line

/-- `str::lines`. -/
def textLines (text : List Char) : List (List Char) := (splitInclusive '\n' text).map stripLineEnd

def boundedPreview (line : List Char) : List Char :=
  if byteLen line ≤ maxPreviewBytes then line
  else takeBytes (maxPreviewBytes - ellipsis.utf8Size) line ++ [ellipsis]

/-! ## The search -/

def classifyEntryIo {α : Type} : Except IoErrorKind α → Except IoErrorKind (Option α)
  | .ok value => .ok (some value)
  | .error .notFound => .ok none
  | .error error => .error error

/-- The loop of reads, with what `take` leaves of the limit. -/
def readLoop : Nat → List UInt8 → List (Except IoErrorKind (List UInt8)) →
    List UInt8 × Except IoErrorKind Unit
  | _, bytes, [] => (bytes, .ok ())
  | 0, bytes, _ => (bytes, .ok ())
  | _ + 1, bytes, .error error :: _ => (bytes, .error error)
  | room + 1, bytes, .ok chunk :: rest =>
    if chunk = [] then (bytes, .ok ())
    else readLoop (room + 1 - (chunk.take (room + 1)).length) (bytes ++ chunk.take (room + 1)) rest

/-- The bytes that are read of a file, and its text, if it is searched. -/
def readEntry (effectiveLimit : Nat) (file : SearchedFile) :
    Except IoErrorKind (Nat × Option (List Char)) := do
  let some metadata ← classifyEntryIo file.symlinkMetadata | return (0, none)
  if !metadata.isFile || effectiveLimit < metadata.len then return (0, none)
  let some _ ← classifyEntryIo file.openForSearch | return (0, none)
  let some metadata ← classifyEntryIo file.metadata | return (0, none)
  if !metadata.isFile || effectiveLimit < metadata.len then return (0, none)
  let (bytes, readResult) := readLoop (effectiveLimit + 1) [] file.reads
  if (← classifyEntryIo readResult).isNone || effectiveLimit < bytes.length then
    return (bytes.length, none)
  if 0 ∈ bytes then return (bytes.length, none)
  return (bytes.length, (String.fromUTF8? ⟨bytes.toArray⟩).map (·.toList))

section Search

variable (needle : List Char) (options : SearchOptions) (files : PathBuf → SearchedFile)

def matchOf (path : PathBuf) (index : Nat) (line : List Char) : SearchMatch :=
  ⟨path, index + 1, boundedPreview (trimList isWhitespace line)⟩

/-- The loop over the lines, with whether it stops at the limit. -/
def searchLines (path : PathBuf) : Nat → List SearchMatch → List (List Char) →
    List SearchMatch × Bool
  | _, found, [] => (found, false)
  | index, found, line :: rest =>
    if needle <:+: line then
      if found.length = options.maxResults then (found, true)
      else searchLines path (index + 1) (found ++ [matchOf path index line]) rest
    else searchLines path (index + 1) found rest

/-- The loop over the entries. -/
def searchEntries (incomplete : Bool) (remainingBudget : Nat) (found : List SearchMatch) :
    List FileEntry → Except IoErrorKind SearchResult
  | [] => .ok ⟨found, incomplete || remainingBudget = 0⟩
  | entry :: rest =>
    if remainingBudget = 0 then .ok ⟨found, true⟩
    else do
      let effectiveLimit := min options.maxFileBytes remainingBudget
      let (bytesRead, content) ← readEntry effectiveLimit (files entry.relativePath)
      let remainingBudget := remainingBudget - bytesRead
      match content with
      | none => searchEntries true remainingBudget found rest
      | some content =>
        let (found, full) :=
          searchLines needle options entry.relativePath 0 found (textLines content)
        if full then return ⟨found, true⟩
        else searchEntries incomplete remainingBudget found rest

def searchContentInner (totalBudget : Nat) (report : DiscoveryReport) :
    Except IoErrorKind SearchResult :=
  searchEntries needle options files (report.truncated || !report.warnings.isEmpty)
    (min totalBudget maxTotalSearchBytes) [] (report.entries.filter (·.kind = .file))

/-! ## The reference -/

/-- The lines of a text that contain the needle. -/
def matchingLines (path : PathBuf) (text : List Char) : List SearchMatch :=
  ((textLines text).zipIdx.filter fun x => needle <:+: x.1).map fun x => matchOf path x.2 x.1

/-- The files that are read as text within the budget, with their texts. -/
def searchedFiles (remainingBudget : Nat) : List FileEntry → List (FileEntry × List Char)
  | [] => []
  | entry :: rest =>
    if remainingBudget = 0 then []
    else
      match readEntry (min options.maxFileBytes remainingBudget) (files entry.relativePath) with
      | .ok (bytesRead, some content) =>
        (entry, content) :: searchedFiles (remainingBudget - bytesRead) rest
      | .ok (bytesRead, none) => searchedFiles (remainingBudget - bytesRead) rest
      | .error _ => []

end Search

/-- The whole contents, where no read fails. -/
def contentsOf : List (Except IoErrorKind (List UInt8)) → Option (List UInt8)
  | [] => some []
  | .error _ :: _ => none
  | .ok chunk :: rest => if chunk = [] then some [] else (contentsOf rest).map (chunk ++ ·)

/-- A regular file with the text as its whole contents. -/
structure HoldsText (file : SearchedFile) (text : List Char) : Prop where
  regular : ∃ metadata, file.metadata = .ok metadata ∧ metadata.isFile = true
  contents : ∃ bytes, contentsOf file.reads = some bytes ∧
    String.fromUTF8? ⟨bytes.toArray⟩ = some (String.ofList text)

section Laws

variable {needle : List Char} {options : SearchOptions} {files : PathBuf → SearchedFile}

theorem readLoop_start (room : Nat) (bytes : List UInt8)
    (reads : List (Except IoErrorKind (List UInt8))) : bytes <+: (readLoop room bytes reads).1 := by
  induction room, bytes, reads using readLoop.induct with
  | case1 => rw [readLoop]
  | case2 reads bytes h =>
    cases reads with
    | nil => exact absurd rfl h
    | cons read reads => exact List.prefix_rfl
  | case3 => rw [readLoop]
  | case4 => rw [readLoop, if_pos rfl]
  | case5 room bytes chunk rest hchunk ih =>
    rw [readLoop, if_neg hchunk]
    exact (List.prefix_append _ _).trans ih

/-- A loop that stops below the limit has read everything. -/
theorem readLoop_ok {room : Nat} {bytes out : List UInt8}
    {reads : List (Except IoErrorKind (List UInt8))} (h : readLoop room bytes reads = (out, .ok ()))
    (hroom : out.length < bytes.length + room) :
    ∃ rest, contentsOf reads = some rest ∧ out = bytes ++ rest := by
  induction reads generalizing room bytes with
  | nil =>
    rw [readLoop] at h
    cases h
    exact ⟨[], rfl, (List.append_nil _).symm⟩
  | cons read reads ih =>
    cases room with
    | zero =>
      rw [readLoop] at h
      · cases h
        omega
      · exact fun h => List.cons_ne_nil _ _ h
    | succ room =>
      rcases read with error | chunk
      · cases h
      rw [readLoop] at h
      rw [contentsOf]
      by_cases hchunk : chunk = []
      · rw [if_pos hchunk] at h ⊢
        cases h
        exact ⟨[], rfl, (List.append_nil _).symm⟩
      rw [if_neg hchunk] at h ⊢
      have hle := (readLoop_start _ _ _).length_le.trans_eq (congrArg (·.1.length) h)
      rw [List.length_append, List.length_take] at hle
      have htake : chunk.take (room + 1) = chunk :=
        List.take_of_length_le (by dsimp only at hle; omega)
      rw [htake] at h
      obtain ⟨rest, hrest, hout⟩ := ih h (by rw [List.length_append]; omega)
      exact ⟨chunk ++ rest, by rw [hrest]; rfl, by rw [hout, List.append_assoc]⟩

theorem classifyEntryIo_eq_some {α : Type} {r : Except IoErrorKind α} {a : α} :
    classifyEntryIo r = .ok (some a) ↔ r = .ok a := by
  rcases r with error | b
  · cases error <;> simp [classifyEntryIo]
  · simp [classifyEntryIo]

/-- A file that is searched is regular, and its text is all of its contents. -/
theorem readEntry_some {limit n : Nat} {file : SearchedFile} {text : List Char}
    (h : readEntry limit file = .ok (n, some text)) : HoldsText file text := by
  simp only [readEntry, bind, Except.bind, pure, Except.pure] at h
  rcases hs : classifyEntryIo file.symlinkMetadata with e | _ | m
  · simp only [hs] at h
    cases h
  · simp only [hs] at h
    cases h
  simp only [hs] at h
  split at h
  · cases h
  rcases ho : classifyEntryIo file.openForSearch with e | _ | m'
  · simp only [ho] at h
    cases h
  · simp only [ho] at h
    cases h
  simp only [ho] at h
  rcases hm : classifyEntryIo file.metadata with e | _ | m''
  · simp only [hm] at h
    cases h
  · simp only [hm] at h
    cases h
  simp only [hm] at h
  split at h
  · cases h
  rename_i hregular
  rcases hl : readLoop (limit + 1) [] file.reads with ⟨bytes, read⟩
  rw [hl] at h
  dsimp only at h
  rcases hr : classifyEntryIo read with e | _ | ⟨⟩
  · simp only [hr] at h
    cases h
  · simp only [hr] at h
    cases h
  simp only [hr] at h
  split at h
  · cases h
  rename_i hlimit
  split at h
  · cases h
  rw [classifyEntryIo_eq_some.mp hr] at hl
  have hlen : bytes.length < ([] : List UInt8).length + (limit + 1) := by
    simp at hlimit ⊢
    omega
  obtain ⟨rest, hrest, rfl⟩ := readLoop_ok hl hlen
  have htext := (Prod.mk.inj (Except.ok.inj h)).2
  obtain ⟨string, hstring, rfl⟩ := Option.map_eq_some_iff.mp htext
  refine ⟨⟨m'', classifyEntryIo_eq_some.mp hm, ?_⟩, bytes, hrest, ?_⟩
  · simp at hregular
    exact hregular.1
  · rw [String.ofList_toList]
    exact hstring
theorem searchLines_eq {path : PathBuf} {index : Nat} {found : List SearchMatch}
    {lines : List (List Char)} (hlen : found.length ≤ options.maxResults) :
    let all := found ++ ((lines.zipIdx index).filter fun x => needle <:+: x.1).map
      fun x => matchOf path x.2 x.1
    searchLines needle options path index found lines =
      (all.take options.maxResults, decide (options.maxResults < all.length)) := by
  induction lines generalizing index found with
  | nil =>
    intro all
    have hall : all = found := List.append_nil _
    rw [hall, searchLines, List.take_of_length_le hlen, decide_eq_false (by omega)]
  | cons line lines ih =>
    intro all
    rw [searchLines]
    by_cases hline : needle <:+: line
    · have hall : all = (found ++ [matchOf path index line]) ++
          ((lines.zipIdx (index + 1)).filter fun x => needle <:+: x.1).map
            fun x => matchOf path x.2 x.1 := by
        rw [List.append_assoc]
        simp [all, List.zipIdx_cons, hline]
      rw [if_pos hline]
      by_cases hfull : found.length = options.maxResults
      · rw [if_pos hfull, ← hfull, List.take_left, decide_eq_true]
        rw [hall]
        simp
      · rw [if_neg hfull, hall]
        exact ih (by rw [List.length_append, List.length_singleton]; omega)
    · have hall : all = found ++ ((lines.zipIdx (index + 1)).filter fun x => needle <:+: x.1).map
            fun x => matchOf path x.2 x.1 := by
        simp [all, List.zipIdx_cons, hline]
      rw [if_neg hline, hall]
      exact ih hlen

/-- The entries, from those that are searched on. -/
theorem searchEntries_ok {incomplete : Bool} {budget : Nat} {found : List SearchMatch}
    {entries : List FileEntry} {result : SearchResult}
    (h : searchEntries needle options files incomplete budget found entries = .ok result)
    (hlen : found.length ≤ options.maxResults) :
    let searched := searchedFiles options files budget entries
    let all := found ++ searched.flatMap fun x => matchingLines needle x.1.relativePath x.2
    result.found = all.take options.maxResults ∧
      (result.truncated = false → incomplete = false ∧ searched.map (·.1) = entries ∧
        all.length ≤ options.maxResults) := by
  induction entries generalizing incomplete budget found with
  | nil =>
    rw [searchEntries] at h
    cases h
    simp [searchedFiles, List.take_of_length_le hlen]
    tauto
  | cons entry rest ih =>
    rw [searchEntries] at h
    by_cases hbudget : budget = 0
    · rw [if_pos hbudget] at h
      cases h
      rw [searchedFiles, if_pos hbudget]
      simp [List.take_of_length_le hlen]
    simp only [if_neg hbudget, bind, Except.bind, pure, Except.pure] at h
    rw [searchedFiles, if_neg hbudget]
    rcases hread : readEntry (min options.maxFileBytes budget) (files entry.relativePath) with
      error | ⟨bytesRead, _ | content⟩
    · rw [hread] at h
      cases h
    · rw [hread] at h
      dsimp only at h
      obtain ⟨hfound, htruncated⟩ := ih h hlen
      exact ⟨hfound, fun ht => absurd (htruncated ht).1 Bool.true_eq_false.mp⟩
    · rw [hread] at h
      dsimp only at h
      rw [searchLines_eq hlen] at h
      dsimp only at h ⊢
      rw [List.flatMap_cons, List.map_cons, ← List.append_assoc]
      split at h
      · rename_i hfull
        cases h
        have hfull := of_decide_eq_true hfull
        exact ⟨(List.take_append_of_le_length hfull.le).symm, fun ht => by cases ht⟩
      · rename_i hroom
        have hroom := Nat.le_of_not_lt (of_decide_eq_false (eq_false_of_ne_true hroom))
        rw [List.take_of_length_le hroom] at h
        obtain ⟨hfound, htruncated⟩ := ih h hroom
        refine ⟨hfound, fun ht => ?_⟩
        obtain ⟨hcomplete, hentries, hall⟩ := htruncated ht
        exact ⟨hcomplete, by rw [hentries], hall⟩

theorem searchedFiles_spec (budget : Nat) (entries : List FileEntry) :
    ((searchedFiles options files budget entries).map (·.1)).Sublist entries ∧
      ∀ x ∈ searchedFiles options files budget entries,
        HoldsText (files x.1.relativePath) x.2 := by
  induction entries generalizing budget with
  | nil => exact ⟨List.nil_sublist _, List.forall_mem_nil _⟩
  | cons entry rest ih =>
    rw [searchedFiles]
    split
    · exact ⟨List.nil_sublist _, List.forall_mem_nil _⟩
    split
    · rename_i bytesRead content hread
      obtain ⟨hsub, hholds⟩ := ih (budget - bytesRead)
      exact ⟨hsub.cons_cons entry, List.forall_mem_cons.mpr ⟨readEntry_some hread, hholds⟩⟩
    · rename_i bytesRead hread
      obtain ⟨hsub, hholds⟩ := ih (budget - bytesRead)
      exact ⟨hsub.cons entry, hholds⟩
    · exact ⟨List.nil_sublist _, List.forall_mem_nil _⟩

/-- The matches are the first of the matching lines of the files that are searched, and all lines of
all files where the result is not truncated. -/
theorem search_law {totalBudget : Nat} {report : DiscoveryReport} {result : SearchResult}
    (h : searchContentInner needle options files totalBudget report = .ok result) :
    let entries := report.entries.filter (·.kind = .file)
    let searched := searchedFiles options files (min totalBudget maxTotalSearchBytes) entries
    let all := searched.flatMap fun x => matchingLines needle x.1.relativePath x.2
    ((searched.map (·.1)).Sublist entries ∧
        ∀ x ∈ searched, HoldsText (files x.1.relativePath) x.2) ∧
      result.found <+: all ∧ result.found.length ≤ options.maxResults ∧
      (result.truncated = false → report.truncated = false ∧ report.warnings = [] ∧
        searched.map (·.1) = entries ∧ result.found = all) := by
  obtain ⟨hfound, htruncated⟩ := searchEntries_ok h (Nat.zero_le _)
  rw [List.nil_append] at hfound htruncated
  refine ⟨searchedFiles_spec _ _, ?_, ?_, fun ht => ?_⟩
  · rw [hfound]
    exact List.take_prefix _ _
  · rw [hfound]
    exact List.length_take_le _ _
  · obtain ⟨hincomplete, hentries, hlen⟩ := htruncated ht
    obtain ⟨hreport, hwarnings⟩ := Bool.or_eq_false_iff.mp hincomplete
    refine ⟨hreport, ?_, hentries, hfound.trans (List.take_of_length_le hlen)⟩
    simpa using hwarnings

end Laws

/-! ## One file -/

def noteEntry : FileEntry := ⟨⟨[97]⟩, .file, 1, false, false⟩

/-- A file `a` with two lines, read in two pieces. -/
def noteFile : SearchedFile :=
  ⟨.ok ⟨true, 5⟩, .ok (), .ok ⟨true, 5⟩, [.ok [104, 105, 10], .ok [104, 111]]⟩

theorem search_law_note :
    (searchedFiles ⟨5, 64⟩ (fun _ => noteFile) (min 100 maxTotalSearchBytes) [noteEntry]).map
      (·.1) = [noteEntry] := by
  have hrun : searchContentInner ['o'] ⟨5, 64⟩ (fun _ => noteFile) 100 ⟨[noteEntry], [], false⟩ =
      .ok ⟨[⟨⟨[97]⟩, 2, ['h', 'o']⟩], false⟩ := by decide
  exact ((search_law hrun).2.2.2 rfl).2.2.1

end Strukt.Fs
