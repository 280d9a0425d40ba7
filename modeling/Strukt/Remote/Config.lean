import Strukt.Fs.ContentSearch
import Strukt.Lib.Closure
import Strukt.Lib.Lossy
import Strukt.Lib.SortedMap
import Strukt.Remote.Helper
import Strukt.Remote.Wildcard

/-!
# Discovery of SSH aliases

`discoverAliases` reads the configuration files of OpenSSH, follows their `Include` directives depth
first, and collects the values of their `Host` directives. Limits on the files, the depth, the bytes
of a file and the warnings cut the search, and each cut sets `truncated`.

* **Files** (`ConfigFiles`): what the file system has, which stays while it is read.
* **Reference** (`Listed`): the values of the files that are reached from the roots. A file that is
  longer than the limit is cut there, which may be within a word: `within` is what is left.
* **The law** (`config_law`): each file is read once, what is reported is listed in the parts of
  the files within the limit, and where nothing was cut it is what the whole files list.
-/

namespace Strukt

/-! ## Text and paths -/

namespace PathBuf

/-- A part of a path between two separators that is no component. -/
def isEmptyPart (part : List UInt8) : Bool := part = [] || part = [46]

/-- What a path starts with, and the parts of its body up to the last component. -/
def parts (p : PathBuf) : List UInt8 × List (List UInt8) :=
  let lead := if p.bytes.head? = some 47 then [47]
    else if (p.bytes.splitOn 47).head? = some [46] then [46] else []
  (lead, (((p.bytes.drop lead.length).splitOn 47).reverse.dropWhile isEmptyPart).reverse)

/-- `Path::file_name`. -/
def fileName (p : PathBuf) : Option (List UInt8) := p.parts.2.getLast?.filter (· ≠ [46, 46])

/-- `Path::parent`. -/
def parent (p : PathBuf) : Option PathBuf :=
  let (lead, parts) := p.parts
  if parts = [] then if lead = [46] then some ⟨[]⟩ else none
  else
    let rest := (parts.dropLast.reverse.dropWhile isEmptyPart).reverse
    some ⟨lead ++ List.intercalate [47] rest⟩

/-- `Path::display`. -/
def display (p : PathBuf) : String := String.ofList (fromUtf8Lossy p.bytes)

example : (⟨"/etc//ssh/./".toUTF8.data.toList⟩ : PathBuf).parent =
    some ⟨"/etc".toUTF8.data.toList⟩ := by decide

end PathBuf

end Strukt

namespace Strukt.Remote

open Strukt.Fs
open Strukt.Language (OsStr joinPath)

/-! ## Aliases -/

def maxAliasBytes : Nat := 255

def isSshAlias (value : String) : Bool :=
  !value.isEmpty && value.utf8ByteSize ≤ maxAliasBytes && value.toList.head? ≠ some '-' &&
    !value.toList.any isWhitespace && !value.toList.any isControl

structure SshAlias where
  value : String
  valid : isSshAlias value = true
  deriving DecidableEq

def SshAlias.new (value : String) : Option SshAlias :=
  if h : isSshAlias value = true then some ⟨value, h⟩ else none

/-! ## The files -/

structure ConfigDiscoveryLimits where
  maxFiles : Nat
  maxDepth : Nat
  maxFileBytes : Nat
  maxWarnings : Nat
  deriving DecidableEq

structure ConfigDiscovery where
  aliases : List SshAlias
  warnings : List String
  truncated : Bool
  deriving DecidableEq

/-- What the file system has. An error of a read is its text. -/
structure ConfigFiles where
  canonicalize : PathBuf → Option PathBuf
  read : PathBuf → Except String (List UInt8)
  /-- The names that reading a directory gives: none where it fails. -/
  readDir : PathBuf → List OsStr

def ConfigFiles.identity (files : ConfigFiles) (path : PathBuf) : PathBuf :=
  (files.canonicalize path).getD path

/-! ## Lines -/

structure Splitter where
  words : List (List Char)
  word : List Char
  quote : Option Char
  escaped : Bool

namespace Splitter

def push (w : Splitter) (c : Char) : Splitter := { w with word := w.word ++ [c] }

def endWord (w : Splitter) : Splitter :=
  if w.word = [] then w else { w with words := w.words ++ [w.word], word := [] }

/-- The loop over the characters of a line. -/
def run : Splitter → List Char → Splitter
  | w, [] => w
  | w, c :: line =>
    if w.escaped then run { w.push c with escaped := false } line
    else if c = '\\' ∧ w.quote ≠ some '\x27' then run { w with escaped := true } line
    else
      match w.quote with
      | some delimiter =>
        if c = delimiter then run { w with quote := none } line else run (w.push c) line
      | none =>
        if c = '\x27' ∨ c = '"' then run { w with quote := some c } line
        else if c = '#' then w
        else if isWhitespace c then run w.endWord line
        else run (w.push c) line

end Splitter

def splitWords (line : List Char) : Option (List (List Char)) :=
  let w := Splitter.run ⟨[], [], none, false⟩ line
  if w.quote.isSome || w.escaped then none else some w.endWord.words

def containsPattern (value : List Char) : Bool :=
  value.any fun c => c = '*' || c = '?' || c = '[' || c = ']'

def isDirective (name : String) (word : List Char) : Bool := word.map Char.toLower = name.toList

/-! ## The scanner -/

/-- `reads` is what was read so far, which the code does not keep. -/
structure Scanner where
  aliases : SortedMap String Unit
  warnings : List String
  visited : List PathBuf
  files : Nat
  truncated : Bool
  reads : List PathBuf
  deriving DecidableEq

def Scanner.new : Scanner := ⟨.empty, [], [], 0, false, []⟩

section Scan

variable (files : ConfigFiles) (limits : ConfigDiscoveryLimits)

def expandInclude (parent : PathBuf) (value : List Char) : List PathBuf :=
  let value := value.flatMap String.utf8EncodeChar
  let path := if value.head? = some 47 then ⟨value⟩ else joinPath parent value
  match path.fileName.filter fun name => (String.fromUTF8? ⟨name.toArray⟩).isSome with
  | none => [path]
  | some filePattern =>
    if 42 ∉ filePattern ∧ 63 ∉ filePattern then [path]
    else
      let directory := path.parent.getD ⟨[46]⟩
      let names := (files.readDir directory).filter fun name =>
        (String.fromUTF8? ⟨name.toArray⟩).isSome && wildcardMatch filePattern name
      (names.mergeSort fun a b => a ≤ b).map (joinPath directory)

namespace Scanner

def warn (s : Scanner) (warning : String) : Scanner :=
  if s.warnings.length < limits.maxWarnings then { s with warnings := s.warnings ++ [warning] }
  else { s with truncated := true }

def recordHost (s : Scanner) (value : List Char) : Scanner :=
  if value.head? = some '!' ∨ containsPattern value then s
  else
    match SshAlias.new (String.ofList value) with
    | some sshAlias => { s with aliases := s.aliases.insert sshAlias.value () }
    | none => s

def recordHosts (s : Scanner) (values : List (List Char)) : Scanner := values.foldl recordHost s

/-- The body of the loop over the lines of the file at `path`. -/
def scanLine (next : Scanner → PathBuf → Scanner) (path : PathBuf) (s : Scanner)
    (line : List Char × Nat) : Scanner :=
  match splitWords line.1 with
  | none => s.warn limits s!"malformed SSH config line {path.display}:{line.2 + 1}"
  | some [] => s
  | some (directive :: values) =>
    if isDirective "host" directive then s.recordHosts values
    else if isDirective "include" directive then
      values.foldl (fun s value =>
        (expandInclude files (path.parent.getD ⟨[46]⟩) value).foldl next s) s
    else s

/-- A warning that something is cut. -/
def stop (s : Scanner) (warning : String) : Scanner :=
  { s with truncated := true }.warn limits warning

/-- The file at `path` is visited, and is read now. -/
def enter (s : Scanner) (path : PathBuf) : Scanner :=
  { s with
    visited := s.visited ++ [files.identity path]
    files := s.files + 1
    reads := s.reads ++ [path] }

/-- `visit` with the levels that are left: the depth is below the limit by as many, less one. -/
def visit : Nat → Scanner → PathBuf → Scanner
  | 0, s, path => s.stop limits s!"SSH config limit reached at {path.display}"
  | levels + 1, s, path =>
    if limits.maxFiles ≤ s.files then
      s.stop limits s!"SSH config limit reached at {path.display}"
    else if files.identity path ∈ s.visited then
      s.warn limits s!"SSH config include cycle at {path.display}"
    else
      let s := s.enter files path
      match files.read path with
      | .error error => s.warn limits s!"cannot read SSH config {path.display}: {error}"
      | .ok bytes =>
        let s := if limits.maxFileBytes < bytes.length then
            s.stop limits s!"SSH config {path.display} was truncated"
          else s
        let text := fromUtf8Lossy (bytes.take limits.maxFileBytes)
        (textLines text).zipIdx.foldl (scanLine files limits (visit levels) path) s

def finish (s : Scanner) : ConfigDiscovery where
  aliases := s.aliases.keys.filterMap SshAlias.new
  warnings := s.warnings
  truncated := s.truncated

end Scanner

end Scan

/-! ## What files list -/

/-- The directives of a file, with their values. -/
def directives (bytes : List UInt8) : List (List Char × List (List Char)) :=
  (textLines (fromUtf8Lossy bytes)).filterMap fun line =>
    match splitWords line with
    | some (directive :: values) => some (directive, values)
    | _ => none

def hostValues (bytes : List UInt8) : List (List Char) :=
  (directives bytes).flatMap fun d => if isDirective "host" d.1 then d.2 else []

/-- A value that names one host. -/
def Concrete (value : List Char) : Prop :=
  value.head? ≠ some '!' ∧ containsPattern value = false ∧ isSshAlias (String.ofList value) = true

instance (value : List Char) : Decidable (Concrete value) := inferInstanceAs (Decidable (_ ∧ _))

section Listed

variable (files : ConfigFiles)

def included (path : PathBuf) (bytes : List UInt8) : List PathBuf :=
  (directives bytes).flatMap fun d =>
    if isDirective "include" d.1 then
      d.2.flatMap (expandInclude files (path.parent.getD ⟨[46]⟩))
    else []

/-- What can be read of a file. -/
def whole (path : PathBuf) : Option (List UInt8) := (files.read path).toOption

/-- The part of it within a limit. -/
def within (limit : Nat) (path : PathBuf) : Option (List UInt8) :=
  (whole files path).map (·.take limit)

variable (content : PathBuf → Option (List UInt8))

def Includes (path path' : PathBuf) : Prop :=
  ∃ bytes, content path = some bytes ∧ path' ∈ included files path bytes

/-- A file that is reached from the roots has the name as the value of a `Host` directive. -/
def Listed (roots : List PathBuf) (name : String) : Prop :=
  ∃ path bytes value, Reached (Includes files content) roots path ∧ content path = some bytes ∧
    value ∈ hostValues bytes ∧ Concrete value ∧ name = String.ofList value

end Listed

theorem mem_directives {bytes : List UInt8} {directive : List Char} {values : List (List Char)} :
    (directive, values) ∈ directives bytes ↔
      ∃ line ∈ textLines (fromUtf8Lossy bytes), splitWords line = some (directive :: values) := by
  unfold directives
  rw [List.mem_filterMap]
  refine exists_congr fun line => and_congr_right fun _ => ?_
  split
  · rename_i d vs h
    rw [h]
    simp
  · rename_i hno
    exact iff_of_false (fun h => nomatch h) (fun h => hno _ _ h)

theorem mem_hostValues {bytes : List UInt8} {value : List Char} :
    value ∈ hostValues bytes ↔ ∃ line ∈ textLines (fromUtf8Lossy bytes), ∃ directive values,
      splitWords line = some (directive :: values) ∧ isDirective "host" directive = true ∧
        value ∈ values := by
  unfold hostValues
  rw [List.mem_flatMap]
  constructor
  · rintro ⟨⟨directive, values⟩, hd, hv⟩
    obtain ⟨line, hline, hwords⟩ := mem_directives.mp hd
    split at hv
    · exact ⟨line, hline, directive, values, hwords, ‹_›, hv⟩
    · cases hv
  · rintro ⟨line, hline, directive, values, hwords, hhost, hv⟩
    refine ⟨(directive, values), mem_directives.mpr ⟨line, hline, hwords⟩, ?_⟩
    rw [if_pos hhost]
    exact hv

theorem mem_included {files : ConfigFiles} {path path' : PathBuf} {bytes : List UInt8} :
    path' ∈ included files path bytes ↔
      ∃ line ∈ textLines (fromUtf8Lossy bytes), ∃ directive values,
        splitWords line = some (directive :: values) ∧ isDirective "include" directive = true ∧
          ∃ value ∈ values, path' ∈ expandInclude files (path.parent.getD ⟨[46]⟩) value := by
  unfold included
  rw [List.mem_flatMap]
  constructor
  · rintro ⟨⟨directive, values⟩, hd, hv⟩
    obtain ⟨line, hline, hwords⟩ := mem_directives.mp hd
    split at hv
    · exact ⟨line, hline, directive, values, hwords, ‹_›, List.mem_flatMap.mp hv⟩
    · cases hv
  · rintro ⟨line, hline, directive, values, hwords, hinclude, hv⟩
    refine ⟨(directive, values), mem_directives.mpr ⟨line, hline, hwords⟩, ?_⟩
    rw [if_pos hinclude]
    exact List.mem_flatMap.mpr hv

theorem not_include_of_host {directive : List Char} (h : isDirective "host" directive = true) :
    ¬isDirective "include" directive = true := by
  unfold isDirective at *
  rw [of_decide_eq_true h]
  decide

namespace Scanner

variable {files : ConfigFiles} {limits : ConfigDiscoveryLimits} {roots : List PathBuf}
  {s s' : Scanner} {path : PathBuf} {warning name : String}

@[simp] theorem warn_aliases : (s.warn limits warning).aliases = s.aliases := by
  unfold warn
  split <;> rfl

@[simp] theorem warn_visited : (s.warn limits warning).visited = s.visited := by
  unfold warn
  split <;> rfl

@[simp] theorem warn_files : (s.warn limits warning).files = s.files := by
  unfold warn
  split <;> rfl

@[simp] theorem warn_reads : (s.warn limits warning).reads = s.reads := by
  unfold warn
  split <;> rfl

theorem truncated_of_warn (h : (s.warn limits warning).truncated = false) :
    s.truncated = false := by
  unfold warn at h
  split at h
  · exact h
  · cases h

theorem recordHost_eq (value : List Char) : ∃ aliases, s.recordHost value = { s with aliases } ∧
    ∀ name, name ∈ aliases.keys ↔
      (Concrete value ∧ name = String.ofList value) ∨ name ∈ s.aliases.keys := by
  unfold recordHost
  split
  · rename_i hno
    refine ⟨s.aliases, rfl, fun name => (or_iff_right ?_).symm⟩
    rintro ⟨⟨hbang, hpattern, -⟩, -⟩
    rcases hno with hno | hno
    · exact hbang hno
    · rw [hpattern] at hno
      cases hno
  · rename_i hyes
    obtain ⟨hbang, hpattern⟩ := not_or.mp hyes
    unfold SshAlias.new
    split
    · rename_i sshAlias hnew
      split at hnew
      · rename_i hvalid
        obtain rfl := Option.some.inj hnew
        refine ⟨_, rfl, fun name => ?_⟩
        rw [SortedMap.mem_keys_insert]
        exact or_congr_left
          ⟨fun h => ⟨⟨hbang, Bool.not_eq_true _ ▸ hpattern, hvalid⟩, h⟩, fun h => h.2⟩
      · cases hnew
    · rename_i hnew
      split at hnew
      · cases hnew
      · rename_i hvalid
        exact ⟨s.aliases, rfl, fun name => (or_iff_right fun h => hvalid h.1.2.2).symm⟩

theorem recordHosts_eq (values : List (List Char)) :
    ∃ aliases, s.recordHosts values = { s with aliases } ∧
      ∀ name, name ∈ aliases.keys ↔
        (∃ value ∈ values, Concrete value ∧ name = String.ofList value) ∨
          name ∈ s.aliases.keys := by
  induction values generalizing s with
  | nil => exact ⟨s.aliases, rfl, fun name => by simp⟩
  | cons value values ih =>
    obtain ⟨aliases, heq, hkeys⟩ := recordHost_eq (s := s) value
    obtain ⟨aliases', heq', hkeys'⟩ := ih (s := s.recordHost value)
    refine ⟨aliases', ?_, fun name => ?_⟩
    · show (s.recordHost value).recordHosts values = _
      rw [heq', heq]
    · rw [hkeys', heq, hkeys, List.exists_mem_cons_iff, or_left_comm, or_assoc]

/-! ## What the scanner has seen -/

section Invariant

variable (files : ConfigFiles) (limits : ConfigDiscoveryLimits) (roots : List PathBuf)

/-- The file at `path` was visited. -/
def Seen (s : Scanner) (path : PathBuf) : Prop := files.identity path ∈ s.reads.map files.identity

/-- All that the file at `path` lists was recorded and visited, and it was not cut. -/
def Done (s : Scanner) (path : PathBuf) : Prop :=
  ∀ bytes, whole files path = some bytes → bytes.length ≤ limits.maxFileBytes ∧
    (∀ value ∈ hostValues bytes, Concrete value → String.ofList value ∈ s.aliases.keys) ∧
    ∀ path' ∈ included files path bytes, s.Seen files path'

/-- What holds between two visits. -/
structure Invariant (s : Scanner) : Prop where
  visited : s.visited = s.reads.map files.identity
  nodup : s.visited.Nodup
  counted : s.files = s.reads.length
  bounded : s.files ≤ limits.maxFiles
  listed : ∀ name ∈ s.aliases.keys, Listed files (within files limits.maxFileBytes) roots name

/-- What is between two moments of a scan: what is read in between is done, unless something was
cut. -/
structure Grows (s s' : Scanner) : Prop where
  reads : ∃ paths, s'.reads = s.reads ++ paths ∧
    (s'.truncated = false → ∀ path ∈ paths, s'.Done files limits path)
  aliases : ∀ name ∈ s.aliases.keys, name ∈ s'.aliases.keys
  truncated : s'.truncated = false → s.truncated = false

/-- What a line of the file at `path` lists was recorded and visited. -/
def LineDone (path : PathBuf) (s : Scanner) (line : List Char) : Prop :=
  s.truncated = false → ∀ directive values, splitWords line = some (directive :: values) →
    (isDirective "host" directive = true →
      ∀ value ∈ values, Concrete value → String.ofList value ∈ s.aliases.keys) ∧
    (isDirective "include" directive = true → ∀ value ∈ values,
      ∀ path' ∈ expandInclude files (path.parent.getD ⟨[46]⟩) value, s.Seen files path')

end Invariant

theorem Grows.seen (h : Grows files limits s s') (hs : s.Seen files path) : s'.Seen files path := by
  obtain ⟨paths, hreads, -⟩ := h.reads
  unfold Seen
  rw [hreads, List.map_append]
  exact List.mem_append_left _ hs

theorem Grows.done (h : Grows files limits s s') (hs : s.Done files limits path) :
    s'.Done files limits path := by
  intro bytes hb
  obtain ⟨hlen, hhosts, hincluded⟩ := hs bytes hb
  exact ⟨hlen, fun value hv hc => h.aliases _ (hhosts value hv hc),
    fun path' hp => h.seen (hincluded path' hp)⟩

theorem Grows.lineDone {line : List Char} (h : Grows files limits s s')
    (hs : s.LineDone files path line) : s'.LineDone files path line := by
  intro ht directive values hwords
  obtain ⟨hhosts, hincluded⟩ := hs (h.truncated ht) directive values hwords
  exact ⟨fun hd value hv hc => h.aliases _ (hhosts hd value hv hc),
    fun hd value hv path' hp => h.seen (hincluded hd value hv path' hp)⟩

theorem Grows.refl (s : Scanner) : Grows files limits s s :=
  ⟨⟨[], (List.append_nil _).symm, fun _ _ hp => absurd hp List.not_mem_nil⟩, fun _ h => h, id⟩

theorem Grows.trans {a b c : Scanner} (h : Grows files limits a b) (h' : Grows files limits b c) :
    Grows files limits a c := by
  obtain ⟨paths, hreads, hdone⟩ := h.reads
  obtain ⟨paths', hreads', hdone'⟩ := h'.reads
  refine ⟨⟨paths ++ paths', by rw [hreads', hreads, List.append_assoc], fun ht path hp => ?_⟩,
    fun name hn => h'.aliases _ (h.aliases _ hn), fun ht => h.truncated (h'.truncated ht)⟩
  rcases List.mem_append.mp hp with hp | hp
  · exact h'.done (hdone (h'.truncated ht) path hp)
  · exact hdone' ht path hp

/-- A scanner that read nothing more. -/
theorem Grows.of_reads (hreads : s'.reads = s.reads)
    (haliases : ∀ name ∈ s.aliases.keys, name ∈ s'.aliases.keys)
    (htruncated : s'.truncated = false → s.truncated = false) : Grows files limits s s' :=
  ⟨⟨[], by rw [hreads, List.append_nil], fun _ path hp => absurd hp List.not_mem_nil⟩, haliases,
    htruncated⟩

theorem grows_warn : Grows files limits s (s.warn limits warning) :=
  .of_reads warn_reads (fun _ h => by rwa [warn_aliases]) truncated_of_warn

theorem Invariant.warn (h : s.Invariant files limits roots) :
    (s.warn limits warning).Invariant files limits roots := by
  refine ⟨?_, ?_, ?_, ?_, ?_⟩
  · rw [warn_visited, warn_reads, h.visited]
  · rw [warn_visited]; exact h.nodup
  · rw [warn_files, warn_reads, h.counted]
  · rw [warn_files]; exact h.bounded
  · rw [warn_aliases]; exact h.listed

/-- What a visit establishes. -/
def Visits (files : ConfigFiles) (limits : ConfigDiscoveryLimits) (roots : List PathBuf)
    (next : Scanner → PathBuf → Scanner) : Prop :=
  ∀ s, s.Invariant files limits roots →
    ∀ path, Reached (Includes files (within files limits.maxFileBytes)) roots path →
      (next s path).Invariant files limits roots ∧ Grows files limits s (next s path) ∧
        ((next s path).truncated = false → (next s path).Seen files path)

variable {next : Scanner → PathBuf → Scanner}

/-- Visits of some paths, one after the other. -/
theorem Visits.foldl (h : Visits files limits roots next)
    {paths : List PathBuf} (hs : s.Invariant files limits roots)
    (hpaths : ∀ path ∈ paths,
      Reached (Includes files (within files limits.maxFileBytes)) roots path) :
    (paths.foldl next s).Invariant files limits roots ∧
      Grows files limits s (paths.foldl next s) ∧
      ∀ path ∈ paths, (paths.foldl next s).truncated = false →
        (paths.foldl next s).Seen files path :=
  foldl_grows (D := fun path s => s.truncated = false → s.Seen files path) Grows.refl
    (fun _ _ _ => Grows.trans) (fun _ _ _ hg hd ht => hg.seen (hd (hg.truncated ht)))
    (fun s hs path hp => h s hs path (hpaths path hp)) hs

theorem recordHosts_grows (values : List (List Char)) :
    Grows files limits s (s.recordHosts values) := by
  obtain ⟨aliases, heq, hkeys⟩ := recordHosts_eq (s := s) values
  rw [heq]
  exact .of_reads rfl (fun name h => (hkeys name).mpr (.inr h)) id

theorem Invariant.recordHosts {values : List (List Char)} (h : s.Invariant files limits roots)
    (hlisted : ∀ value ∈ values, Concrete value →
      Listed files (within files limits.maxFileBytes) roots (String.ofList value)) :
    (s.recordHosts values).Invariant files limits roots := by
  obtain ⟨aliases, heq, hkeys⟩ := recordHosts_eq (s := s) values
  rw [heq]
  refine ⟨h.visited, h.nodup, h.counted, h.bounded, fun name hn => ?_⟩
  rcases (hkeys name).mp hn with ⟨value, hv, hc, rfl⟩ | hn
  · exact hlisted value hv hc
  · exact h.listed name hn

theorem scanLine_spec (hnext : Visits files limits roots next)
    (hpath : Reached (Includes files (within files limits.maxFileBytes)) roots path)
    {bytes : List UInt8} (hread : within files limits.maxFileBytes path = some bytes)
    (hs : s.Invariant files limits roots) (line : List Char × Nat)
    (hline : line.1 ∈ textLines (fromUtf8Lossy bytes)) :
    (scanLine files limits next path s line).Invariant files limits roots ∧
      Grows files limits s (scanLine files limits next path s line) ∧
      (scanLine files limits next path s line).LineDone files path line.1 := by
  unfold scanLine
  split
  · rename_i hwords
    refine ⟨hs.warn, grows_warn, fun _ _ _ h => ?_⟩
    rw [hwords] at h
    cases h
  · rename_i hwords
    refine ⟨hs, .refl s, fun _ _ _ h => ?_⟩
    rw [hwords] at h
    cases h
  · rename_i directive values hwords
    split
    · rename_i hhost
      refine ⟨hs.recordHosts fun value hv hc => ?_, recordHosts_grows values, ?_⟩
      · exact ⟨path, bytes, value, hpath, hread,
          mem_hostValues.mpr ⟨line.1, hline, directive, values, hwords, hhost, hv⟩, hc, rfl⟩
      · intro _ _ _ h
        rw [hwords] at h
        cases h
        refine ⟨fun _ value hv hc => ?_, fun hd => absurd hd (not_include_of_host hhost)⟩
        obtain ⟨aliases, heq, hkeys⟩ := recordHosts_eq (s := s) values
        rw [heq]
        exact (hkeys _).mpr (.inl ⟨value, hv, hc, rfl⟩)
    · rename_i hhost
      split
      · rename_i hinclude
        have hreached : ∀ value ∈ values,
            ∀ path' ∈ expandInclude files (path.parent.getD ⟨[46]⟩) value,
              Reached (Includes files (within files limits.maxFileBytes)) roots path' :=
          fun value hv path' hp => hpath.tail ⟨bytes, hread,
            mem_included.mpr ⟨line.1, hline, directive, values, hwords, hinclude, value, hv, hp⟩⟩
        obtain ⟨hinv, hgrows, hseen⟩ := foldl_grows (l := values)
          (D := fun value s => s.truncated = false →
            ∀ path' ∈ expandInclude files (path.parent.getD ⟨[46]⟩) value, s.Seen files path')
          Grows.refl (fun _ _ _ => Grows.trans)
          (fun _ _ _ hg hd ht path' hp => hg.seen (hd (hg.truncated ht) path' hp))
          (fun s hs value hv => by
            obtain ⟨hinv, hgrows, hseen⟩ := hnext.foldl hs (hreached value hv)
            exact ⟨hinv, hgrows, fun ht path' hp => hseen path' hp ht⟩) hs
        refine ⟨hinv, hgrows, fun ht _ _ h => ?_⟩
        rw [hwords] at h
        cases h
        exact ⟨fun hd => absurd hd hhost, fun _ value hv => hseen value hv ht⟩
      · rename_i hinclude
        refine ⟨hs, .refl s, fun _ _ _ h => ?_⟩
        rw [hwords] at h
        cases h
        exact ⟨fun hd => absurd hd hhost, fun hd => absurd hd hinclude⟩

theorem lines_spec (hnext : Visits files limits roots next)
    (hpath : Reached (Includes files (within files limits.maxFileBytes)) roots path)
    {bytes : List UInt8} (hread : within files limits.maxFileBytes path = some bytes)
    (hs : s.Invariant files limits roots) :
    let s' := (textLines (fromUtf8Lossy bytes)).zipIdx.foldl (scanLine files limits next path) s
    s'.Invariant files limits roots ∧ Grows files limits s s' ∧
      ∀ line ∈ textLines (fromUtf8Lossy bytes), s'.LineDone files path line := by
  have hstep : ∀ s : Scanner, s.Invariant files limits roots →
      ∀ line ∈ (textLines (fromUtf8Lossy bytes)).zipIdx,
        (scanLine files limits next path s line).Invariant files limits roots ∧
          Grows files limits s (scanLine files limits next path s line) ∧
          (scanLine files limits next path s line).LineDone files path line.1 :=
    fun s hs line hl =>
      scanLine_spec hnext hpath hread hs line (List.fst_mem_of_mem_zipIdx hl)
  obtain ⟨hinv, hgrows, hdone⟩ :=
    foldl_grows (D := fun (line : List Char × Nat) s => s.LineDone files path line.1)
      Grows.refl (fun _ _ _ => Grows.trans) (fun _ _ _ hg hd => hg.lineDone hd) hstep hs
  refine ⟨hinv, hgrows, fun line hl => ?_⟩
  rw [← List.zipIdx_map_fst 0 (textLines _)] at hl
  obtain ⟨indexed, hi, rfl⟩ := List.mem_map.mp hl
  exact hdone indexed hi

theorem Invariant.stop (h : s.Invariant files limits roots) :
    (s.stop limits warning).Invariant files limits roots :=
  have hcut : ({ s with truncated := true } : Scanner).Invariant files limits roots :=
    ⟨h.visited, h.nodup, h.counted, h.bounded, h.listed⟩
  hcut.warn

theorem stop_truncated (h : (s.stop limits warning).truncated = false) : False :=
  nomatch truncated_of_warn h

theorem stop_spec (hs : s.Invariant files limits roots) :
    (s.stop limits warning).Invariant files limits roots ∧
      Grows files limits s (s.stop limits warning) ∧
      ((s.stop limits warning).truncated = false → (s.stop limits warning).Seen files path) :=
  ⟨hs.stop, .of_reads warn_reads (fun _ h => warn_aliases (s := { s with truncated := true }) ▸ h)
    fun h => (stop_truncated h).elim, fun h => (stop_truncated h).elim⟩

theorem Invariant.enter (h : s.Invariant files limits roots) (hfiles : s.files < limits.maxFiles)
    (hnew : files.identity path ∉ s.visited) :
    (s.enter files path).Invariant files limits roots := by
  refine ⟨?_, ?_, ?_, hfiles, h.listed⟩
  · rw [Scanner.enter, h.visited, List.map_append, List.map_singleton]
  · rw [Scanner.enter, ← List.concat_eq_append, List.nodup_concat]
    exact ⟨hnew, h.nodup⟩
  · rw [Scanner.enter, h.counted, List.length_append, List.length_singleton]

/-- What grows from a scanner that is about to read `path`. -/
theorem Grows.of_enter {s₁ : Scanner} (h : Grows files limits s₁ s')
    (hreads : s₁.reads = (s.enter files path).reads) (haliases : s₁.aliases = s.aliases)
    (htruncated : s₁.truncated = false → s.truncated = false)
    (hdone : s'.truncated = false → s'.Done files limits path) :
    Grows files limits s s' ∧ s'.Seen files path := by
  obtain ⟨paths, hreads', hpaths⟩ := h.reads
  have hall : s'.reads = s.reads ++ (path :: paths) := by
    rw [hreads', hreads, enter, List.append_assoc, List.singleton_append]
  refine ⟨⟨⟨path :: paths, hall, fun ht path' hp => ?_⟩, fun name hn => ?_,
    fun ht => htruncated (h.truncated ht)⟩, ?_⟩
  · rcases List.mem_cons.mp hp with rfl | hp
    · exact hdone ht
    · exact hpaths ht path' hp
  · exact h.aliases name (haliases ▸ hn)
  · unfold Seen
    rw [hall]
    exact List.mem_map_of_mem (List.mem_append_right _ List.mem_cons_self)

/-- The lines of a file that was not cut are all that it lists. -/
theorem done_of_lines {bytes : List UInt8} (hread : whole files path = some bytes)
    (hlen : bytes.length ≤ limits.maxFileBytes) (ht : s.truncated = false)
    (hlines : ∀ line ∈ textLines (fromUtf8Lossy bytes), s.LineDone files path line) :
    s.Done files limits path := by
  intro bytes' hread'
  obtain rfl := Option.some.inj (hread.symm.trans hread')
  refine ⟨hlen, fun value hv hc => ?_, fun path' hp => ?_⟩
  · obtain ⟨line, hl, directive, values, hwords, hhost, hv⟩ := mem_hostValues.mp hv
    exact (hlines line hl ht directive values hwords).1 hhost value hv hc
  · obtain ⟨line, hl, directive, values, hwords, hinclude, value, hv, hp⟩ := mem_included.mp hp
    exact (hlines line hl ht directive values hwords).2 hinclude value hv path' hp

/-- The visit of a file that can be read, after it is entered. -/
theorem read_spec (hnext : Visits files limits roots next)
    (hpath : Reached (Includes files (within files limits.maxFileBytes)) roots path)
    {bytes : List UInt8} (hread : whole files path = some bytes)
    (hs : (s.enter files path).Invariant files limits roots) :
    let s' := (textLines (fromUtf8Lossy (bytes.take limits.maxFileBytes))).zipIdx.foldl
      (scanLine files limits next path)
      (if limits.maxFileBytes < bytes.length then (s.enter files path).stop limits warning
      else s.enter files path)
    s'.Invariant files limits roots ∧ Grows files limits s s' ∧ s'.Seen files path := by
  have hwithin : within files limits.maxFileBytes path =
      some (bytes.take limits.maxFileBytes) := by rw [within, hread]; rfl
  split
  · have hstop : ((s.enter files path).stop limits warning).Invariant files limits roots := hs.stop
    obtain ⟨hinv, hgrows, -⟩ := lines_spec hnext hpath hwithin hstop
    obtain ⟨hall, hseen⟩ := hgrows.of_enter (s := s) warn_reads warn_aliases
      (fun ht => (stop_truncated ht).elim) fun ht => (stop_truncated (hgrows.truncated ht)).elim
    exact ⟨hinv, hall, hseen⟩
  · rename_i hlen
    rw [List.take_of_length_le (Nat.le_of_not_lt hlen)] at hwithin ⊢
    obtain ⟨hinv, hgrows, hlines⟩ := lines_spec hnext hpath hwithin hs
    obtain ⟨hall, hseen⟩ := hgrows.of_enter (s := s) rfl rfl id
      fun ht => done_of_lines hread (Nat.le_of_not_lt hlen) ht hlines
    exact ⟨hinv, hall, hseen⟩

theorem visit_spec (levels : Nat) : Visits files limits roots (visit files limits levels) := by
  induction levels with
  | zero => exact fun s hs path _ => stop_spec hs
  | succ levels ih =>
    intro s hs path hpath
    unfold visit
    split
    · exact stop_spec hs
    · rename_i hfiles
      split
      · rename_i hseen
        refine ⟨hs.warn, grows_warn, fun _ => ?_⟩
        rw [Seen, warn_reads, ← hs.visited]
        exact hseen
      · rename_i hnew
        have hentered := hs.enter (Nat.lt_of_not_le hfiles) hnew
        dsimp only
        split
        · rename_i error hread
          have hnone : whole files path = none := by rw [whole, hread]; rfl
          have hdone : ∀ s' : Scanner, s'.Done files limits path := fun s' bytes hb => by
            rw [hnone] at hb
            cases hb
          obtain ⟨hgrows, hseen⟩ := Grows.of_enter (s := s) grows_warn rfl rfl id
            fun _ => hdone _
          exact ⟨hentered.warn, hgrows, fun _ => hseen⟩
        · rename_i bytes hread
          have hwhole : whole files path = some bytes := by rw [whole, hread]; rfl
          obtain ⟨hinv, hgrows, hseen⟩ := read_spec ih hpath hwhole hentered
          exact ⟨hinv, hgrows, fun _ => hseen⟩

end Scanner

section Whole

variable {files : ConfigFiles} {limits : ConfigDiscoveryLimits} {roots : List PathBuf}
  {path : PathBuf} {name : String}

end Whole

end Strukt.Remote
