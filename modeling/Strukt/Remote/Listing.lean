import Strukt.Fs.DocumentRead
import Strukt.Language.Framing
import Strukt.Lib.Delimited
import Strukt.Remote.Helper

/-!
# Listing a remote directory

`list` reads the whole directory on every call, sorts what it read by the names that are shown, and
returns one page of it with the offset of the next. A name that is no UTF-8 is shown escaped; every
other name is shown as it is, also where it looks like an escaped one.

* **Model**: a `Directory` does not change, but each call may read its entries in another order.
* **Pages** (`follow_sorted`): when all calls sort alike, the pages are the sorted entries.
* **The law** (`listing_law`): the listing is lossless exactly when no name mimics an escaped one,
  and each UTF-8 name makes a path that the protocol accepts.
-/

namespace Strukt.Remote

open Strukt.Fs
open Strukt.Language (parseUsize)
open String (utf8EncodeChar)

/-! ## The directory -/

structure RemotePath where
  value : String
  valid : value = "" ∨ isRemotePath value = true

def RemotePath.isRoot (path : RemotePath) : Bool := path.value.isEmpty

inductive RemoteEntryKind where
  | directory
  | file
  | symlink
  | other
  deriving DecidableEq

/-- The name of a file: bytes without `/` and NUL. -/
@[ext]
structure FileName where
  bytes : List UInt8
  proper : 47 ∉ bytes ∧ 0 ∉ bytes
  deriving DecidableEq

/-- What the platform says of an entry. It may have no metadata. -/
structure RawEntry where
  fileName : FileName
  fileType : RemoteEntryKind
  size : Option UInt64
  deriving DecidableEq

/-- A directory, which fits into memory. -/
structure Directory where
  entries : List RawEntry
  names : (entries.map (·.fileName)).Nodup
  fits : entries.length ≤ u64Max

/-! ## Listing -/

structure DirectoryEntry where
  name : String
  path : String
  kind : RemoteEntryKind
  size : UInt64
  editableName : Bool
  deriving DecidableEq

structure DirectoryPage where
  entries : List DirectoryEntry
  nextCursor : Option String
  deriving DecidableEq

inductive ListError where
  | invalidLimit
  | invalidCursor
  deriving DecidableEq

def maxPageEntries : Nat := 1000

/-- `u8::is_ascii_graphic`. -/
def isAsciiGraphic (byte : UInt8) : Bool := 33 ≤ byte.toNat && byte.toNat ≤ 126

/-- A digit of `{:02X}`. -/
def upperHexDigit (n : Nat) : Char := Char.ofNat (if n < 10 then 48 + n else 55 + n)

/-- What one byte of a name is shown as. -/
def escapeByte (byte : UInt8) : List Char :=
  if isAsciiGraphic byte && byte ≠ 37 then [Char.ofNat byte.toNat]
  else ['%', upperHexDigit (byte.toNat / 16), upperHexDigit (byte.toNat % 16)]

def displayName (name : FileName) : String × Bool :=
  match String.fromUTF8? ⟨name.bytes.toArray⟩ with
  | some text => (text, true)
  | none => (String.ofList (name.bytes.flatMap escapeByte), false)

/-- `format!("{parent}/{name}")`, and the name alone at the root. -/
def RemotePath.join (parent : RemotePath) (name : String) : String :=
  if parent.isRoot then name else parent.value ++ "/" ++ name

def directoryEntry (parent : RemotePath) (entry : RawEntry) : DirectoryEntry :=
  let (name, editableName) := displayName entry.fileName
  ⟨name, parent.join name, entry.fileType, entry.size.getD 0, editableName⟩

/-- The entries that were read, in the order of their names. -/
def sortedEntries (parent : RemotePath) (entries : List RawEntry) : List DirectoryEntry :=
  (entries.map (directoryEntry parent)).insertionSort fun left right => left.name ≤ right.name

/-- `RemoteFilesystem::list`, where the directory gives the entries in this order. -/
def list (parent : RemotePath) (entries : List RawEntry) (cursor : Option String) (limit : Nat) :
    Except ListError DirectoryPage :=
  if limit = 0 ∨ limit > maxPageEntries then .error .invalidLimit
  else
    match cursor.mapM fun cursor => parseUsize cursor.toList with
    | none => .error .invalidCursor
    | some offset =>
      let offset := offset.getD 0
      let entries := sortedEntries parent entries
      let stop := min (min (offset + limit) u64Max) entries.length
      .ok ⟨(entries.take stop).drop offset,
        if stop < entries.length then some (String.ofList (Nat.toDigits 10 stop)) else none⟩

/-! ## Following the cursors -/

/-- One call: the order in which the directory is read, and the limit. -/
structure Call (d : Directory) where
  entries : List RawEntry
  same : entries.Perm d.entries
  limit : Nat
  allowed : 1 ≤ limit ∧ limit ≤ maxPageEntries

/-- The pages from a cursor on, where they end within so many calls. -/
def follow {d : Directory} (parent : RemotePath) (calls : Nat → Call d) :
    Nat → Nat → Option String → Option (List DirectoryEntry)
  | 0, _, _ => none
  | fuel + 1, i, cursor =>
    match list parent (calls i).entries cursor (calls i).limit with
    | .error _ => none
    | .ok page =>
      match page.nextCursor with
      | none => some page.entries
      | some next => (follow parent calls fuel (i + 1) (some next)).map (page.entries ++ ·)

/-- The path of an entry, as the file system knows it. -/
def RawEntry.location (parent : RemotePath) (entry : RawEntry) : List UInt8 :=
  if parent.isRoot then entry.fileName.bytes
  else utf8Bytes parent.value ++ 47 :: entry.fileName.bytes

/-- The entry at a path, where the protocol accepts the path. -/
def Directory.resolve (d : Directory) (parent : RemotePath) (path : String) : Option RawEntry :=
  if isRemotePath path then d.entries.find? fun entry => entry.location parent = utf8Bytes path
  else none

/-! ## What a listing should be -/

/-- The pages have each entry once and in order, whatever the calls are. -/
structure Paged (d : Directory) (parent : RemotePath) (calls : Nat → Call d) (fuel : Nat)
    (pages : List DirectoryEntry) : Prop where
  ended : follow parent calls fuel 0 none = some pages
  once : pages.Perm (d.entries.map (directoryEntry parent))
  sorted : pages.Pairwise (·.name ≤ ·.name)

structure LosslessListing (d : Directory) (parent : RemotePath) : Prop where
  pages : ∀ calls : Nat → Call d, ∃ fuel pages, Paged d parent calls fuel pages
  distinct : ∀ a ∈ d.entries, ∀ b ∈ d.entries, a ≠ b →
    (directoryEntry parent a).path ≠ (directoryEntry parent b).path
  resolves : ∀ a ∈ d.entries, (directoryEntry parent a).editableName = true →
    d.resolve parent (directoryEntry parent a).path = some a

/-- A name with each byte that is not graphic, and each `%`, as `%` and two digits. -/
def percentEncoded (bytes : List UInt8) : List UInt8 :=
  bytes.flatMap fun b =>
    if 33 ≤ b ∧ b ≤ 126 ∧ b ≠ 37 then [b]
    else
      let digit (n : UInt8) : UInt8 := if n < 10 then 48 + n else 55 + n
      [37, digit (b / 16), digit (b % 16)]

/-- No name is what another, which is no UTF-8, is shown as. -/
def NoMimic (d : Directory) : Prop :=
  ∀ a ∈ d.entries, ∀ b ∈ d.entries, String.fromUTF8? ⟨a.fileName.bytes.toArray⟩ = none →
    b.fileName.bytes ≠ percentEncoded a.fileName.bytes

/-- Each UTF-8 name is, below the parent, a path of the protocol. -/
def AllAccepted (d : Directory) (parent : RemotePath) : Prop :=
  ∀ a ∈ d.entries, ∀ text, String.fromUTF8? ⟨a.fileName.bytes.toArray⟩ = some text →
    isRemotePath (parent.join text) = true

/-! ## Pages -/

section Pages

variable {d : Directory} {parent : RemotePath} {calls : Nat → Call d} {sorted : List DirectoryEntry}

/-- A call at an offset of the sorted entries. -/
theorem list_sorted {call : Call d} {offset : Nat} {cursor : Option String}
    (hsorted : sortedEntries parent call.entries = sorted) (hlen : sorted.length ≤ u64Max)
    (hcursor : (cursor.mapM fun cursor => parseUsize cursor.toList) = some (some offset) ∨
      cursor = none ∧ offset = 0) :
    list parent call.entries cursor call.limit =
      .ok ⟨(sorted.take (min (offset + call.limit) sorted.length)).drop offset,
        if offset + call.limit < sorted.length then
          some (String.ofList (Nat.toDigits 10 (offset + call.limit))) else none⟩ := by
  have hallowed := call.allowed
  have hstop : min (min (offset + call.limit) u64Max) sorted.length =
      min (offset + call.limit) sorted.length := by omega
  have hlimit : ¬(call.limit = 0 ∨ call.limit > maxPageEntries) := by omega
  unfold list
  rw [if_neg hlimit]
  have hnext : (if min (offset + call.limit) sorted.length < sorted.length then
        some (String.ofList (Nat.toDigits 10 (min (offset + call.limit) sorted.length))) else none) =
      if offset + call.limit < sorted.length then
        some (String.ofList (Nat.toDigits 10 (offset + call.limit))) else none := by
    by_cases h : offset + call.limit < sorted.length
    · have hmin : min (offset + call.limit) sorted.length = offset + call.limit := by omega
      rw [if_pos h, hmin, if_pos h]
    · rw [if_neg h, if_neg (by omega)]
  obtain hcursor | ⟨rfl, rfl⟩ := hcursor
  · simp only [hcursor, Option.getD_some, hsorted, hstop, hnext]
  · simp only [Option.mapM_none, Option.pure_def, Option.getD_none, hsorted, hstop, hnext]

/-- The pages from an offset on are the entries from there on. -/
theorem follow_sorted (hsorted : ∀ i, sortedEntries parent (calls i).entries = sorted)
    (hlen : sorted.length ≤ u64Max) (n i offset : Nat) (cursor : Option String)
    (hn : sorted.length - offset ≤ n) (hoffset : offset ≤ sorted.length)
    (hcursor : (cursor.mapM fun cursor => parseUsize cursor.toList) = some (some offset) ∨
      cursor = none ∧ offset = 0) :
    follow parent calls (n + 1) i cursor = some (sorted.drop offset) := by
  induction n generalizing i offset cursor with
  | zero =>
    have hallowed := (calls i).allowed
    rw [follow, list_sorted (hsorted i) hlen hcursor]
    dsimp only
    rw [if_neg (by omega), min_eq_right (by omega), List.take_length]
  | succ n ih =>
    have hallowed := (calls i).allowed
    rw [follow, list_sorted (hsorted i) hlen hcursor]
    dsimp only
    by_cases hlast : offset + (calls i).limit < sorted.length
    · have hparsed := Language.parseUsize_toDigits (n := offset + (calls i).limit) (by omega)
      rw [if_pos hlast]
      dsimp only
      rw [ih (i + 1) (offset + (calls i).limit) _ (by omega) (by omega)
        (.inl (by rw [Option.mapM_some, String.toList_ofList, hparsed]; rfl)), Option.map_some,
        min_eq_left hlast.le, ← List.drop_drop, List.drop_take, Nat.add_sub_cancel_left,
        List.take_append_drop]
    · rw [if_neg hlast, min_eq_right (by omega), List.take_length]

end Pages

/-! ## Names -/

section Names

variable {name : FileName} {text : String}

theorem upperHexDigit_inj {m n : Nat} (hm : m < 16) (hn : n < 16)
    (h : upperHexDigit m = upperHexDigit n) : m = n := by
  have key : ∀ m n : Fin 16, upperHexDigit m = upperHexDigit n → m = n := by decide
  exact Fin.mk.inj (key ⟨m, hm⟩ ⟨n, hn⟩ h)

theorem toNat_ofNat_byte (b : UInt8) : (Char.ofNat b.toNat).toNat = b.toNat := by
  have key : ∀ n : Fin 256, (Char.ofNat n).toNat = n := by decide +kernel
  exact key ⟨b.toNat, b.toNat_lt⟩

theorem escapeByte_cases (b : UInt8) :
    (b ≠ 37 ∧ escapeByte b = [Char.ofNat b.toNat]) ∨
      escapeByte b = ['%', upperHexDigit (b.toNat / 16), upperHexDigit (b.toNat % 16)] := by
  unfold escapeByte
  by_cases h : (isAsciiGraphic b && b ≠ 37) = true
  · rw [if_pos h]
    exact .inl ⟨of_decide_eq_true (Bool.and_eq_true_iff.mp h).2, rfl⟩
  · rw [if_neg h]
    exact .inr rfl

/-- A byte that stands for itself is not `%`, with which the others begin. -/
theorem ofNat_ne_percent {b : UInt8} (h : b ≠ 37) : Char.ofNat b.toNat ≠ '%' := by
  intro hc
  have hnat := toNat_ofNat_byte b
  rw [hc] at hnat
  exact h (UInt8.toNat_inj.mp hnat.symm)

theorem delimited_escapeByte : Delimited (fun _ => True) escapeByte := by
  intro a b u v _ _ h
  obtain ⟨hane, ha⟩ | ha := escapeByte_cases a <;> obtain ⟨hbne, hb⟩ | hb := escapeByte_cases b <;>
    rw [ha, hb] at h
  · obtain ⟨hc, hrest⟩ := List.cons.inj h
    have hnat := congrArg Char.toNat hc
    rw [toNat_ofNat_byte, toNat_ofNat_byte] at hnat
    exact ⟨UInt8.toNat_inj.mp hnat, hrest⟩
  · exact absurd (List.cons.inj h).1 (ofNat_ne_percent hane)
  · exact absurd (List.cons.inj h).1.symm (ofNat_ne_percent hbne)
  · obtain ⟨-, h⟩ := List.cons.inj h
    obtain ⟨hhigh, h⟩ := List.cons.inj h
    obtain ⟨hlow, hrest⟩ := List.cons.inj h
    have hlta := a.toNat_lt
    have hltb := b.toNat_lt
    have hdiv := upperHexDigit_inj (by omega) (by omega) hhigh
    have hmod := upperHexDigit_inj (by omega) (by omega) hlow
    exact ⟨UInt8.toNat_inj.mp (by omega), hrest⟩

theorem escapeByte_ne_nil (b : UInt8) : escapeByte b ≠ [] := by
  obtain ⟨-, h⟩ | h := escapeByte_cases b <;> rw [h] <;> exact List.cons_ne_nil _ _

theorem escapeByte_inj {a b : List UInt8} (h : a.flatMap escapeByte = b.flatMap escapeByte) :
    a = b :=
  delimited_escapeByte.flatMap_inj (fun b _ => escapeByte_ne_nil b) (fun _ _ => trivial)
    (fun _ _ => trivial) h

/-- What is shown of a name that is no UTF-8 is ASCII. -/
theorem percentEncoded_eq (bytes : List UInt8) :
    percentEncoded bytes = (bytes.flatMap escapeByte).flatMap utf8EncodeChar := by
  have key : ∀ n : Fin 256, percentEncoded [UInt8.ofFin n] =
      (escapeByte (UInt8.ofFin n)).flatMap utf8EncodeChar := by decide +kernel
  rw [List.flatMap_assoc]
  refine List.flatMap_congr fun b _ => ?_
  have hb := key b.toFin
  rwa [UInt8.ofFin_toFin, percentEncoded, List.flatMap_singleton] at hb

theorem displayName_some (h : String.fromUTF8? ⟨name.bytes.toArray⟩ = some text) :
    displayName name = (text, true) := by
  unfold displayName
  rw [h]

theorem displayName_none (h : String.fromUTF8? ⟨name.bytes.toArray⟩ = none) :
    displayName name = (String.ofList (name.bytes.flatMap escapeByte), false) := by
  unfold displayName
  rw [h]

/-- Two names are shown alike when they are the same, or one mimics the other. -/
theorem displayName_inj {a b : FileName} (h : (displayName a).1 = (displayName b).1) : a = b ∨
    (String.fromUTF8? ⟨a.bytes.toArray⟩ = none ∧ b.bytes = percentEncoded a.bytes) ∨
    (String.fromUTF8? ⟨b.bytes.toArray⟩ = none ∧ a.bytes = percentEncoded b.bytes) := by
  cases ha : String.fromUTF8? ⟨a.bytes.toArray⟩ with
  | some s =>
    rw [displayName_some ha] at h
    cases hb : String.fromUTF8? ⟨b.bytes.toArray⟩ with
    | some t =>
      rw [displayName_some hb] at h
      cases h
      exact .inl (FileName.ext ((fromUTF8?_eq_some ha).symm.trans (fromUTF8?_eq_some hb)))
    | none =>
      rw [displayName_none hb] at h
      have htext : s = String.ofList (b.bytes.flatMap escapeByte) := h
      refine .inr (.inr ⟨rfl, ?_⟩)
      rw [percentEncoded_eq, ← utf8Bytes_ofList, ← htext, fromUTF8?_eq_some ha]
  | none =>
    rw [displayName_none ha] at h
    cases hb : String.fromUTF8? ⟨b.bytes.toArray⟩ with
    | some t =>
      rw [displayName_some hb] at h
      have htext : String.ofList (a.bytes.flatMap escapeByte) = t := h
      refine .inr (.inl ⟨rfl, ?_⟩)
      rw [percentEncoded_eq, ← utf8Bytes_ofList, htext, fromUTF8?_eq_some hb]
    | none =>
      rw [displayName_none hb] at h
      exact .inl (FileName.ext (escapeByte_inj (String.ofList_injective h)))

/-- A name that mimics another is shown as the other is. -/
theorem displayName_of_mimic {a b : FileName} (ha : String.fromUTF8? ⟨a.bytes.toArray⟩ = none)
    (hb : b.bytes = percentEncoded a.bytes) : (displayName b).1 = (displayName a).1 := by
  have hutf8 : String.fromUTF8? ⟨b.bytes.toArray⟩ =
      some (String.ofList (a.bytes.flatMap escapeByte)) := by
    rw [hb, percentEncoded_eq, fromUTF8?_encode]
  rw [displayName_none ha, displayName_some hutf8]

end Names

/-! ## Paths -/

section Paths

variable {d : Directory} {parent : RemotePath} {a b : RawEntry} {text : String}

theorem directoryEntry_path (parent : RemotePath) (entry : RawEntry) :
    (directoryEntry parent entry).path = parent.join (directoryEntry parent entry).name := rfl

theorem RemotePath.join_inj {s t : String} (h : parent.join s = parent.join t) : s = t := by
  unfold RemotePath.join at h
  split_ifs at h
  · exact h
  · have hlist := congrArg String.toList h
    rw [String.toList_append, String.toList_append (s := parent.value ++ "/")] at hlist
    exact String.toList_inj.mp (List.append_cancel_left hlist)

theorem Directory.eq_of_fileName (ha : a ∈ d.entries) (hb : b ∈ d.entries)
    (h : a.fileName = b.fileName) : a = b :=
  List.inj_on_of_nodup_map d.names ha hb h

theorem RawEntry.location_inj (h : a.location parent = b.location parent) :
    a.fileName = b.fileName := by
  unfold RawEntry.location at h
  split_ifs at h
  · exact FileName.ext h
  · exact FileName.ext (List.cons.inj (List.append_cancel_left h)).2

/-- The path of a UTF-8 name is where the entry is. -/
theorem utf8Bytes_join (h : String.fromUTF8? ⟨a.fileName.bytes.toArray⟩ = some text) :
    utf8Bytes (parent.join text) = a.location parent := by
  have htext := fromUTF8?_eq_some h
  unfold RemotePath.join RawEntry.location
  split_ifs
  · exact htext
  · have hslash : utf8Bytes "/" = [47] := by decide
    unfold utf8Bytes at htext hslash ⊢
    rw [String.toList_append, String.toList_append, List.flatMap_append, List.flatMap_append,
      hslash, htext, List.append_assoc, List.singleton_append]

/-- The path of a UTF-8 name resolves to its entry exactly when the protocol accepts it. -/
theorem resolve_iff (ha : a ∈ d.entries)
    (h : String.fromUTF8? ⟨a.fileName.bytes.toArray⟩ = some text) :
    d.resolve parent (parent.join text) = some a ↔ isRemotePath (parent.join text) = true := by
  unfold Directory.resolve
  by_cases hpath : isRemotePath (parent.join text) = true
  · simp only [hpath, if_true, iff_true]
    rw [utf8Bytes_join h]
    cases hfind : d.entries.find? fun entry => entry.location parent = a.location parent with
    | none => exact absurd (decide_eq_true rfl) (List.find?_eq_none.mp hfind a ha)
    | some b =>
      have hb : b.location parent = a.location parent := by simpa using List.find?_some hfind
      rw [d.eq_of_fileName (List.mem_of_find?_eq_some hfind) ha (RawEntry.location_inj hb)]
  · simp only [hpath, Bool.false_eq_true, if_false, reduceCtorEq]

/-- Without mimics, entries that are shown alike are the same. -/
theorem NoMimic.inj (h : NoMimic d) (ha : a ∈ d.entries) (hb : b ∈ d.entries)
    (hname : (directoryEntry parent a).name = (directoryEntry parent b).name) : a = b := by
  obtain hsame | ⟨hutf8, hmimic⟩ | ⟨hutf8, hmimic⟩ := displayName_inj hname
  · exact d.eq_of_fileName ha hb hsame
  · exact absurd hmimic (h a ha b hb hutf8)
  · exact absurd hmimic (h b hb a ha hutf8)

/-- Without mimics, the order in which the directory is read does not matter. -/
theorem NoMimic.sortedEntries_eq {entries : List RawEntry} (h : NoMimic d)
    (hsame : entries.Perm d.entries) :
    sortedEntries parent entries = sortedEntries parent d.entries := by
  have hperm : (sortedEntries parent entries).Perm (sortedEntries parent d.entries) :=
    (List.perm_insertionSort _ _).trans
      ((hsame.map _).trans (List.perm_insertionSort _ _).symm)
  refine hperm.eq_of_pairwise ?_ (List.pairwise_insertionSort _ _) (List.pairwise_insertionSort _ _)
  intro x y hx hy hxy hyx
  obtain ⟨a, ha, rfl⟩ := List.mem_map.mp ((List.perm_insertionSort _ _).mem_iff.mp hx)
  obtain ⟨b, hb, rfl⟩ := List.mem_map.mp ((List.perm_insertionSort _ _).mem_iff.mp hy)
  rw [h.inj (hsame.mem_iff.mp ha) hb (le_antisymm hxy hyx)]

end Paths

/-! ## The law -/

/-- **A listing is lossless exactly when no name mimics an escaped one and every UTF-8 name makes a
path that the protocol accepts.** -/
theorem listing_law (d : Directory) (parent : RemotePath) :
    LosslessListing d parent ↔ NoMimic d ∧ AllAccepted d parent := by
  constructor
  · intro h
    refine ⟨fun a ha b hb hutf8 hmimic => ?_, fun a ha text htext => ?_⟩
    · have hne : a ≠ b := by
        rintro rfl
        rw [hmimic, percentEncoded_eq, fromUTF8?_encode] at hutf8
        cases hutf8
      refine h.distinct a ha b hb hne ?_
      rw [directoryEntry_path, directoryEntry_path]
      exact congrArg parent.join (displayName_of_mimic hutf8 hmimic).symm
    · have hshown := displayName_some htext
      have hpath := h.resolves a ha (congrArg Prod.snd hshown)
      rw [directoryEntry_path, show (directoryEntry parent a).name = text from
        congrArg Prod.fst hshown] at hpath
      exact (resolve_iff ha htext).mp hpath
  · rintro ⟨hmimic, haccepted⟩
    have hperm : (sortedEntries parent d.entries).Perm (d.entries.map (directoryEntry parent)) :=
      List.perm_insertionSort _ _
    refine ⟨fun calls => ?_, fun a ha b hb hne hpath => ?_, fun a ha heditable => ?_⟩
    · have hlen : (sortedEntries parent d.entries).length ≤ u64Max := by
        rw [hperm.length_eq, List.length_map]
        exact d.fits
      exact ⟨_, _, follow_sorted (fun i => hmimic.sortedEntries_eq (calls i).same) hlen _ 0 0 none
        le_rfl (Nat.zero_le _) (.inr ⟨rfl, rfl⟩), hperm, List.pairwise_insertionSort _ _⟩
    · rw [directoryEntry_path, directoryEntry_path] at hpath
      exact hne (hmimic.inj ha hb (RemotePath.join_inj hpath))
    · cases htext : String.fromUTF8? ⟨a.fileName.bytes.toArray⟩ with
      | none =>
        have hfalse : (directoryEntry parent a).editableName = false :=
          congrArg Prod.snd (displayName_none htext)
        rw [hfalse] at heditable
        cases heditable
      | some text =>
        rw [directoryEntry_path, show (directoryEntry parent a).name = text from
          congrArg Prod.fst (displayName_some htext)]
        exact (resolve_iff ha htext).mpr (haccepted a ha text htext)

/-- A file `a%FF`, and one whose name is an `a` and the byte `ff`: they have the same path. -/
theorem mimic_same_path : ∃ (d : Directory) (parent : RemotePath),
    d.entries.map (·.fileName.bytes) = [[97, 37, 70, 70], [97, 255]] ∧ parent.value = "" ∧
      ¬LosslessListing d parent := by
  refine ⟨⟨[⟨⟨[97, 37, 70, 70], by decide⟩, .file, some 1⟩, ⟨⟨[97, 255], by decide⟩, .file, some 2⟩],
    by decide, by decide⟩, ⟨"", .inl rfl⟩, rfl, rfl, fun h => ?_⟩
  refine h.distinct _ List.mem_cons_self _ (List.mem_cons_of_mem _ List.mem_cons_self)
    (by decide) ?_
  decide

end Strukt.Remote
