import Strukt.Lib.Backup
import Strukt.Lib.Json
import Strukt.Lib.SortedMap
import Strukt.Remote.Helper

/-!
# The store of remote connections

`RemoteStore` keeps the records of known hosts in one JSON document, and the document before it as a
backup. Every operation loads the records, changes the list, and writes a new document.

* **Members that are not declared** (`extensions`) are kept by the document, by each record and by
  the metadata of its helper, after the declared ones. An operation writes a document without them.
* **Reading is stricter than writing**: a document is used where it can be parsed, has the schema, at
  most 256 records, and valid ones. What is not used is skipped for the backup.
* **What is read back** (`readDocument_toVec`): a record whose own extensions have the names of
  declared fields, or are nested too deeply, makes the whole document unreadable.
-/

namespace Strukt

inductive RemoteSessionProviderPreference where
  | native
  | tmux
  deriving DecidableEq

structure RemoteHelperMetadata where
  version : String
  checksumSha256 : String
  extensions : SortedMap String Json

structure RemoteConnectionRecord where
  connectionId : String
  aliasLabel : String
  displayName : Option String
  recentRoots : List String
  helper : Option RemoteHelperMetadata
  preferredSessionProvider : Option RemoteSessionProviderPreference
  extensions : SortedMap String Json

inductive RemoteStoreError where
  | invalidRecord
  | io
  | json
  deriving DecidableEq

/-! ## Checks -/

def isDigit (c : Char) : Bool := 48 ≤ c.toNat && c.toNat ≤ 57

def isLetter (c : Char) : Bool :=
  (65 ≤ c.toNat && c.toNat ≤ 90) || (97 ≤ c.toNat && c.toNat ≤ 122)

def validVersion (version : String) : Bool :=
  0 < version.utf8ByteSize && version.utf8ByteSize ≤ 64 &&
    version.toList.all
      (fun c => isLetter c || isDigit c || c.toNat = 46 || c.toNat = 45 || c.toNat = 43) &&
    version.toList.any isDigit

/-- A root as a record may have it: absolute or below the home, without `..` and controls. -/
def validRoot (root : String) : Bool :=
  (root.toList.head? = some '/' || root = "~" || root.toList.take 2 = ['~', '/']) &&
    (root.toList.splitOn '/').all (· ≠ ['.', '.']) && !root.toList.any isControl

def RemoteHelperMetadata.validate (h : RemoteHelperMetadata) : Bool :=
  validVersion h.version && h.checksumSha256.utf8ByteSize = 64 &&
    h.checksumSha256.toList.all fun c => isDigit c || (isLetter c && c.toLower.toNat ≤ 102)

namespace RemoteConnectionRecord

def validate (r : RemoteConnectionRecord) : Bool :=
  (r.connectionId.utf8ByteSize = 32 &&
      r.connectionId.toList.all fun c => isDigit c || (97 ≤ c.toNat && c.toNat ≤ 102)) &&
    (0 < r.aliasLabel.utf8ByteSize && r.aliasLabel.utf8ByteSize ≤ 255 &&
      r.aliasLabel.toList.head? ≠ some '-' && !r.aliasLabel.toList.any isControl) &&
    r.displayName.all (fun label =>
      0 < label.utf8ByteSize && label.utf8ByteSize ≤ 128 && !label.toList.any isControl) &&
    (r.recentRoots.length ≤ 20 && r.recentRoots.all validRoot) && r.helper.all (·.validate)

def loweredAlias (r : RemoteConnectionRecord) : String := r.aliasLabel.map Char.toLower

/-- The order of records: by alias in lower case, then by identifier. -/
def Le (a b : RemoteConnectionRecord) : Prop :=
  a.loweredAlias < b.loweredAlias ∨
    (a.loweredAlias = b.loweredAlias ∧ a.connectionId ≤ b.connectionId)

instance : DecidableRel Le := fun _ _ => inferInstanceAs (Decidable (_ ∨ _))

end RemoteConnectionRecord

/-! ## Encodings -/

namespace RemoteSessionProviderPreference

def toJson : RemoteSessionProviderPreference → Json
  | .native => .string "native"
  | .tmux => .string "tmux"

def fromJson (v : Json) : Option RemoteSessionProviderPreference :=
  match v.asUnit with
  | some "native" => some .native
  | some "tmux" => some .tmux
  | _ => none

end RemoteSessionProviderPreference

namespace RemoteHelperMetadata

def fieldNames : List String := ["version", "checksum_sha256"]

def toJson (h : RemoteHelperMetadata) : Json :=
  .object ([("version", .string h.version), ("checksum_sha256", .string h.checksumSha256)] ++
    h.extensions.entries)

def fromJson (v : Json) : Option RemoteHelperMetadata := do
  let (field, rest) ← v.fieldsWithRest fieldNames
  let version ← (field "version").bind Json.asString
  let checksumSha256 ← (field "checksum_sha256").bind Json.asString
  return ⟨version, checksumSha256, .ofList rest⟩

end RemoteHelperMetadata

namespace RemoteConnectionRecord

def fieldNames : List String :=
  ["connection_id", "alias", "display_name", "recent_roots", "helper",
    "preferred_session_provider"]

def toJson (r : RemoteConnectionRecord) : Json :=
  .object
    ([("connection_id", .string r.connectionId), ("alias", .string r.aliasLabel),
      ("display_name", r.displayName.elim .null .string),
      ("recent_roots", .array (r.recentRoots.map .string)),
      ("helper", r.helper.elim .null (·.toJson)),
      ("preferred_session_provider", r.preferredSessionProvider.elim .null (·.toJson))] ++
    r.extensions.entries)

def fromJson (v : Json) : Option RemoteConnectionRecord := do
  let (field, rest) ← v.fieldsWithRest fieldNames
  let connectionId ← (field "connection_id").bind Json.asString
  let aliasLabel ← (field "alias").bind Json.asString
  let displayName ← Json.optionalField Json.asString (field "display_name")
  let recentRoots ← (field "recent_roots").bind Json.asArray
  let recentRoots ← recentRoots.mapM Json.asString
  let helper ← Json.optionalField RemoteHelperMetadata.fromJson (field "helper")
  let preferred ← Json.optionalField RemoteSessionProviderPreference.fromJson
    (field "preferred_session_provider")
  return ⟨connectionId, aliasLabel, displayName, recentRoots, helper, preferred, .ofList rest⟩

end RemoteConnectionRecord

namespace RemoteStore

def currentSchema : Nat := 1

structure RemoteDocument where
  schemaVersion : Nat
  connections : List RemoteConnectionRecord
  extensions : SortedMap String Json

namespace RemoteDocument

def validate (d : RemoteDocument) : Bool :=
  d.schemaVersion = currentSchema && d.connections.length ≤ 256 && d.connections.all (·.validate)

def fieldNames : List String := ["schema_version", "connections"]

def toJson (d : RemoteDocument) : Json :=
  .object
    ([("schema_version", .natural d.schemaVersion),
      ("connections", .array (d.connections.map (·.toJson)))] ++ d.extensions.entries)

def fromJson (v : Json) : Option RemoteDocument := do
  let (field, rest) ← v.fieldsWithRest fieldNames
  let schemaVersion ← (field "schema_version").bind (Json.asUnsigned 32)
  let connections ← (field "connections").bind Json.asArray
  let connections ← connections.mapM RemoteConnectionRecord.fromJson
  return ⟨schemaVersion, connections, .ofList rest⟩

end RemoteDocument

/-! ## The store -/

variable {τ : Type} (J : JsonText τ)

/-- A file that is there, with whether it can be read. -/
def readDocument (reads : Bool) (bytes : τ) : Except RemoteStoreError RemoteDocument :=
  if !reads then .error .io
  else
    match (J.fromSlice bytes).bind RemoteDocument.fromJson with
    | none => .error .json
    | some document => .ok document

/-- The loop of `load`: each file with whether it can be read. -/
def loadFirst : List (Option τ × Bool) → Except RemoteStoreError (List RemoteConnectionRecord)
  | [] => .ok []
  | (none, _) :: files => loadFirst files
  | (some bytes, reads) :: files =>
    match readDocument J reads bytes with
    | .ok document => if document.validate then .ok document.connections else loadFirst files
    | .error .io => .error .io
    | .error _ => loadFirst files

structure LoadIo where
  readsCurrent : Bool
  readsBackup : Bool

def load (io : LoadIo) (files : Backed τ) :
    Except RemoteStoreError (List RemoteConnectionRecord) :=
  loadFirst J [(files.current, io.readsCurrent), (files.backup, io.readsBackup)]

/-- What comes of writing a file: its permissions are set after it is replaced. -/
inductive Written where
  | written
  | unprotected
  | failed
  deriving DecidableEq

/-- What happens to an operation: which of its file operations succeed. -/
structure StoreIo extends LoadIo where
  createsDirectory : Bool
  readsPrevious : Bool
  backup : Written
  current : Written

def writeDocument (outcome : Written) (document : RemoteDocument) (file : Option τ) :
    Except RemoteStoreError Unit × Option τ :=
  match outcome with
  | .written => (.ok (), some (J.toVec document.toJson))
  | .unprotected => (.error .io, some (J.toVec document.toJson))
  | .failed => (.error .io, file)

/-- The document that becomes the backup. -/
def previous (io : StoreIo) (files : Backed τ) : Option RemoteDocument :=
  files.current.bind fun bytes =>
    (readDocument J io.readsPrevious bytes).toOption.filter (·.validate)

/-- The backup written, where there is a document for it. -/
def writeBackup (io : StoreIo) (files : Backed τ) : Except RemoteStoreError Unit × Option τ :=
  match previous J io files with
  | none => (.ok (), files.backup)
  | some previous => writeDocument J io.backup previous files.backup

def document (connections : List RemoteConnectionRecord) : RemoteDocument :=
  ⟨currentSchema, connections, .empty⟩

def write (io : StoreIo) (connections : List RemoteConnectionRecord) (files : Backed τ) :
    Except RemoteStoreError Unit × Backed τ :=
  if !io.createsDirectory then (.error .io, files)
  else
    let (kept, backup) := writeBackup J io files
    match kept with
    | .error error => (.error error, { files with backup })
    | .ok () =>
      let (result, current) := writeDocument J io.current (document connections) files.current
      (result, ⟨current, backup⟩)

def sortRecords (records : List RemoteConnectionRecord) : List RemoteConnectionRecord :=
  records.mergeSort fun a b => decide (a.Le b)

def upsert (io : StoreIo) (record : RemoteConnectionRecord) (files : Backed τ) :
    Except RemoteStoreError Unit × Backed τ :=
  if !record.validate then (.error .invalidRecord, files)
  else
    match load J io.toLoadIo files with
    | .error error => (.error error, files)
    | .ok connections =>
      let others := connections.filter (·.connectionId ≠ record.connectionId)
      write J io (sortRecords (others ++ [record])) files

def forget (io : StoreIo) (connectionId : String) (files : Backed τ) :
    Except RemoteStoreError Bool × Backed τ :=
  match load J io.toLoadIo files with
  | .error error => (.error error, files)
  | .ok connections =>
    let others := connections.filter (·.connectionId ≠ connectionId)
    if others.length = connections.length then (.ok false, files)
    else
      let (result, files) := write J io others files
      (result.map fun () => true, files)

inductive Operation where
  | upsert (record : RemoteConnectionRecord)
  | forget (connectionId : String)

def perform (io : StoreIo) (op : Operation) (files : Backed τ) :
    Except RemoteStoreError Unit × Backed τ :=
  match op with
  | .upsert record => upsert J io record files
  | .forget connectionId =>
    let (result, files) := forget J io connectionId files
    (result.map fun _ => (), files)

/-- The files after some operations, where all of them succeed. -/
def performAll : List (StoreIo × Operation) → Backed τ → Option (Backed τ)
  | [], files => some files
  | (io, op) :: ops, files =>
    match perform J io op files with
    | (.ok (), files) => performAll ops files
    | (.error _, _) => none

end RemoteStore

/-! ## What is read of what is written -/

def RemoteHelperMetadata.apart (h : RemoteHelperMetadata) : Bool :=
  h.extensions.keys.all (· ∉ fieldNames)

def RemoteConnectionRecord.apart (r : RemoteConnectionRecord) : Bool :=
  r.extensions.keys.all (· ∉ fieldNames) && r.helper.all (·.apart)

theorem RemoteHelperMetadata.fromJson_toJson (h : RemoteHelperMetadata) :
    fromJson h.toJson = if h.apart then some h else none := by
  unfold fromJson toJson apart
  rw [Json.fieldsWithRest_entries fieldNames rfl (by decide)]
  split
  · show some _ = some _
    rw [SortedMap.ofList_entries]
  · rfl

theorem RemoteSessionProviderPreference.fromJson_toJson (p : RemoteSessionProviderPreference) :
    fromJson p.toJson = some p := by
  cases p <;> rfl

theorem RemoteConnectionRecord.fromJson_toJson (r : RemoteConnectionRecord) :
    fromJson r.toJson = if r.apart then some r else none := by
  obtain ⟨connectionId, aliasLabel, displayName, recentRoots, helper, preferred, extensions⟩ := r
  unfold fromJson toJson apart
  rw [Json.fieldsWithRest_entries fieldNames rfl (by decide)]
  dsimp only
  cases extensions.keys.all (· ∉ fieldNames) with
  | false => rfl
  | true =>
    have hname : Json.asOption Json.asString (displayName.elim .null .string) =
        if displayName.all fun _ => true then some displayName else none :=
      Json.asOption_encode (fun s h => by cases h) (fun _ => rfl) displayName
    have hhelper : Json.asOption RemoteHelperMetadata.fromJson (helper.elim .null (·.toJson)) =
        if helper.all (·.apart) then some helper else none :=
      Json.asOption_encode (fun h hn => by cases hn) RemoteHelperMetadata.fromJson_toJson helper
    have hpreferred : Json.asOption RemoteSessionProviderPreference.fromJson
        (preferred.elim .null (·.toJson)) =
          if preferred.all fun _ => true then some preferred else none :=
      Json.asOption_encode (fun p h => by cases p <;> cases h)
        RemoteSessionProviderPreference.fromJson_toJson preferred
    show ((Json.asOption Json.asString (displayName.elim .null .string)).bind fun displayName =>
      ((recentRoots.map Json.string).mapM Json.asString).bind fun recentRoots =>
      (Json.asOption RemoteHelperMetadata.fromJson (helper.elim .null (·.toJson))).bind fun helper =>
      (Json.asOption RemoteSessionProviderPreference.fromJson
        (preferred.elim .null (·.toJson))).bind fun preferred =>
      some (RemoteConnectionRecord.mk connectionId aliasLabel displayName recentRoots helper preferred
        (.ofList extensions.entries))) = _
    rw [hname, hpreferred, hhelper, Json.mapM_string, SortedMap.ofList_entries]
    simp only [Option.all_true, if_true, Option.bind_some, Bool.true_and]
    cases helper.all (·.apart) <;> rfl

variable {f : UInt64 → UInt64}

/-- The metadata with `f` applied to the floats in its undeclared members. -/
def RemoteHelperMetadata.reread (f : UInt64 → UInt64) (h : RemoteHelperMetadata) :
    RemoteHelperMetadata :=
  { h with extensions := h.extensions.mapValues (Json.mapFloats f) }

/-- The record with `f` applied to the floats in its undeclared members. -/
def RemoteConnectionRecord.reread (f : UInt64 → UInt64) (r : RemoteConnectionRecord) :
    RemoteConnectionRecord :=
  { r with
    helper := r.helper.map (·.reread f)
    extensions := r.extensions.mapValues (Json.mapFloats f) }

theorem RemoteHelperMetadata.mapFloats_toJson (h : RemoteHelperMetadata) :
    h.toJson.mapFloats f = (h.reread f).toJson := by
  unfold toJson reread
  rw [Json.mapFloats, Json.mapMembers_eq, List.map_append]
  rfl

theorem RemoteConnectionRecord.mapFloats_toJson (r : RemoteConnectionRecord) :
    r.toJson.mapFloats f = (r.reread f).toJson := by
  obtain ⟨connectionId, aliasLabel, displayName, recentRoots, helper, preferred, extensions⟩ := r
  have hname : (displayName.elim Json.null .string).mapFloats f = displayName.elim .null .string := by
    cases displayName <;> rfl
  have hroots : (Json.array (recentRoots.map .string)).mapFloats f =
      .array (recentRoots.map .string) := by
    rw [Json.mapFloats, Json.mapItems_eq, List.map_map]
    rfl
  have hhelper : (helper.elim Json.null (·.toJson)).mapFloats f =
      (helper.map (·.reread f)).elim .null (·.toJson) := by
    cases helper with
    | none => rfl
    | some h => exact h.mapFloats_toJson
  have hpreferred : (preferred.elim Json.null (·.toJson)).mapFloats f =
      preferred.elim .null (·.toJson) := by
    cases preferred with
    | none => rfl
    | some p => cases p <;> rfl
  unfold toJson reread
  rw [Json.mapFloats, Json.mapMembers_eq, List.map_append]
  simp only [List.map_cons, List.map_nil, hname, hroots, hhelper, hpreferred]
  rfl

theorem RemoteConnectionRecord.apart_reread (r : RemoteConnectionRecord) :
    (r.reread f).apart = r.apart := by
  unfold apart reread
  cases r.helper with
  | none => simp only [SortedMap.keys_mapValues, Option.map_none]
  | some h =>
    simp only [SortedMap.keys_mapValues, Option.map_some, Option.all_some,
      RemoteHelperMetadata.apart, RemoteHelperMetadata.reread]

namespace RemoteConnectionRecord

theorem Le.trans {a b c : RemoteConnectionRecord} (hab : a.Le b) (hbc : b.Le c) : a.Le c := by
  rcases hab with hab | ⟨hab, hid⟩
  · rcases hbc with hbc | ⟨hbc, -⟩
    · exact .inl (lt_trans hab hbc)
    · exact .inl (hbc ▸ hab)
  · rcases hbc with hbc | ⟨hbc, hid'⟩
    · exact .inl (hab ▸ hbc)
    · exact .inr ⟨hab.trans hbc, le_trans hid hid'⟩

theorem Le.total (a b : RemoteConnectionRecord) : a.Le b ∨ b.Le a := by
  rcases lt_trichotomy a.loweredAlias b.loweredAlias with h | h | h
  · exact .inl (.inl h)
  · rcases le_total a.connectionId b.connectionId with hid | hid
    · exact .inl (.inr ⟨h, hid⟩)
    · exact .inr (.inr ⟨h.symm, hid⟩)
  · exact .inr (.inl h)

end RemoteConnectionRecord

namespace RemoteStore

variable {τ : Type} {J : JsonText τ} {records : List RemoteConnectionRecord}

/-- The text of a document with the record can be parsed, and gives the record. -/
structure Storable (J : JsonText τ) (r : RemoteConnectionRecord) : Prop where
  apart : r.apart
  depth : r.toJson.depth + 2 ≤ J.limit
  floats : r.reread J.rereadFloat = r

theorem depth_document :
    (document records).toJson.depth ≤ J.limit ↔
      2 ≤ J.limit ∧ ∀ r ∈ records, r.toJson.depth + 2 ≤ J.limit := by
  have hdepth : (document records).toJson.depth =
      Json.depthItems (records.map (·.toJson)) + 2 := by
    show max 0 (max _ 0) + 1 = _
    rw [Nat.max_zero, Nat.zero_max]
    rfl
  rw [hdepth]
  constructor
  · intro h
    refine ⟨by omega, fun r hr => ?_⟩
    have := Json.depthItems_le.mp (le_refl (Json.depthItems (records.map (·.toJson)))) _
      (List.mem_map_of_mem hr)
    omega
  · rintro ⟨hlimit, hall⟩
    have : Json.depthItems (records.map (·.toJson)) ≤ J.limit - 2 := by
      refine Json.depthItems_le.mpr fun v hv => ?_
      obtain ⟨r, hr, rfl⟩ := List.mem_map.mp hv
      have := hall r hr
      omega
    omega

/-- What is read of a document that was written. -/
theorem readDocument_toVec :
    readDocument J true (J.toVec (document records).toJson) =
      if 2 ≤ J.limit ∧ ∀ r ∈ records, r.apart ∧ r.toJson.depth + 2 ≤ J.limit then
        .ok (document (records.map (·.reread J.rereadFloat)))
      else .error .json := by
  have hdecode : RemoteDocument.fromJson ((document records).toJson.mapFloats J.rereadFloat) =
      if records.all (·.apart) then some (document (records.map (·.reread J.rereadFloat)))
      else none := by
    have hitems : Json.mapItems J.rereadFloat (records.map (·.toJson)) =
        (records.map (·.reread J.rereadFloat)).map (·.toJson) := by
      rw [Json.mapItems_eq, List.map_map, List.map_map]
      exact List.map_congr_left fun r _ => r.mapFloats_toJson
    have hall : (records.map (·.reread J.rereadFloat)).all (·.apart) = records.all (·.apart) := by
      rw [List.all_map]
      exact congrArg records.all (funext fun r => r.apart_reread)
    show ((((Json.mapItems J.rereadFloat (records.map (·.toJson))).mapM
      RemoteConnectionRecord.fromJson).bind fun connections =>
        some (RemoteDocument.mk currentSchema connections (.ofList [])))) = _
    rw [hitems, Json.mapM_encode RemoteConnectionRecord.fromJson_toJson, hall]
    cases records.all (·.apart) <;> rfl
  unfold readDocument
  rw [if_neg (by decide), J.fromSlice_toVec]
  by_cases hdepth : (document records).toJson.depth ≤ J.limit
  · rw [if_pos hdepth, Option.bind_some, hdecode]
    obtain ⟨hlimit, hrecords⟩ := depth_document.mp hdepth
    cases hall : records.all (·.apart) with
    | true =>
      have hall := List.all_eq_true.mp hall
      exact (if_pos ⟨hlimit, fun r hr => ⟨hall r hr, hrecords r hr⟩⟩).symm
    | false =>
      obtain ⟨r, hr, hapart⟩ := List.all_eq_false.mp hall
      exact (if_neg fun h => hapart (h.2 r hr).1).symm
  · rw [if_neg hdepth]
    exact (if_neg fun h =>
      hdepth (depth_document.mpr ⟨h.1, fun r hr => (h.2 r hr).2⟩)).symm

end RemoteStore
end Strukt
