import Strukt.Lib.Backup
import Strukt.Prim

/-!
# Recovery records

`EditorRecoveryStore` keeps the unsaved text of a document in an encrypted record, and the record
before it as a backup. The metadata of a record is authenticated with it: a record is read under the
metadata it was written with, and under no other.

* **Files**: the names of both files come from the workspace and the path alone, so what is modelled
  are the two files of one document. A write replaces a file or fails, a removal removes one or
  fails, and a save or a deletion can be cut off in between.
* **Payloads** (`kept`): what the two files hold after some saves.
* **The law** (`deletion_law`): a deletion that ends between the two removals leaves the older
  record.
-/

namespace Strukt

structure RecoveryMetadata where
  workspaceId : String
  documentPath : String
  baseline : String
  deriving DecidableEq

structure RecoveryPayload where
  metadata : RecoveryMetadata
  documentRevision : UInt64
  text : String
  deriving DecidableEq

inductive RecoveryKeyError where
  | unavailable (message : String)
  | provider (message : String)
  deriving DecidableEq

inductive RecoveryStoreError where
  | key (error : RecoveryKeyError)
  | encryption
  | authentication
  | unsupportedSchema (schema : UInt32)
  | io
  | json
  deriving DecidableEq

abbrev RecoveryKey := Vector UInt8 32

/-- An envelope, over the type of byte strings. -/
structure RecoveryEnvelope (τ : Type) where
  schemaVersion : UInt32
  nonce : Vector UInt8 24
  ciphertext : τ

namespace EditorRecoveryStore

def currentSchema : UInt32 := 1

/-- The JSON of payloads and envelopes, and an ideal authenticated cipher. What is written is read,
and what is encrypted is decrypted with the same data, and with no other. -/
structure Codec (τ : Type) where
  writePayload : RecoveryPayload → τ
  readPayload : τ → Option RecoveryPayload
  /-- The schema version and the metadata, as JSON. -/
  authenticatedBytes : RecoveryMetadata → τ
  encrypt : RecoveryKey → Vector UInt8 24 → τ → τ → Option τ
  decrypt : RecoveryKey → Vector UInt8 24 → τ → τ → Option τ
  writeEnvelope : RecoveryEnvelope τ → τ
  readEnvelope : τ → Option (RecoveryEnvelope τ)
  readPayload_write : ∀ p, readPayload (writePayload p) = some p
  decrypt_encrypt : ∀ key nonce plaintext aad ciphertext,
    encrypt key nonce plaintext aad = some ciphertext → ∀ aad',
      (aad' = aad → decrypt key nonce ciphertext aad' = some plaintext) ∧
        (aad' ≠ aad → decrypt key nonce ciphertext aad' = none)
  readEnvelope_write : ∀ e, readEnvelope (writeEnvelope e) = some e

variable {τ : Type} (C : Codec τ) (key : RecoveryKey)

def encode (payload : RecoveryPayload) (nonce : Vector UInt8 24) :
    Except RecoveryStoreError (RecoveryEnvelope τ) :=
  match C.encrypt key nonce (C.writePayload payload) (C.authenticatedBytes payload.metadata) with
  | none => .error .encryption
  | some ciphertext => .ok ⟨currentSchema, nonce, ciphertext⟩

def decode (metadata : RecoveryMetadata) (bytes : τ) : Except RecoveryStoreError RecoveryPayload :=
  match C.readEnvelope bytes with
  | none => .error .json
  | some envelope =>
    if envelope.schemaVersion ≠ currentSchema then
      .error (.unsupportedSchema envelope.schemaVersion)
    else
      match C.decrypt key envelope.nonce envelope.ciphertext (C.authenticatedBytes metadata) with
      | none => .error .authentication
      | some plaintext =>
        match C.readPayload plaintext with
        | none => .error .json
        | some payload =>
          if payload.metadata ≠ metadata then .error .authentication else .ok payload

/-- What happens to a save: whether there is a key, which file operations succeed, whether it ends
between its two writes, and the nonce that it draws. -/
structure SaveIo where
  keyError : Option RecoveryKeyError
  readsCurrent : Bool
  writesBackup : Bool
  interrupted : Bool
  nonce : Vector UInt8 24
  writesCurrent : Bool

/-- The result, which is missing where the save is cut off. -/
def save (io : SaveIo) (payload : RecoveryPayload) (files : Backed τ) :
    Option (Except RecoveryStoreError Unit) × Backed τ :=
  match io.keyError with
  | some error => (some (.error (.key error)), files)
  | none =>
    let opened (bytes : τ) := (decode C key payload.metadata bytes).toOption
    let refreshes := io.readsCurrent && (files.current.bind opened).isSome
    if refreshes && !io.writesBackup then (some (.error .io), files)
    else
      let files := if refreshes then files.refresh opened else files
      if io.interrupted then (none, files)
      else
        match encode C key payload io.nonce with
        | .error error => (some (.error error), files)
        | .ok envelope =>
          if io.writesCurrent then (some (.ok ()), files.put (C.writeEnvelope envelope))
          else (some (.error .io), files)

structure LoadIo where
  keyError : Option RecoveryKeyError
  readsCurrent : Bool
  readsBackup : Bool

/-- The loop of `load`: each file with whether it can be read. -/
def loadFirst (metadata : RecoveryMetadata) :
    List (Option τ × Bool) → Option RecoveryStoreError →
      Except RecoveryStoreError (Option RecoveryPayload)
  | [], lastError => .error (lastError.getD .authentication)
  | (none, _) :: files, lastError => loadFirst metadata files lastError
  | (some _, false) :: _, _ => .error .io
  | (some bytes, true) :: files, _ =>
    match decode C key metadata bytes with
    | .ok payload => .ok (some payload)
    | .error error => loadFirst metadata files (some error)

def load (io : LoadIo) (metadata : RecoveryMetadata) (files : Backed τ) :
    Except RecoveryStoreError (Option RecoveryPayload) :=
  if files.current.isNone && files.backup.isNone then .ok none
  else
    match io.keyError with
    | some error => .error (.key error)
    | none => loadFirst C key metadata
        [(files.current, io.readsCurrent), (files.backup, io.readsBackup)] none

/-- What happens to the removal of a file, where a file that is missing counts as removed. -/
inductive Removal where
  | removed
  | failed
  | interrupted
  deriving DecidableEq

structure DeleteIo where
  current : Removal
  backup : Removal

/-- The current file is removed before the backup. -/
def delete (io : DeleteIo) (files : Backed τ) :
    Option (Except RecoveryStoreError Unit) × Backed τ :=
  match io.current with
  | .interrupted => (none, files)
  | .failed => (some (.error .io), files)
  | .removed =>
    let files := { files with current := none }
    match io.backup with
    | .interrupted => (none, files)
    | .failed => (some (.error .io), files)
    | .removed => (some (.ok ()), { files with backup := none })

/-- The files after some saves, and the payload of the last one that succeeded. -/
def saveAll : List (SaveIo × RecoveryPayload) → Backed τ → Option RecoveryPayload →
    Backed τ × Option RecoveryPayload
  | [], files, latest => (files, latest)
  | (io, payload) :: saves, files, latest =>
    let (result, files) := save C key io payload files
    saveAll saves files (if result = some (.ok ()) then some payload else latest)

/-! ## What the files hold -/

/-- The payload where it has the metadata. -/
def openedAs (metadata : RecoveryMetadata) (payload : RecoveryPayload) : Option RecoveryPayload :=
  if payload.metadata = metadata then some payload else none

/-- The payloads in the files after a save. -/
def keep (io : SaveIo) (payload : RecoveryPayload) (kept : Backed RecoveryPayload) :
    Backed RecoveryPayload :=
  let refreshes := io.readsCurrent && (kept.current.bind (openedAs payload.metadata)).isSome
  if io.keyError.isSome || (refreshes && !io.writesBackup) then kept
  else
    let kept := if refreshes then kept.refresh (openedAs payload.metadata) else kept
    if io.interrupted || (encode C key payload io.nonce).toOption.isNone || !io.writesCurrent then
      kept
    else kept.put payload

/-- The payloads in the files after some saves. -/
def keptBy (saves : List (SaveIo × RecoveryPayload)) : Backed RecoveryPayload :=
  saves.foldl (fun kept s => keep C key s.1 s.2 kept) .empty

/-- The file holds the payload, for its metadata only. -/
def Seals (bytes : τ) (payload : RecoveryPayload) : Prop :=
  ∀ metadata, (decode C key metadata bytes).toOption = openedAs metadata payload

/-- The files hold the payloads. -/
structure Holds (files : Backed τ) (kept : Backed RecoveryPayload) : Prop where
  current : Option.Rel (Seals C key) files.current kept.current
  backup : Option.Rel (Seals C key) files.backup kept.backup

variable {C key}

theorem seals_encode {payload : RecoveryPayload} {nonce : Vector UInt8 24}
    {envelope : RecoveryEnvelope τ} (h : encode C key payload nonce = .ok envelope) :
    Seals C key (C.writeEnvelope envelope) payload := by
  unfold encode at h
  cases hc : C.encrypt key nonce (C.writePayload payload)
      (C.authenticatedBytes payload.metadata) with
  | none =>
    rw [hc] at h
    cases h
  | some ciphertext =>
    rw [hc] at h
    cases h
    intro metadata
    unfold decode openedAs
    obtain ⟨hsame, hother⟩ := C.decrypt_encrypt _ _ _ _ _ hc (C.authenticatedBytes metadata)
    simp only [C.readEnvelope_write, ne_eq, not_true_eq_false, if_false]
    by_cases hm : payload.metadata = metadata
    · subst hm
      simp only [hsame rfl, C.readPayload_write, not_true_eq_false, if_false, if_true]
      rfl
    · rw [if_neg hm]
      by_cases haad : C.authenticatedBytes metadata = C.authenticatedBytes payload.metadata
      · simp only [hsame haad, C.readPayload_write, if_pos hm]
        rfl
      · simp only [hother haad]
        rfl

/-- What a file gives under a metadata is what it holds. -/
theorem bind_decode {file : Option τ} {payload : Option RecoveryPayload}
    (h : Option.Rel (Seals C key) file payload) (metadata : RecoveryMetadata) :
    file.bind (fun bytes => (decode C key metadata bytes).toOption) =
      payload.bind (openedAs metadata) := by
  cases h with
  | none => rfl
  | some hs => exact hs metadata

theorem Holds.refresh {files : Backed τ} {kept : Backed RecoveryPayload}
    (h : Holds C key files kept) (metadata : RecoveryMetadata) :
    Holds C key (files.refresh fun bytes => (decode C key metadata bytes).toOption)
      (kept.refresh (openedAs metadata)) := by
  unfold Backed.refresh
  rw [bind_decode h.current]
  split
  · exact ⟨h.current, h.current⟩
  · exact h

/-- A save does to the files what `keep` does to the payloads in them, and succeeds where its
payload is the current one then. -/
theorem save_holds {files : Backed τ} {kept : Backed RecoveryPayload} (h : Holds C key files kept)
    (io : SaveIo) (payload : RecoveryPayload) :
    Holds C key (save C key io payload files).2 (keep C key io payload kept) ∧
      (keep C key io payload kept).current =
        if (save C key io payload files).1 = some (.ok ()) then some payload else kept.current := by
  unfold save keep
  cases hkey : io.keyError with
  | some error => exact ⟨h, rfl⟩
  | none =>
    simp only [bind_decode h.current, Option.isSome_none, Bool.false_or]
    split
    · next hfails =>
      exact ⟨h, by simp⟩
    · have hrefresh : Holds C key
          (if (io.readsCurrent && (kept.current.bind (openedAs payload.metadata)).isSome) = true then
            files.refresh fun bytes => (decode C key payload.metadata bytes).toOption else files)
          (if (io.readsCurrent && (kept.current.bind (openedAs payload.metadata)).isSome) = true then
            kept.refresh (openedAs payload.metadata) else kept) := by
        split
        · exact h.refresh payload.metadata
        · exact h
      have hcurrent : (if (io.readsCurrent &&
            (kept.current.bind (openedAs payload.metadata)).isSome) = true then
            kept.refresh (openedAs payload.metadata) else kept).current = kept.current := by
        split
        · exact Backed.current_refresh
        · rfl
      cases hint : io.interrupted with
      | true => exact ⟨hrefresh, hcurrent⟩
      | false =>
        cases henc : encode C key payload io.nonce with
        | error error => exact ⟨hrefresh, hcurrent⟩
        | ok envelope =>
          cases hwrite : io.writesCurrent with
          | false => exact ⟨hrefresh, hcurrent⟩
          | true => exact ⟨⟨.some (seals_encode henc), hrefresh.backup⟩, rfl⟩

/-- After some saves the files hold what was kept, and the current payload is the one of the last
save that succeeded. -/
theorem saveAll_holds (saves : List (SaveIo × RecoveryPayload)) {files : Backed τ}
    {kept : Backed RecoveryPayload} (h : Holds C key files kept) :
    Holds C key (saveAll C key saves files kept.current).1
      (saves.foldl (fun kept s => keep C key s.1 s.2 kept) kept) ∧
    (saveAll C key saves files kept.current).2 =
      (saves.foldl (fun kept s => keep C key s.1 s.2 kept) kept).current := by
  induction saves generalizing files kept with
  | nil => exact ⟨h, rfl⟩
  | cons s saves ih =>
    obtain ⟨io, payload⟩ := s
    obtain ⟨hholds, hcurrent⟩ := save_holds h io payload
    have hrest := ih hholds
    rw [hcurrent] at hrest
    exact hrest

/-! ## Loading -/

variable {files : Backed τ} {kept : Backed RecoveryPayload} {metadata : RecoveryMetadata}
  {payload : RecoveryPayload}

/-- What a file gives, whether or not it can be read. -/
def opened (C : Codec τ) (key : RecoveryKey) (metadata : RecoveryMetadata) (file : Option τ) :
    Option RecoveryPayload :=
  file.bind fun bytes => (decode C key metadata bytes).toOption

theorem loadFirst_some {list : List (Option τ × Bool)} {lastError : Option RecoveryStoreError}
    (h : loadFirst C key metadata list lastError = .ok (some payload)) :
    list.findSome? (fun file => opened C key metadata file.1) = some payload := by
  induction list generalizing lastError with
  | nil => cases h
  | cons file list ih =>
    rw [List.findSome?_cons]
    match file with
    | (none, _) => exact ih h
    | (some bytes, false) => cases h
    | (some bytes, true) =>
      rw [loadFirst] at h
      cases hd : decode C key metadata bytes with
      | ok p =>
        rw [hd] at h
        cases h
        simp only [opened, Option.bind_some, hd, Except.toOption]
      | error e =>
        rw [hd] at h
        simp only [opened, Option.bind_some, hd, Except.toOption]
        exact ih h

theorem loadFirst_readable {list : List (Option τ × Bool)} {lastError : Option RecoveryStoreError}
    (hread : ∀ file ∈ list, file.2 = true)
    (h : list.findSome? (fun file => opened C key metadata file.1) = some payload) :
    loadFirst C key metadata list lastError = .ok (some payload) := by
  induction list generalizing lastError with
  | nil => cases h
  | cons file list ih =>
    obtain ⟨hfile, hlist⟩ := List.forall_mem_cons.mp hread
    rw [List.findSome?_cons] at h
    match file, hfile with
    | (none, _), _ => exact ih hlist h
    | (some bytes, true), _ =>
      rw [loadFirst]
      cases hd : decode C key metadata bytes with
      | ok p =>
        simp only [opened, Option.bind_some, hd, Except.toOption] at h
        rw [Option.some.inj h]
      | error e =>
        simp only [opened, Option.bind_some, hd, Except.toOption] at h
        exact ih hlist h

/-- The first of the two files that gives something. -/
theorem findSome_files (h : Holds C key files kept) (metadata : RecoveryMetadata)
    (readsCurrent readsBackup : Bool) :
    [(files.current, readsCurrent), (files.backup, readsBackup)].findSome?
      (fun file => opened C key metadata file.1) = kept.value (openedAs metadata) := by
  rw [Backed.value, ← bind_decode h.current, ← bind_decode h.backup]
  simp only [List.findSome?_cons, List.findSome?_nil, opened]
  cases files.current.bind fun bytes => (decode C key metadata bytes).toOption with
  | some p => rfl
  | none =>
    rw [Option.none_or]
    cases files.backup.bind fun bytes => (decode C key metadata bytes).toOption with
    | some p => rfl
    | none => rfl

/-- What is loaded is in the first file that has something for the metadata. -/
theorem load_value (h : Holds C key files kept) {io : LoadIo}
    (hload : load C key io metadata files = .ok (some payload)) :
    kept.value (openedAs metadata) = some payload := by
  unfold load at hload
  split at hload
  · cases hload
  · split at hload
    · cases hload
    · rw [← findSome_files h metadata io.readsCurrent io.readsBackup]
      exact loadFirst_some hload

/-- Where the files can be read, it is loaded. -/
theorem load_readable (h : Holds C key files kept)
    (hvalue : kept.value (openedAs metadata) = some payload) :
    load C key ⟨none, true, true⟩ metadata files = .ok (some payload) := by
  have hfirst := findSome_files h metadata true true
  rw [hvalue] at hfirst
  unfold load
  rw [if_neg]
  · refine loadFirst_readable (fun file hfile => ?_) hfirst
    obtain rfl | hfile := List.mem_cons.mp hfile
    · rfl
    · rw [List.mem_singleton.mp hfile]
  · intro hmissing
    rw [Bool.and_eq_true, Option.isNone_iff_eq_none, Option.isNone_iff_eq_none] at hmissing
    rw [hmissing.1, hmissing.2] at hfirst
    cases hfirst

/-! ## Deletion -/

/-- The payloads in the files after a deletion. -/
def leave (io : DeleteIo) (kept : Backed RecoveryPayload) : Backed RecoveryPayload :=
  if io.current = .removed then
    if io.backup = .removed then .empty else { kept with current := none }
  else kept

theorem delete_holds (h : Holds C key files kept) (io : DeleteIo) :
    Holds C key (delete io files).2 (leave io kept) := by
  unfold delete leave
  cases io.current with
  | interrupted | failed => exact h
  | removed =>
    cases io.backup with
    | interrupted | failed => exact ⟨.none, h.backup⟩
    | removed => exact ⟨.none, .none⟩

theorem holds_empty : Holds C key (.empty : Backed τ) .empty := ⟨.none, .none⟩

/-- Without a current record there is no backup. -/
def Ordered (kept : Backed RecoveryPayload) : Prop := kept.current = none → kept.backup = none

theorem Ordered.refresh (h : Ordered kept) : Ordered (kept.refresh (openedAs metadata)) := by
  intro hcurrent
  rw [Backed.current_refresh] at hcurrent
  rw [Backed.refresh_of_none (by rw [hcurrent]; rfl)]
  exact h hcurrent

theorem Ordered.keep (h : Ordered kept) (io : SaveIo) (p : RecoveryPayload) :
    Ordered (keep C key io p kept) := by
  unfold EditorRecoveryStore.keep
  dsimp only
  split
  · exact h
  · split
    · split
      · exact h.refresh
      · exact h
    · intro hcurrent
      cases hcurrent

theorem ordered_keptBy (saves : List (SaveIo × RecoveryPayload)) : Ordered (keptBy C key saves) := by
  unfold keptBy
  suffices hall : ∀ kept, Ordered kept →
      Ordered (saves.foldl (fun kept s => keep C key s.1 s.2 kept) kept) from hall _ fun _ => rfl
  induction saves with
  | nil => exact fun _ h => h
  | cons s saves ih => exact fun _ h => ih _ (h.keep s.1 s.2)

theorem openedAs_eq_some {p q : RecoveryPayload} :
    openedAs metadata p = some q ↔ p.metadata = metadata ∧ p = q := by
  unfold openedAs
  split
  · next h => exact ⟨fun hp => ⟨h, Option.some.inj hp⟩, fun hp => congrArg some hp.2⟩
  · next h => exact ⟨fun hp => (by cases hp), fun hp => absurd hp.1 h⟩

/-- The deletion ends with the backup alone, and that is an older record of the same metadata. -/
def LeavesOlder (io : DeleteIo) (kept : Backed RecoveryPayload) : Prop :=
  io.current = .removed ∧ io.backup ≠ .removed ∧ ∃ latest older, kept.current = some latest ∧
    kept.backup = some older ∧ older.metadata = latest.metadata ∧ older ≠ latest

/-- What is given after a deletion is the current record, or there is an older one to be given. -/
theorem leave_value (h : Ordered kept) {io : DeleteIo}
    (hm : ∀ latest, kept.current = some latest → metadata = latest.metadata)
    (hvalue : (leave io kept).value (openedAs metadata) = some payload) :
    kept.current = some payload ∨ LeavesOlder io kept := by
  cases hc : kept.current with
  | none =>
    rw [Backed.value] at hvalue
    unfold leave at hvalue
    split at hvalue
    · split at hvalue
      · cases hvalue
      · rw [h hc] at hvalue
        cases hvalue
    · rw [hc, h hc] at hvalue
      cases hvalue
  | some latest =>
    obtain rfl := hm latest hc
    unfold leave at hvalue
    by_cases hcurrent : io.current = .removed
    · rw [if_pos hcurrent] at hvalue
      by_cases hbackup : io.backup = .removed
      · rw [if_pos hbackup] at hvalue
        cases hvalue
      · rw [if_neg hbackup, Backed.value, Option.bind_none, Option.none_or] at hvalue
        obtain ⟨older, ho, hopened⟩ := Option.bind_eq_some_iff.mp hvalue
        obtain ⟨hmeta, rfl⟩ := openedAs_eq_some.mp hopened
        by_cases heq : older = latest
        · exact .inl (congrArg some heq.symm)
        · exact .inr ⟨hcurrent, hbackup, latest, older, hc, ho, hmeta, heq⟩
    · rw [if_neg hcurrent, Backed.value, hc, Option.bind_some,
        openedAs_eq_some.mpr ⟨rfl, rfl⟩, Option.some_or] at hvalue
      exact .inl hvalue

theorem leave_older {io : DeleteIo} {latest older : RecoveryPayload} (hcurrent : io.current = .removed)
    (hbackup : io.backup ≠ .removed) (ho : kept.backup = some older)
    (hm : older.metadata = latest.metadata) :
    (leave io kept).value (openedAs latest.metadata) = some older := by
  rw [leave, if_pos hcurrent, if_neg hbackup, Backed.value, Option.bind_none, Option.none_or, ho,
    Option.bind_some, openedAs_eq_some]
  exact ⟨hm, rfl⟩

/-- After a deletion, a load gives the payload of the last save or none, exactly if the deletion does
not end with the backup alone left, or the backup is no older record of the same metadata. -/
theorem deletion_law (C : Codec τ) (key : RecoveryKey) (saves : List (SaveIo × RecoveryPayload))
    (io : DeleteIo) :
    (∀ loadIo metadata payload,
      (∀ latest, (saveAll C key saves .empty none).2 = some latest → metadata = latest.metadata) →
      load C key loadIo metadata (delete io (saveAll C key saves .empty none).1).2 =
        .ok (some payload) →
      (saveAll C key saves .empty none).2 = some payload) ↔
    ¬LeavesOlder io (keptBy C key saves) := by
  have hempty : Holds C key .empty .empty := holds_empty
  obtain ⟨hholds, hlatest⟩ := saveAll_holds saves hempty
  rw [show (Backed.empty : Backed RecoveryPayload).current = none from rfl] at hholds hlatest
  have hkept : saves.foldl (fun kept s => keep C key s.1 s.2 kept) .empty = keptBy C key saves := rfl
  rw [hkept] at hholds hlatest
  rw [hlatest]
  have hdeleted := delete_holds hholds io
  constructor
  · rintro hall ⟨hcurrent, hbackup, latest, older, hc, ho, hm, hne⟩
    have hload := load_readable hdeleted (leave_older hcurrent hbackup ho hm)
    have heq := hall _ _ _ (fun p hp => by rw [hc] at hp; cases hp; rfl) hload
    rw [hc] at heq
    exact hne (Option.some.inj heq).symm
  · intro hnot loadIo metadata payload hm hload
    exact (leave_value (ordered_keptBy saves) hm (load_value hdeleted hload)).resolve_right hnot

/-! ## An instance -/

/-- Texts that are kept as what they say. -/
inductive Plain where
  | payload (payload : RecoveryPayload)
  | metadata (metadata : RecoveryMetadata)
  | sealed (key : RecoveryKey) (nonce : Vector UInt8 24) (plaintext aad : Plain)
  | envelope (schemaVersion : UInt32) (nonce : Vector UInt8 24) (ciphertext : Plain)
  deriving DecidableEq

def Plain.codec : Codec Plain where
  writePayload := .payload
  readPayload t := match t with | .payload p => some p | _ => none
  authenticatedBytes := .metadata
  encrypt key nonce plaintext aad := some (.sealed key nonce plaintext aad)
  decrypt key nonce t aad :=
    match t with
    | .sealed key' nonce' plaintext aad' =>
      if key' = key ∧ nonce' = nonce ∧ aad' = aad then some plaintext else none
    | _ => none
  writeEnvelope e := .envelope e.schemaVersion e.nonce e.ciphertext
  readEnvelope t := match t with | .envelope v n c => some ⟨v, n, c⟩ | _ => none
  readPayload_write _ := rfl
  decrypt_encrypt key nonce plaintext aad ciphertext h aad' := by
    cases h
    refine ⟨fun ha => ?_, fun ha => ?_⟩
    · exact if_pos ⟨rfl, rfl, ha.symm⟩
    · exact if_neg fun hall => ha hall.2.2.symm
  readEnvelope_write _ := rfl

/-- The record of a text. -/
def unsaved (text : String) : RecoveryPayload := ⟨⟨"workspace", "main.rs", "baseline"⟩, 1, text⟩

/-- A save without trouble. -/
def calm : SaveIo := ⟨none, true, true, false, Vector.replicate 24 0, true⟩

/-- Two saves, and a deletion that is cut off after it removed the current record: what is loaded is
the first text. -/
theorem older_text_resurrected : ¬ ∀ (key : RecoveryKey) (saves : List (SaveIo × RecoveryPayload))
    (io : DeleteIo) (metadata : RecoveryMetadata) (payload : RecoveryPayload),
      (∀ s ∈ saves, s.2.metadata = metadata) →
      load Plain.codec key ⟨none, true, true⟩ metadata
        (delete io (saveAll Plain.codec key saves .empty none).1).2 = .ok (some payload) →
      (saveAll Plain.codec key saves .empty none).2 = some payload := by
  intro h
  have hlatest := h (Vector.replicate 32 0) [(calm, unsaved "one"), (calm, unsaved "two")]
    ⟨.removed, .interrupted⟩ (unsaved "one").metadata (unsaved "one") (by decide) (by decide)
  exact absurd hlatest (by decide)

end EditorRecoveryStore
end Strukt
