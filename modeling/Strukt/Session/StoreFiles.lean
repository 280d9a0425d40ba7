import Strukt.Lib.Backup
import Strukt.Lib.JsonPretty
import Strukt.Session.CatalogJson

/-!
# The files of the session store

`SessionStore` keeps a record in a JSON file, and the record before it as a backup. A save stops the
panes of the record, makes the current file the backup where it can be read, and replaces the current
file.

* **Files**: a write replaces a file or fails, a file that is too large is not read, and a save can be
  cut off between its two writes.
* **The records in the files** (`keep`): what a save does to them, which is what it does to the files
  (`save_holds`).
* **The law** (`durability_law`): an intact current file has the record of the last save that was
  completed. Without it there is an earlier one, once a later save got past its first write.
-/

namespace Strukt

def maxStoreBytes : Nat := 32 * 1024 * 1024

/-- The errors of the store: those of its records, and those of its files. -/
inductive SessionFileError where
  | record (error : SessionStoreError)
  | invalidCatalog
  | tooLarge
  | io
  | json
  deriving DecidableEq

/-- A JSON library, with the sizes of its texts in bytes. -/
structure SizedText (τ : Type) extends JsonText τ where
  size : τ → Nat

namespace PersistedRecord

def validate (r : PersistedRecord) : Except SessionFileError Unit :=
  r.toPersistedCatalog.validate.mapError .record

def normalized (r : PersistedRecord) : Except SessionFileError PersistedRecord := do
  let catalog ← r.catalog.stoppedClone.mapError fun error => .record (.catalog error)
  let record : PersistedRecord := ⟨⟨currentSchema, catalog, r.histories⟩, r.extra⟩
  record.validate
  return record

end PersistedRecord

namespace SessionStore

variable {τ : Type} (J : SizedText τ)

/-- `Value::get`. -/
def getMember (name : String) : Json → Option Json
  | .object members => Json.lookup name members
  | _ => none

def decodeRecord (bytes : τ) : Except SessionFileError PersistedRecord :=
  match J.fromSlice bytes with
  | none => .error .json
  | some v =>
    match (getMember "schema_version" v.toValue).bind Json.asU16 with
    | none => .error .invalidCatalog
    | some schema =>
      if schema ≠ currentSchema then .error (.record (.unsupportedSchema schema))
      else
        match PersistedRecord.fromJson v.toValue with
        | none => .error .json
        | some record => do
          record.validate
          return record

/-- A file that is there, with whether it can be read. -/
def readBounded (reads : Bool) (bytes : τ) : Except SessionFileError τ :=
  if !reads then .error .io
  else if J.size bytes > maxStoreBytes then .error .tooLarge
  else .ok bytes

/-- What is found in a file that can be read. -/
def opened (bytes : τ) : Option PersistedRecord :=
  (readBounded J true bytes >>= decodeRecord J).toOption

/-- `to_vec_pretty`. -/
def encodeRecord (record : PersistedRecord) : Except SessionFileError τ :=
  if record.catalog.IsText then .ok (J.toVec record.toJson) else .error .json

/-- What happens to a save: which file operations succeed, and whether it ends between its two
writes. -/
structure SaveIo where
  readsCurrent : Bool
  writesBackup : Bool
  interrupted : Bool
  writesCurrent : Bool

/-- The result, which is missing where the save is cut off. -/
def save (io : SaveIo) (record : PersistedRecord) (files : Backed τ) :
    Option (Except SessionFileError Unit) × Backed τ :=
  match record.normalized with
  | .error error => (some (.error error), files)
  | .ok record =>
    let refreshes := io.readsCurrent && (files.current.bind (opened J)).isSome
    if refreshes && !io.writesBackup then (some (.error .io), files)
    else
      let files := if refreshes then files.refresh (opened J) else files
      if io.interrupted then (none, files)
      else
        match encodeRecord J record with
        | .error error => (some (.error error), files)
        | .ok bytes =>
          if J.size bytes > maxStoreBytes then (some (.error .tooLarge), files)
          else if io.writesCurrent then (some (.ok ()), files.put bytes)
          else (some (.error .io), files)

structure LoadIo where
  readsCurrent : Bool
  readsBackup : Bool

/-- The loop of `load`: each file with whether it can be read. -/
def loadFirst : List (Option τ × Bool) → Option SessionFileError →
    Except SessionFileError (Option PersistedRecord)
  | [], lastError => .error (lastError.getD .invalidCatalog)
  | (none, _) :: files, lastError => loadFirst files lastError
  | (some bytes, reads) :: files, _ =>
    match readBounded J reads bytes >>= decodeRecord J with
    | .ok record => record.normalized.map some
    | .error error => loadFirst files (some error)

def load (io : LoadIo) (files : Backed τ) : Except SessionFileError (Option PersistedRecord) :=
  if files.current.isNone && files.backup.isNone then .ok none
  else loadFirst J [(files.current, io.readsCurrent), (files.backup, io.readsBackup)] none

/-- The files after some saves, and the records of those that were completed, the last one first. -/
def saveAll : List (SaveIo × PersistedRecord) → Backed τ → List PersistedRecord →
    Backed τ × List PersistedRecord
  | [], files, completed => (files, completed)
  | (io, record) :: saves, files, completed =>
    let (result, files) := save J io record files
    saveAll saves files
      (if result = some (.ok ()) then record.normalized.toOption.toList ++ completed else completed)

end SessionStore

/-! ## Stopped records -/

theorem SortedMap.mapValues_mapValues {κ ν μ ρ : Type} [LinearOrder κ] (m : SortedMap κ ν)
    (f : ν → μ) (g : μ → ρ) : (m.mapValues f).mapValues g = m.mapValues fun v => g (f v) := by
  refine SortedMap.ext_get? fun k => ?_
  rw [SortedMap.get?_mapValues, SortedMap.get?_mapValues, SortedMap.get?_mapValues, Option.map_map]
  rfl

theorem SessionCatalog.stopPanes_stopPanes (c : SessionCatalog) :
    c.stopPanes.stopPanes = c.stopPanes := by
  have hwindow (w : SessionWindow) : w.stopPanes.stopPanes = w.stopPanes := by
    unfold SessionWindow.stopPanes
    rw [SortedMap.mapValues_mapValues]
    rfl
  have hsession (s : Session) : s.stopPanes.stopPanes = s.stopPanes := by
    unfold Session.stopPanes
    rw [List.map_map]
    exact congrArg (fun windows => { s with windows })
      (List.map_congr_left fun w _ => hwindow w)
  unfold stopPanes
  rw [SortedMap.mapValues_mapValues]
  exact congrArg (fun f => { c with sessions := c.sessions.mapValues f }) (funext hsession)

namespace PersistedRecord

variable {r r' : PersistedRecord}

theorem validate_eq_ok : r.validate = .ok () ↔ r.toPersistedCatalog.Valid := by
  unfold validate
  rw [← PersistedCatalog.validate_iff]
  cases r.toPersistedCatalog.validate with
  | error error => exact iff_of_false (fun h => by cases h) (fun h => by cases h)
  | ok _ => exact iff_of_true rfl rfl

theorem normalized_eq_ok : r.normalized = .ok r' ↔
    r' = ⟨⟨currentSchema, r.catalog.stopPanes, r.histories⟩, r.extra⟩ ∧ r.catalog.Valid ∧
      r'.toPersistedCatalog.Valid := by
  unfold normalized
  cases hstopped : r.catalog.stoppedClone with
  | error error =>
    refine iff_of_false (fun h => by cases h) fun h => ?_
    rw [SessionCatalog.stoppedClone_eq_ok.mpr ⟨h.2.1, rfl⟩] at hstopped
    cases hstopped
  | ok catalog =>
    obtain ⟨hvalid, rfl⟩ := SessionCatalog.stoppedClone_eq_ok.mp hstopped
    show (validate ⟨⟨currentSchema, r.catalog.stopPanes, r.histories⟩, r.extra⟩ >>=
      fun _ => Except.ok _) = _ ↔ _
    cases hv : validate ⟨⟨currentSchema, r.catalog.stopPanes, r.histories⟩, r.extra⟩ with
    | error error =>
      refine iff_of_false (fun h => by cases h) fun h => ?_
      obtain ⟨rfl, -, hrecord⟩ := h
      rw [validate_eq_ok.mpr hrecord] at hv
      cases hv
    | ok _ =>
      have hrecord := validate_eq_ok.mp hv
      constructor
      · intro h
        cases h
        exact ⟨rfl, hvalid, hrecord⟩
      · rintro ⟨rfl, -, -⟩
        rfl

/-- A record that is stopped stays as it is. -/
theorem normalized_normalized (h : r.normalized = .ok r') : r'.normalized = .ok r' := by
  obtain ⟨rfl, -, hrecord⟩ := normalized_eq_ok.mp h
  refine normalized_eq_ok.mpr ⟨?_, hrecord.catalog, hrecord⟩
  show _ = (⟨⟨currentSchema, r.catalog.stopPanes.stopPanes, r.histories⟩, r.extra⟩ :
    PersistedRecord)
  rw [SessionCatalog.stopPanes_stopPanes]

end PersistedRecord

namespace SessionStore

variable {τ : Type} {J : SizedText τ} {record : PersistedRecord} {bytes : τ}

/-! ## What is read of what is written -/

/-- What is found in a file with the text of a record. -/
theorem decodeRecord_toVec (hr : record.toPersistedCatalog.Valid)
    (hk : PersistedRecord.Kept J.toJsonText record.extra) (hlimit : 40 ≤ J.limit)
    (hencode : encodeRecord J record = .ok bytes) : decodeRecord J bytes = .ok record := by
  unfold encodeRecord at hencode
  split at hencode
  · next ht =>
    obtain rfl := Except.ok.inj hencode
    have hnodup : (([("schema_version", Json.natural record.schemaVersion.toNat),
        ("catalog", record.catalog.toJson),
        ("histories", .array (record.histories.map (·.toJson)))] ++
          record.extra.entries).map (·.1)).Nodup := by
      rw [List.map_append]
      exact List.Nodup.append (show PersistedRecord.fieldNames.Nodup by decide)
        record.extra.nodup_keys fun name hname hext => hk.names name hext hname
    have hschema : getMember "schema_version" record.toJson.toValue =
        some (.natural record.schemaVersion.toNat) := by
      rw [PersistedRecord.toJson, Json.toValue, getMember, Json.lookup_toValue hnodup,
        List.cons_append, Json.lookup_cons, if_pos rfl]
      rfl
    unfold decodeRecord
    rw [PersistedRecord.fromSlice_toVec hr.catalog hk hlimit]
    dsimp only
    rw [hschema, Option.bind_some, Json.asU16_natural]
    dsimp only
    rw [if_neg (not_not.mpr hr.schema), PersistedRecord.fromJson_toJson hk ht]
    dsimp only
    rw [PersistedRecord.validate_eq_ok.mpr hr]
    rfl
  · cases hencode

/-- The file has the stopped record. -/
structure Written (J : SizedText τ) (bytes : τ) (record : PersistedRecord) : Prop where
  stopped : record.normalized = .ok record
  read : readBounded J true bytes >>= decodeRecord J = .ok record

theorem Written.opened (h : Written J bytes record) : opened J bytes = some record := by
  unfold SessionStore.opened
  rw [h.read]
  rfl

/-- A save that gets to its second write writes the stopped record. -/
theorem written_encode {r : PersistedRecord} (hn : r.normalized = .ok record)
    (hk : PersistedRecord.Kept J.toJsonText r.extra) (hlimit : 40 ≤ J.limit)
    (hencode : encodeRecord J record = .ok bytes) (hsize : ¬J.size bytes > maxStoreBytes) :
    Written J bytes record := by
  obtain ⟨rfl, -, hrecord⟩ := PersistedRecord.normalized_eq_ok.mp hn
  refine ⟨PersistedRecord.normalized_normalized hn, ?_⟩
  unfold readBounded
  rw [if_neg (by decide), if_neg hsize]
  exact decodeRecord_toVec hrecord hk hlimit hencode

/-! ## The records in the files -/

/-- The stopped record that a save would write. -/
def writes (J : SizedText τ) (record : PersistedRecord) : Bool :=
  match encodeRecord J record with
  | .error _ => false
  | .ok bytes => J.size bytes ≤ maxStoreBytes

/-- The save refreshes the backup of a current record. -/
def BacksUp (io : SaveIo) (record : PersistedRecord) : Prop :=
  io.readsCurrent ∧ io.writesBackup ∧ ∃ r, record.normalized = .ok r

/-- What a save does to the records in the files. -/
def keep (J : SizedText τ) (io : SaveIo) (record : PersistedRecord)
    (kept : Backed PersistedRecord) : Backed PersistedRecord :=
  match record.normalized with
  | .error _ => kept
  | .ok record =>
    let refreshes := io.readsCurrent && kept.current.isSome
    if refreshes && !io.writesBackup then kept
    else
      let kept := if refreshes then kept.refresh some else kept
      if !io.interrupted && writes J record && io.writesCurrent then kept.put record else kept

/-- The files have the records. -/
structure Holds (J : SizedText τ) (files : Backed τ) (kept : Backed PersistedRecord) : Prop where
  current : Option.Rel (Written J) files.current kept.current
  backup : Option.Rel (Written J) files.backup kept.backup

variable {files : Backed τ} {kept : Backed PersistedRecord}

theorem Holds.bind_opened {file : Option τ} {r : Option PersistedRecord}
    (h : Option.Rel (Written J) file r) : file.bind (opened J) = r := by
  cases h with
  | none => rfl
  | some h => exact h.opened

theorem Holds.refresh (h : Holds J files kept) :
    Holds J (files.refresh (opened J)) (kept.refresh some) := by
  have hkept : kept.current.bind some = kept.current := Option.bind_fun_some kept.current
  unfold Backed.refresh
  rw [Holds.bind_opened h.current, hkept]
  split
  · exact ⟨h.current, h.current⟩
  · exact h

/-- A save does to the files what `keep` does to the records in them, and is completed exactly where
it puts its own record. -/
theorem save_holds (h : Holds J files kept) (io : SaveIo)
    (hk : PersistedRecord.Kept J.toJsonText record.extra) (hlimit : 40 ≤ J.limit) :
    Holds J (save J io record files).2 (keep J io record kept) ∧
      (keep J io record kept).current =
        if (save J io record files).1 = some (.ok ()) then record.normalized.toOption
        else kept.current := by
  unfold save keep
  cases hn : record.normalized with
  | error error => exact ⟨h, rfl⟩
  | ok r =>
    simp only [Holds.bind_opened h.current]
    split
    · exact ⟨h, rfl⟩
    · have hrefresh : Holds J
          (if (io.readsCurrent && kept.current.isSome) = true then files.refresh (opened J)
            else files)
          (if (io.readsCurrent && kept.current.isSome) = true then kept.refresh some
            else kept) := by
        split
        · exact h.refresh
        · exact h
      have hcurrent : (if (io.readsCurrent && kept.current.isSome) = true then kept.refresh some
          else kept).current = kept.current := by
        split
        · exact Backed.current_refresh
        · rfl
      cases hint : io.interrupted with
      | true => exact ⟨hrefresh, hcurrent⟩
      | false =>
        unfold writes
        cases hencode : encodeRecord J r with
        | error error => exact ⟨hrefresh, hcurrent⟩
        | ok bytes =>
          by_cases hsize : J.size bytes > maxStoreBytes
          · have hnot : decide (J.size bytes ≤ maxStoreBytes) = false :=
              decide_eq_false (Nat.not_le_of_lt hsize)
            simp only [hnot, hsize, if_true]
            exact ⟨hrefresh, hcurrent⟩
          · have hyes : decide (J.size bytes ≤ maxStoreBytes) = true :=
              decide_eq_true (Nat.le_of_not_lt hsize)
            simp only [hyes, hsize, if_false]
            cases hwrite : io.writesCurrent with
            | false => exact ⟨hrefresh, hcurrent⟩
            | true => exact ⟨⟨.some (written_encode hn hk hlimit hencode hsize), hrefresh.backup⟩, rfl⟩

/-! ## Runs of saves -/

/-- Some save, after one that was completed, got past its first write. -/
def BackedUp (J : SizedText τ) (saves : List (SaveIo × PersistedRecord)) : Prop :=
  ∃ before s after, saves = before ++ s :: after ∧ (saveAll J before .empty []).2 ≠ [] ∧
    BacksUp s.1 s.2

theorem saveAll_append (before after : List (SaveIo × PersistedRecord)) (files : Backed τ)
    (completed : List PersistedRecord) :
    saveAll J (before ++ after) files completed =
      saveAll J after (saveAll J before files completed).1
        (saveAll J before files completed).2 := by
  induction before generalizing files completed with
  | nil => rfl
  | cons s before ih => exact ih _ _

theorem not_backedUp_nil : ¬BackedUp J [] := by
  rintro ⟨before, s, after, h, -⟩
  cases before with
  | nil => cases h
  | cons _ _ => cases h

theorem backedUp_append {before : List (SaveIo × PersistedRecord)}
    {s : SaveIo × PersistedRecord} :
    BackedUp J (before ++ [s]) ↔ BackedUp J before ∨
      ((saveAll J before .empty []).2 ≠ [] ∧ BacksUp s.1 s.2) := by
  constructor
  · rintro ⟨earlier, t, later, heq, hcompleted, hbacks⟩
    rcases List.eq_nil_or_concat later with rfl | ⟨later, last, rfl⟩
    · obtain ⟨rfl, ht⟩ := List.append_inj' heq rfl
      cases ht
      exact .inr ⟨hcompleted, hbacks⟩
    · rw [List.concat_eq_append, ← List.cons_append, ← List.append_assoc] at heq
      obtain ⟨rfl, -⟩ := List.append_inj' heq rfl
      exact .inl ⟨earlier, t, later, rfl, hcompleted, hbacks⟩
  · rintro (⟨earlier, t, later, rfl, hcompleted, hbacks⟩ | ⟨hcompleted, hbacks⟩)
    · exact ⟨earlier, t, later ++ [s], by rw [List.append_assoc, List.cons_append], hcompleted,
        hbacks⟩
    · exact ⟨before, s, [], rfl, hcompleted, hbacks⟩

/-- The records in the files after some saves. -/
structure Follows (J : SizedText τ) (saves : List (SaveIo × PersistedRecord))
    (kept : Backed PersistedRecord) : Prop where
  holds : Holds J (saveAll J saves .empty []).1 kept
  current : kept.current = (saveAll J saves .empty []).2.head?
  backup : ∀ r, kept.backup = some r → r ∈ (saveAll J saves .empty []).2
  backedUp : kept.backup.isSome ↔ BackedUp J saves

theorem follows_nil : Follows J [] .empty where
  holds := ⟨.none, .none⟩
  current := rfl
  backup _ h := by cases h
  backedUp := iff_of_false (by decide) not_backedUp_nil

theorem backup_keep (J : SizedText τ) (io : SaveIo) (record : PersistedRecord)
    (kept : Backed PersistedRecord) [Decidable (BacksUp io record)] :
    (keep J io record kept).backup =
      if BacksUp io record ∧ kept.current.isSome then kept.current else kept.backup := by
  unfold keep
  cases hn : record.normalized with
  | error error =>
    refine (if_neg fun h => ?_).symm
    obtain ⟨⟨-, -, r, hr⟩, -⟩ := h
    rw [hn] at hr
    cases hr
  | ok r =>
    have hkeep (refreshed : Backed PersistedRecord) :
        (if (!io.interrupted && writes J r && io.writesCurrent) = true then refreshed.put r
          else refreshed).backup = refreshed.backup := by
      split
      · rfl
      · rfl
    have hrefresh : (kept.refresh some).backup =
        if kept.current.isSome then kept.current else kept.backup := by
      unfold Backed.refresh
      rw [Option.bind_fun_some]
      split
      · rfl
      · rfl
    cases hreads : io.readsCurrent with
    | false =>
      rw [if_neg (fun h => by rw [BacksUp, hreads] at h; exact absurd h.1.1 (by decide))]
      exact hkeep kept
    | true =>
      cases hwrites : io.writesBackup with
      | false =>
        rw [if_neg (fun h => by rw [BacksUp, hwrites] at h; exact absurd h.1.2.1 (by decide))]
        cases kept.current.isSome with
        | false => exact hkeep kept
        | true => rfl
      | true =>
        have hbacks : BacksUp io record := ⟨hreads, hwrites, r, hn⟩
        cases hsome : kept.current.isSome with
        | false =>
          rw [if_neg (fun h => by cases h.2)]
          exact hkeep kept
        | true =>
          rw [if_pos ⟨hbacks, rfl⟩]
          exact (hkeep (kept.refresh some)).trans (by rw [hrefresh, hsome, if_pos rfl])

theorem follows_saveAll (hlimit : 40 ≤ J.limit) (saves : List (SaveIo × PersistedRecord))
    (hkept : ∀ s ∈ saves, PersistedRecord.Kept J.toJsonText s.2.extra) :
    ∃ kept, Follows J saves kept := by
  classical
  induction saves using List.reverseRecOn with
  | nil => exact ⟨.empty, follows_nil⟩
  | append_singleton saves s ih =>
    obtain ⟨kept, hfollows⟩ := ih fun t ht => hkept t (List.mem_append_left _ ht)
    obtain ⟨hholds, hcurrent⟩ := save_holds hfollows.holds s.1 (hkept s (by simp)) hlimit
    have hlast : saveAll J (saves ++ [s]) .empty [] =
        ((save J s.1 s.2 (saveAll J saves .empty []).1).2,
          if (save J s.1 s.2 (saveAll J saves .empty []).1).1 = some (.ok ()) then
            s.2.normalized.toOption.toList ++ (saveAll J saves .empty []).2
          else (saveAll J saves .empty []).2) := saveAll_append saves [s] .empty []
    have hsubset : ∀ r ∈ (saveAll J saves .empty []).2,
        r ∈ (saveAll J (saves ++ [s]) .empty []).2 := by
      intro r hr
      rw [hlast]
      dsimp only
      split
      · exact List.mem_append_right _ hr
      · exact hr
    have hsome : kept.current.isSome ↔ (saveAll J saves .empty []).2 ≠ [] := by
      rw [hfollows.current, List.isSome_head?]
    refine ⟨keep J s.1 s.2 kept, ?_, ?_, fun r hr => ?_, ?_⟩
    · exact hlast ▸ hholds
    · rw [hcurrent, hlast]
      dsimp only
      split
      · next hok =>
        cases hn : s.2.normalized with
        | error error =>
          unfold save at hok
          rw [hn] at hok
          cases hok
        | ok r => rfl
      · exact hfollows.current
    · rw [backup_keep] at hr
      split at hr
      · rw [hfollows.current] at hr
        exact hsubset r (List.mem_of_head? hr)
      · exact hsubset r (hfollows.backup r hr)
    · rw [backup_keep, backedUp_append, ← hsome, ← hfollows.backedUp]
      split
      · next hbacks => exact iff_of_true hbacks.2 (.inr hbacks.symm)
      · next hnot => exact ⟨.inl, fun h => h.resolve_right fun hbacks => hnot hbacks.symm⟩

/-! ## Loading -/

theorem loadFirst_written {record : PersistedRecord} (h : Written J bytes record)
    {files : List (Option τ × Bool)} {lastError : Option SessionFileError} :
    loadFirst J ((some bytes, true) :: files) lastError = .ok (some record) := by
  unfold loadFirst
  rw [h.read]
  dsimp only
  rw [h.stopped]
  rfl

/-- Without a record in the current file, what is loaded is the one in the backup. -/
theorem load_cut {t backup : Option τ} {r : Option PersistedRecord}
    (ht : ∀ bytes, t = some bytes → opened J bytes = none) (hr : Option.Rel (Written J) backup r)
    (record : PersistedRecord) :
    load J ⟨true, true⟩ ⟨t, backup⟩ = .ok (some record) ↔ r = some record := by
  have hskip (files : List (Option τ × Bool)) :
      ∃ error, loadFirst J ((t, true) :: files) none = loadFirst J files error ∧
        (t.isNone ↔ error = none) := by
    cases t with
    | none => exact ⟨none, rfl, iff_of_true rfl rfl⟩
    | some bytes =>
      have hnone := ht bytes rfl
      unfold opened at hnone
      cases hread : readBounded J true bytes >>= decodeRecord J with
      | ok found =>
        rw [hread] at hnone
        cases hnone
      | error error =>
        refine ⟨some error, ?_, iff_of_false (by simp) (by simp)⟩
        rw [loadFirst, hread]
  obtain ⟨error, hfirst, hmissing⟩ := hskip [(backup, true)]
  unfold load
  dsimp only
  rw [hfirst]
  cases hr with
  | none =>
    refine iff_of_false (fun h => ?_) (by simp)
    split at h
    · cases h
    · cases h
  | some hw =>
    rw [if_neg (by simp), loadFirst_written hw]
    exact ⟨fun h => Except.ok.inj h, fun h => congrArg Except.ok h⟩

theorem Follows.load {saves : List (SaveIo × PersistedRecord)} (h : Follows J saves kept) :
    load J ⟨true, true⟩ (saveAll J saves .empty []).1 =
      .ok (saveAll J saves .empty []).2.head? := by
  rw [← h.current]
  cases hcurrent : kept.current with
  | some r =>
    have hrel := h.holds.current
    rw [hcurrent] at hrel
    cases hfile : (saveAll J saves .empty []).1.current with
    | none =>
      rw [hfile] at hrel
      cases hrel
    | some bytes =>
      rw [hfile] at hrel
      cases hrel with
      | some hw =>
        unfold SessionStore.load
        rw [hfile, if_neg (by simp), loadFirst_written hw]
  | none =>
    have hrel := h.holds.current
    have hbackup := h.holds.backup
    have hnone : kept.backup = none := by
      refine Option.eq_none_iff_forall_ne_some.mpr fun r hr => ?_
      have hmem := h.backup r hr
      rw [List.head?_eq_none_iff.mp (h.current.symm.trans hcurrent)] at hmem
      cases hmem
    rw [hcurrent] at hrel
    rw [hnone] at hbackup
    have hc : (saveAll J saves .empty []).1.current = none := by
      cases hfile : (saveAll J saves .empty []).1.current with
      | none => rfl
      | some _ => rw [hfile] at hrel; cases hrel
    have hb : (saveAll J saves .empty []).1.backup = none := by
      cases hfile : (saveAll J saves .empty []).1.backup with
      | none => rfl
      | some _ => rw [hfile] at hbackup; cases hbackup
    unfold SessionStore.load
    rw [hc, hb]
    rfl

/-- A save does not leave both files without a record, where one had one. -/
theorem save_value (io : SaveIo) (hk : PersistedRecord.Kept J.toJsonText record.extra)
    (hlimit : 40 ≤ J.limit) (hvalue : (files.value (opened J)).isSome) :
    ((save J io record files).2.value (opened J)).isSome := by
  unfold save
  cases hn : record.normalized with
  | error error => exact hvalue
  | ok r =>
    dsimp only
    split
    · exact hvalue
    · have hrefresh : ((if (io.readsCurrent && (files.current.bind (opened J)).isSome) = true then
          files.refresh (opened J) else files).value (opened J)).isSome := by
        split
        · rw [Backed.value_refresh]
          exact hvalue
        · exact hvalue
      split
      · exact hrefresh
      · cases hencode : encodeRecord J r with
        | error error => exact hrefresh
        | ok bytes =>
          dsimp only
          split
          · exact hrefresh
          · next hsize =>
            split
            · have hwritten := written_encode hn hk hlimit hencode hsize
              rw [Backed.value_put hwritten.opened]
              rfl
            · exact hrefresh

/-- After some saves, an intact current file gives the record of the last one that was completed.
Where it is replaced by something that is not a record, or removed, a record that was completed is
loaded exactly if a save after a completed one got past its first write, and no other is. A save
leaves one of the files with a record, where one had one. -/
theorem durability_law (J : SizedText τ) (hlimit : 40 ≤ J.limit)
    (saves : List (SaveIo × PersistedRecord))
    (hkept : ∀ s ∈ saves, PersistedRecord.Kept J.toJsonText s.2.extra) :
    SessionStore.load J ⟨true, true⟩ (saveAll J saves .empty []).1 =
        .ok (saveAll J saves .empty []).2.head? ∧
      (∀ t : Option τ, (∀ bytes, t = some bytes → opened J bytes = none) →
        ((∃ r ∈ (saveAll J saves .empty []).2, SessionStore.load J ⟨true, true⟩
            ⟨t, (saveAll J saves .empty []).1.backup⟩ = .ok (some r)) ↔ BackedUp J saves) ∧
          ∀ r, SessionStore.load J ⟨true, true⟩ ⟨t, (saveAll J saves .empty []).1.backup⟩ =
            .ok (some r) → r ∈ (saveAll J saves .empty []).2) ∧
      ∀ (io : SaveIo) (record : PersistedRecord) (files : Backed τ),
        PersistedRecord.Kept J.toJsonText record.extra → (files.value (opened J)).isSome →
          ((save J io record files).2.value (opened J)).isSome := by
  obtain ⟨kept, hfollows⟩ := follows_saveAll hlimit saves hkept
  refine ⟨hfollows.load, fun t ht => ⟨?_, fun r hr => ?_⟩,
    fun io record files hk => save_value io hk hlimit⟩
  · rw [← hfollows.backedUp, Option.isSome_iff_exists]
    constructor
    · rintro ⟨r, -, hr⟩
      exact ⟨r, (load_cut ht hfollows.holds.backup r).mp hr⟩
    · rintro ⟨r, hr⟩
      exact ⟨r, hfollows.backup r hr, (load_cut ht hfollows.holds.backup r).mpr hr⟩
  · exact hfollows.backup r ((load_cut ht hfollows.holds.backup r).mp hr)

/-! ## A library that keeps values -/

/-- A value read from itself, to the depth that the reader follows. -/
def readValue (v : Json) : Option Json := if v.depth ≤ 127 then some (v.mapFloats id) else none

theorem readValue_eq (v : Json) :
    readValue v = if v.depth ≤ 127 then some (v.mapFloats id) else none := rfl

/-- Values as their own texts, with the sizes that they have when they are indented. -/
def plainText : SizedText Json where
  limit := 127
  rereadFloat := id
  toVec := id
  fromSlice := readValue
  fromSlice_toVec := readValue_eq
  size v := Json.textBytes (Json.pretty (fun _ => []) 0 v)

/-- A catalog without sessions. -/
def emptyRecord : PersistedRecord := ⟨⟨1, ⟨0, .empty, none⟩, []⟩, .empty⟩

/-- A save without trouble. -/
def calm : SaveIo := ⟨true, true, false, true⟩

theorem save_calm {r : PersistedRecord} (hn : record.normalized = .ok r)
    (hencode : encodeRecord J r = .ok bytes) (hsize : ¬J.size bytes > maxStoreBytes) :
    (save J calm record files).1 = some (.ok ()) := by
  unfold save
  rw [hn]
  simp only [hencode, hsize, if_false]
  split
  · next h =>
    rw [Bool.and_eq_true] at h
    cases h.2
  · rfl

theorem completed_singleton {io : SaveIo} : (saveAll J [(io, record)] files []).2 =
    if (save J io record files).1 = some (.ok ()) then record.normalized.toOption.toList ++ []
    else [] := rfl

theorem completed_calm : (saveAll plainText [(calm, emptyRecord)] .empty []).2 = [emptyRecord] := by
  have hn : emptyRecord.normalized = .ok emptyRecord := rfl
  have hencode : encodeRecord plainText emptyRecord = .ok emptyRecord.toJson := rfl
  have hsize : ¬plainText.size emptyRecord.toJson > maxStoreBytes := by decide +kernel
  rw [completed_singleton, save_calm hn hencode hsize, if_pos rfl, hn]
  rfl

theorem opened_null : opened plainText .null = none := by
  have hsize : ¬plainText.size .null > maxStoreBytes := by decide
  unfold opened readBounded
  rw [if_neg (by decide), if_neg hsize]
  rfl

theorem kept_twice : ∀ s ∈ [(calm, emptyRecord), (calm, emptyRecord)],
    PersistedRecord.Kept plainText.toJsonText s.2.extra := by
  intro s hs
  simp only [List.mem_cons, List.not_mem_nil, or_false, or_self] at hs
  rw [hs]
  exact PersistedRecord.kept_empty

/-- After two saves a current file without a record gives that of the first save. -/
theorem durability_law_twice : ∃ r ∈ (saveAll plainText
      [(calm, emptyRecord), (calm, emptyRecord)] .empty []).2,
    SessionStore.load plainText ⟨true, true⟩ ⟨some .null, (saveAll plainText
      [(calm, emptyRecord), (calm, emptyRecord)] .empty []).1.backup⟩ = .ok (some r) := by
  refine (((durability_law plainText (by decide) _ kept_twice).2.1 (some .null) ?_).1).mpr
    ⟨[(calm, emptyRecord)], (calm, emptyRecord), [], rfl, ?_, rfl, rfl, emptyRecord, rfl⟩
  · rintro _ ⟨⟩
    exact opened_null
  · rw [completed_calm]
    exact List.cons_ne_nil _ _

/-- After a single save there is no backup: without the current file its record is lost. -/
theorem single_save_lost : ¬ ∀ (saves : List (SaveIo × PersistedRecord)) (t : Option Json),
    (∀ s ∈ saves, PersistedRecord.Kept plainText.toJsonText s.2.extra) →
    (saveAll plainText saves .empty []).2 ≠ [] →
    (∀ bytes, t = some bytes → opened plainText bytes = none) →
    ∃ r ∈ (saveAll plainText saves .empty []).2, SessionStore.load plainText ⟨true, true⟩
      ⟨t, (saveAll plainText saves .empty []).1.backup⟩ = .ok (some r) := by
  intro h
  have hkept : ∀ s ∈ [(calm, emptyRecord)], PersistedRecord.Kept plainText.toJsonText s.2.extra :=
    fun s hs => kept_twice s (List.mem_cons_of_mem _ hs)
  have hnull : ∀ bytes, some Json.null = some bytes → opened plainText bytes = none := by
    rintro _ ⟨⟩
    exact opened_null
  obtain ⟨r, -, hload⟩ := h [(calm, emptyRecord)] (some .null) hkept
    (by rw [completed_calm]; exact List.cons_ne_nil _ _) hnull
  obtain ⟨kept, hfollows⟩ := follows_saveAll (J := plainText) (by decide) _ hkept
  have hbackup := (load_cut hnull hfollows.holds.backup r).mp hload
  obtain ⟨before, s, after, heq, hcompleted, -⟩ := hfollows.backedUp.mp (by rw [hbackup]; rfl)
  cases before with
  | nil => exact hcompleted rfl
  | cons _ before =>
    obtain ⟨-, htail⟩ := List.cons.inj heq
    cases before with
    | nil => cases htail
    | cons _ _ => cases htail

end SessionStore
end Strukt
