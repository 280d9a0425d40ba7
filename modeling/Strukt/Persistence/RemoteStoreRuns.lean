import Strukt.Bytes
import Strukt.Persistence.RemoteStore

/-!
# Runs of the store of remote connections

From an empty store, the records are meant to be a map from identifiers to what was last stored
under them.

* **The invariant** (`Follows`): the current document has the records of the map, in their order, and
  the backup those of an earlier one. An operation keeps it as long as the new map can be stored, and
  a map that is shown can be (`storableMap_of_shows`).
* **The law** (`map_law`): over runs of operations that succeed, the store is the map exactly as long
  as every record of it can be read back, and there are at most 256.
-/

namespace Strukt.RemoteStore

variable {τ : Type} {J : JsonText τ}

abbrev Records := SortedMap String RemoteConnectionRecord

def Operation.apply : Operation → Records → Records
  | .upsert record, map => map.insert record.connectionId record
  | .forget connectionId, map => map.remove connectionId

/-- The map of the records after some operations. -/
def mapOf (ops : List (StoreIo × Operation)) : Records :=
  ops.foldl (fun map s => s.2.apply map) .empty

/-- What is loaded is the values of the map, in their order. -/
def Shows (J : JsonText τ) (files : Backed τ) (map : Records) : Prop :=
  ∃ records, load J ⟨true, true⟩ files = .ok records ∧ records.Perm map.values ∧
    records.Pairwise RemoteConnectionRecord.Le

/-- There are at most 256 records, and each can be read back. -/
def StorableMap (J : JsonText τ) (map : Records) : Prop :=
  map.length ≤ 256 ∧ ∀ r ∈ map.values, Storable J r

/-- The text of a document with the records. -/
def text (J : JsonText τ) (records : List RemoteConnectionRecord) : τ :=
  J.toVec (document records).toJson

/-- Records that a document can have. -/
structure Holding (J : JsonText τ) (records : List RemoteConnectionRecord) : Prop where
  length : records.length ≤ 256
  storable : ∀ r ∈ records, Storable J r
  valid : ∀ r ∈ records, r.validate

/-- The backup has records that were current once. -/
def BackupHolds (J : JsonText τ) (files : Backed τ) : Prop :=
  ∀ bytes, files.backup = some bytes → ∃ older, Holding J older ∧ bytes = text J older

/-- The files hold the records of the map. -/
structure Follows (J : JsonText τ) (files : Backed τ) (map : Records)
    (records : List RemoteConnectionRecord) : Prop where
  perm : records.Perm map.values
  sorted : records.Pairwise RemoteConnectionRecord.Le
  holding : Holding J records
  current : files.current = some (text J records) ∧ 2 ≤ J.limit ∨
    files.current = none ∧ records = []
  backup : BackupHolds J files
  noBackup : files.current = none → files.backup = none

/-- Every record is under its identifier. -/
def Keyed (map : Records) : Prop := ∀ e ∈ map.entries, e.2.connectionId = e.1

variable {files files' : Backed τ} {map : Records} {io : StoreIo} {op : Operation}

theorem Keyed.eq_of_mem (h : Keyed map) {a b : RemoteConnectionRecord} (ha : a ∈ map.values)
    (hb : b ∈ map.values) (hid : a.connectionId = b.connectionId) : a = b := by
  obtain ⟨⟨k, a⟩, hka, rfl⟩ := List.mem_map.mp ha
  obtain ⟨⟨l, b⟩, hlb, rfl⟩ := List.mem_map.mp hb
  have hk : a.connectionId = k := h _ hka
  have hl : b.connectionId = l := h _ hlb
  obtain rfl : k = l := hk.symm.trans (hid.trans hl)
  exact SortedMap.eq_of_mem hka hlb

theorem Keyed.values_remove (h : Keyed map) (id : String) :
    (map.remove id).values = map.values.filter (·.connectionId ≠ id) := by
  unfold SortedMap.values SortedMap.remove
  rw [List.filter_map]
  refine congrArg (List.map _) (List.filter_congr fun e he => ?_)
  rw [Function.comp_apply, h e he]

theorem Keyed.apply (h : Keyed map) (op : Operation) : Keyed (op.apply map) := by
  intro e he
  cases op with
  | upsert record =>
    rcases SortedMap.mem_insert.mp he with rfl | ⟨-, he⟩
    · rfl
    · exact h e he
  | forget id => exact h e (SortedMap.mem_remove.mp he).2

theorem mapOf_append {done : List (StoreIo × Operation)} :
    mapOf (done ++ [(io, op)]) = op.apply (mapOf done) := by
  rw [mapOf, List.foldl_append]
  rfl

theorem keyed_mapOf (ops : List (StoreIo × Operation)) : Keyed (mapOf ops) := by
  induction ops using List.reverseRecOn with
  | nil => exact fun e he => absurd he List.not_mem_nil
  | append_singleton done s ih => exact mapOf_append ▸ ih.apply s.2

theorem sorted_sortRecords (l : List RemoteConnectionRecord) :
    (sortRecords l).Pairwise RemoteConnectionRecord.Le := by
  have h : (sortRecords l).Pairwise fun a b => decide (a.Le b) = true := by
    refine List.pairwise_mergeSort (fun a b c hab hbc => ?_) (fun a b => ?_) l
    · exact decide_eq_true ((of_decide_eq_true hab).trans (of_decide_eq_true hbc))
    · rw [Bool.or_eq_true, decide_eq_true_eq, decide_eq_true_eq]
      exact RemoteConnectionRecord.Le.total a b
  exact h.imp of_decide_eq_true

/-! ## Reading -/

variable {records : List RemoteConnectionRecord}

theorem Holding.reread (h : Holding J records) :
    records.map (·.reread J.rereadFloat) = records :=
  (List.map_congr_left fun r hr => (h.storable r hr).floats).trans (List.map_id' records)

theorem Holding.validate (h : Holding J records) :
    (document records).validate = true := by
  unfold RemoteDocument.validate document
  rw [decide_eq_true rfl, decide_eq_true h.length, List.all_eq_true.mpr h.valid]
  rfl

theorem readDocument_text (h : Holding J records)
    (hlimit : 2 ≤ J.limit) : readDocument J true (text J records) = .ok (document records) := by
  rw [text, readDocument_toVec, h.reread, if_pos]
  exact ⟨hlimit, fun r hr => ⟨(h.storable r hr).apart, (h.storable r hr).depth⟩⟩

/-- A load that succeeds gives the records of a current document that is valid. -/
theorem load_valid {bytes : τ} {d : RemoteDocument} (hcurrent : files.current = some bytes)
    (hread : readDocument J true bytes = .ok d) (hvalid : d.validate) {io : LoadIo}
    {loaded : List RemoteConnectionRecord} (hload : load J io files = .ok loaded) :
    loaded = d.connections := by
  unfold load loadFirst at hload
  rw [hcurrent] at hload
  dsimp only at hload
  cases hreads : io.readsCurrent with
  | true =>
    rw [hreads, hread] at hload
    simp only [hvalid, if_true] at hload
    exact (Except.ok.inj hload).symm
  | false =>
    rw [hreads] at hload
    cases hload

theorem readDocument_io {bytes : τ} : readDocument J true bytes ≠ .error .io := by
  unfold readDocument
  rw [if_neg (by decide)]
  split
  · intro h
    cases h
  · intro h
    cases h

/-- A load succeeds where every file can be read. -/
theorem load_readable (J : JsonText τ) (files : Backed τ) : ∃ loaded, load J ⟨true, true⟩ files = .ok loaded := by
  have hall : ∀ l : List (Option τ × Bool), (∀ file ∈ l, file.2 = true) →
      ∃ loaded, loadFirst J l = .ok loaded := by
    intro l
    induction l with
    | nil => exact fun _ => ⟨[], rfl⟩
    | cons file l ih =>
      intro h
      have hrest := ih fun file hfile => h file (List.mem_cons_of_mem _ hfile)
      obtain ⟨bytes, reads⟩ := file
      obtain rfl : reads = true := h _ List.mem_cons_self
      cases bytes with
      | none => exact hrest
      | some bytes =>
        unfold loadFirst
        split
        · split
          · exact ⟨_, rfl⟩
          · exact hrest
        · next hio => exact absurd hio readDocument_io
        · exact hrest
  refine hall _ fun file hfile => ?_
  rcases List.mem_cons.mp hfile with rfl | hfile
  · rfl
  · rw [List.mem_singleton.mp hfile]

/-- A load that succeeds gives the records. -/
theorem Follows.load (h : Follows J files map records)
    {io : LoadIo} {loaded : List RemoteConnectionRecord}
    (hload : RemoteStore.load J io files = .ok loaded) : loaded = records := by
  rcases h.current with ⟨hcurrent, hlimit⟩ | ⟨hcurrent, rfl⟩
  · exact load_valid hcurrent (readDocument_text h.holding hlimit) h.holding.validate hload
  · unfold RemoteStore.load at hload
    rw [hcurrent, h.noBackup hcurrent] at hload
    exact (Except.ok.inj hload).symm

theorem Follows.shows (h : Follows J files map records) :
    Shows J files map := by
  obtain ⟨loaded, hload⟩ := load_readable J files
  obtain rfl := h.load hload
  exact ⟨loaded, hload, h.perm, h.sorted⟩

theorem Follows.storableMap
    (h : Follows J files map records) : StorableMap J map := by
  refine ⟨?_, fun r hr => h.holding.storable r (h.perm.mem_iff.mpr hr)⟩
  rw [← SortedMap.length_values, ← h.perm.length_eq]
  exact h.holding.length

/-! ## Writing -/

theorem writeDocument_ok {outcome : Written} {d : RemoteDocument} {file file' : Option τ}
    (h : writeDocument J outcome d file = (.ok (), file')) : file' = some (J.toVec d.toJson) := by
  cases outcome with
  | written => cases h; rfl
  | unprotected => cases h
  | failed => cases h

/-- What is written, and that a backup is of the current document. -/
theorem write_ok
    (h : write J io records files = (.ok (), files')) :
    files'.current = some (text J records) ∧ (files'.backup = files.backup ∨
      ∃ d, previous J io files = some d ∧ files'.backup = some (J.toVec d.toJson)) := by
  unfold write at h
  split at h
  · cases h
  · unfold writeBackup at h
    cases hprevious : previous J io files with
    | none =>
      rw [hprevious] at h
      obtain ⟨hresult, hfiles⟩ := Prod.mk.inj h
      subst hfiles
      exact ⟨writeDocument_ok (Prod.ext hresult rfl), .inl rfl⟩
    | some d =>
      rw [hprevious] at h
      dsimp only at h
      cases hbackup : writeDocument J io.backup d files.backup with
      | mk kept backup =>
        rw [hbackup] at h
        cases kept with
        | error error => cases h
        | ok _ =>
          obtain ⟨hresult, hfiles⟩ := Prod.mk.inj h
          subst hfiles
          exact ⟨writeDocument_ok (Prod.ext hresult rfl), .inr ⟨d, rfl, writeDocument_ok hbackup⟩⟩

/-- After a write the backup has records that were current once. -/
theorem Follows.write_backup {records written : List RemoteConnectionRecord}
    (h : Follows J files map records) (hwrite : write J io written files = (.ok (), files')) :
    BackupHolds J files' := by
  obtain ⟨-, hbackup | ⟨d, hprevious, hbackup⟩⟩ := write_ok hwrite
  · intro bytes hbytes
    exact h.backup bytes (hbackup ▸ hbytes)
  · intro bytes hbytes
    obtain rfl := Option.some.inj (hbackup ▸ hbytes)
    refine ⟨records, h.holding, ?_⟩
    unfold previous at hprevious
    rcases h.current with ⟨hcurrent, hlimit⟩ | ⟨hcurrent, -⟩
    · rw [hcurrent, Option.bind_some] at hprevious
      cases hreads : io.readsPrevious with
      | true =>
        rw [hreads, readDocument_text h.holding hlimit] at hprevious
        obtain ⟨hd, -⟩ := Option.filter_eq_some_iff.mp hprevious
        cases hd
        rfl
      | false =>
        rw [hreads] at hprevious
        cases hprevious
    · rw [hcurrent] at hprevious
      cases hprevious

/-- Records that are written and can be read back. -/
theorem Follows.write {records written : List RemoteConnectionRecord} {map' : Records}
    (h : Follows J files map records) (hwrite : RemoteStore.write J io written files = (.ok (), files'))
    (hperm : written.Perm map'.values) (hsorted : written.Pairwise RemoteConnectionRecord.Le)
    (hholding : Holding J written) (hlimit : 2 ≤ J.limit) : Follows J files' map' written where
  perm := hperm
  sorted := hsorted
  holding := hholding
  current := .inl ⟨(write_ok hwrite).1, hlimit⟩
  backup := h.write_backup hwrite
  noBackup hnone := by rw [(write_ok hwrite).1] at hnone; cases hnone

/-! ## The law -/

/-- What is read back of the current document or the backup, and shows the map, has its records as
they are. -/
theorem storableMap_of_shows (hkeyed : Keyed map)
    (hperm : records.Perm map.values) (hnonempty : map.values ≠ [])
    (hcurrent : files.current = some (text J records)) (hbackup : BackupHolds J files)
    (h : Shows J files map) : StorableMap J map := by
  obtain ⟨loaded, hload, hloaded, -⟩ := h
  unfold load loadFirst at hload
  rw [hcurrent] at hload
  simp only [text, readDocument_toVec] at hload
  have hrest (hload : loadFirst J [(files.backup, true)] = .ok loaded) : StorableMap J map := by
    cases hfile : files.backup with
    | none =>
      rw [hfile] at hload
      cases hload
      exact absurd hloaded.nil_eq.symm hnonempty
    | some bytes =>
      obtain ⟨older, hholding, rfl⟩ := hbackup bytes hfile
      rw [hfile] at hload
      unfold loadFirst at hload
      simp only [text, readDocument_toVec] at hload
      split at hload
      · next d hd =>
        split at hd
        · cases hd
          rw [hholding.reread, if_pos hholding.validate] at hload
          obtain rfl : older = loaded := Except.ok.inj hload
          refine ⟨?_, fun r hr => hholding.storable r (hloaded.mem_iff.mpr hr)⟩
          rw [← SortedMap.length_values, ← hloaded.length_eq]
          exact hholding.length
        · cases hd
      · cases hload
      · cases hload
        exact absurd hloaded.nil_eq.symm hnonempty
  split at hload
  · next d hd =>
    split at hd
    · next hreadable =>
      cases hd
      split at hload
      · next hvalid =>
        obtain rfl : records.map (·.reread J.rereadFloat) = loaded := Except.ok.inj hload
        refine ⟨?_, fun r hr => ?_⟩
        · rw [← SortedMap.length_values, ← hloaded.length_eq]
          unfold RemoteDocument.validate document at hvalid
          simp only [Bool.and_eq_true, decide_eq_true_eq] at hvalid
          exact hvalid.1.2
        · have hmem := hperm.mem_iff.mpr hr
          obtain ⟨hapart, hdepth⟩ := hreadable.2 r hmem
          refine ⟨hapart, hdepth, hkeyed.eq_of_mem ?_ hr rfl⟩
          exact hloaded.mem_iff.mp (List.mem_map_of_mem hmem)
      · exact hrest hload
    · cases hd
  · cases hload
  · exact hrest hload

/-- The records without those of an identifier are the values of the map without it. -/
theorem Follows.perm_filter
    (h : Follows J files map records) (hkeyed : Keyed map) (id : String) :
    (records.filter (·.connectionId ≠ id)).Perm (map.remove id).values := by
  rw [hkeyed.values_remove]
  exact h.perm.filter _

theorem Holding.filter (h : Holding J records)
    (p : RemoteConnectionRecord → Bool) : Holding J (records.filter p) where
  length := (List.length_filter_le p records).trans h.length
  storable r hr := h.storable r (List.mem_filter.mp hr).1
  valid r hr := h.valid r (List.mem_filter.mp hr).1

theorem Follows.upsert {record : RemoteConnectionRecord}
    (h : Follows J files map records) (hkeyed : Keyed map)
    (hok : RemoteStore.upsert J io record files = (.ok (), files'))
    (hnext : Shows J files' (map.insert record.connectionId record) ∨
      StorableMap J (map.insert record.connectionId record)) :
    ∃ records', Follows J files' (map.insert record.connectionId record) records' := by
  unfold RemoteStore.upsert at hok
  split at hok
  · cases hok
  · next hvalid =>
    cases hload : RemoteStore.load J io.toLoadIo files with
    | error error =>
      rw [hload] at hok
      cases hok
    | ok loaded =>
      obtain rfl := h.load hload
      rw [hload] at hok
      dsimp only at hok
      have hperm : (sortRecords (loaded.filter (·.connectionId ≠ record.connectionId) ++
          [record])).Perm (map.insert record.connectionId record).values := by
        refine (List.mergeSort_perm _ _).trans (List.perm_append_singleton _ _ |>.trans ?_)
        exact ((h.perm_filter hkeyed _).cons record).trans SortedMap.values_insert_perm.symm
      have hrecord : record ∈ (map.insert record.connectionId record).values :=
        SortedMap.mem_values_of_get? (by rw [SortedMap.get?_insert, if_pos rfl])
      have hstorable : StorableMap J (map.insert record.connectionId record) :=
        hnext.elim (storableMap_of_shows (hkeyed.apply (.upsert record)) hperm
          (List.ne_nil_of_mem hrecord) (write_ok hok).1 (h.write_backup hok)) id
      have hdepth := (hstorable.2 record hrecord).depth
      refine ⟨_, h.write hok hperm (sorted_sortRecords _) ⟨?_, fun r hr => ?_, fun r hr => ?_⟩
        (by omega)⟩
      · rw [hperm.length_eq, SortedMap.length_values]
        exact hstorable.1
      · exact hstorable.2 r (hperm.mem_iff.mp hr)
      · rcases List.mem_append.mp ((List.mergeSort_perm _ _).mem_iff.mp hr) with hr | hr
        · exact h.holding.valid r (List.mem_filter.mp hr).1
        · rw [List.mem_singleton.mp hr]
          simpa using hvalid

theorem Follows.forget {id : String} {found : Bool}
    (h : Follows J files map records) (hkeyed : Keyed map)
    (hok : RemoteStore.forget J io id files = (.ok found, files')) :
    ∃ records', Follows J files' (map.remove id) records' := by
  unfold RemoteStore.forget at hok
  cases hload : RemoteStore.load J io.toLoadIo files with
  | error error =>
    rw [hload] at hok
    cases hok
  | ok loaded =>
    obtain rfl := h.load hload
    rw [hload] at hok
    dsimp only at hok
    have hperm := h.perm_filter hkeyed id
    split at hok
    · next hlength =>
      cases hok
      have hsame : loaded.filter (·.connectionId ≠ id) = loaded :=
        List.filter_eq_self.mpr (List.length_filter_eq_length_iff.mp hlength)
      exact ⟨loaded, hsame ▸ hperm, h.sorted, h.holding, h.current, h.backup, h.noBackup⟩
    · next hlength =>
      cases hwrite : RemoteStore.write J io (loaded.filter (·.connectionId ≠ id)) files with
      | mk result written =>
        rw [hwrite] at hok
        cases result with
        | error error => cases hok
        | ok _ =>
          cases hok
          have hlimit : 2 ≤ J.limit := by
            rcases h.current with ⟨-, hlimit⟩ | ⟨-, rfl⟩
            · exact hlimit
            · exact absurd rfl hlength
          exact ⟨_, h.write hwrite hperm (h.sorted.filter _) (h.holding.filter _) hlimit⟩

theorem Follows.perform (h : Follows J files map records)
    (hkeyed : Keyed map) (hok : RemoteStore.perform J io op files = (.ok (), files'))
    (hnext : Shows J files' (op.apply map) ∨ StorableMap J (op.apply map)) :
    ∃ records', Follows J files' (op.apply map) records' := by
  cases op with
  | upsert record => exact h.upsert hkeyed hok hnext
  | forget id =>
    unfold RemoteStore.perform at hok
    dsimp only at hok
    cases hforget : RemoteStore.forget J io id files with
    | mk result forgotten =>
      rw [hforget] at hok
      cases result with
      | error error => cases hok
      | ok found =>
        cases hok
        exact h.forget hkeyed hforget

theorem follows_empty : Follows J .empty .empty [] where
  perm := .nil
  sorted := .nil
  holding := ⟨Nat.zero_le _, fun r hr => absurd hr List.not_mem_nil,
    fun r hr => absurd hr List.not_mem_nil⟩
  current := .inr ⟨rfl, rfl⟩
  backup bytes h := by cases h
  noBackup _ := rfl

theorem performAll_append {done : List (StoreIo × Operation)}
    (h : performAll J (done ++ [(io, op)]) files = some files') :
    ∃ between, performAll J done files = some between ∧
      perform J io op between = (.ok (), files') := by
  induction done generalizing files with
  | nil =>
    cases hperform : perform J io op files with
    | mk result next =>
      rw [List.nil_append, performAll, hperform] at h
      cases result with
      | error error => cases h
      | ok _ =>
        cases h
        exact ⟨files, rfl, hperform⟩
  | cons s done ih =>
    cases hperform : perform J s.1 s.2 files with
    | mk result next =>
      rw [List.cons_append, performAll, hperform] at h
      rw [performAll, hperform]
      cases result with
      | error error => cases h
      | ok _ => exact ih h

/-- A run where each map on the way is shown or can be stored. -/
theorem follows_run (ops : List (StoreIo × Operation)) {files : Backed τ}
    (hrun : performAll J ops .empty = some files)
    (h : ∀ done reached, done <+: ops → performAll J done .empty = some reached →
      Shows J reached (mapOf done) ∨ StorableMap J (mapOf done)) :
    ∃ records, Follows J files (mapOf ops) records := by
  induction ops using List.reverseRecOn generalizing files with
  | nil =>
    cases hrun
    exact ⟨[], follows_empty⟩
  | append_singleton done s ih =>
    obtain ⟨io, op⟩ := s
    obtain ⟨between, hbetween, hperform⟩ := performAll_append hrun
    obtain ⟨records, hfollows⟩ := ih hbetween fun earlier reached hstart =>
      h earlier reached (hstart.trans (List.prefix_append _ _))
    rw [mapOf_append]
    refine hfollows.perform (keyed_mapOf done) hperform ?_
    rw [← mapOf_append]
    exact h _ _ (List.prefix_refl _) hrun

/-- The operation finds nothing to write. -/
def Misses (op : Operation) (d : RemoteDocument) : Prop :=
  ∃ id, op = .forget id ∧ ∀ r ∈ d.connections, r.connectionId ≠ id

/-- The document that a write leaves has the extension members of none. -/
theorem write_extensions {bytes : τ} {d : RemoteDocument}
    (h : write J io records files = (.ok (), files')) (hcurrent : files'.current = some bytes)
    (hread : readDocument J true bytes = .ok d) : d.extensions = .empty := by
  obtain rfl := Option.some.inj ((write_ok h).1.symm.trans hcurrent)
  rw [text, readDocument_toVec] at hread
  split at hread
  · cases hread
    rfl
  · cases hread

/-- An operation that succeeds keeps the extension members of the document exactly if there are
none, or nothing is written. -/
theorem perform_extensions {bytes bytes' : τ} {d d' : RemoteDocument}
    (hcurrent : files.current = some bytes) (hread : readDocument J true bytes = .ok d)
    (hvalid : d.validate) (hok : perform J io op files = (.ok (), files'))
    (hcurrent' : files'.current = some bytes') (hread' : readDocument J true bytes' = .ok d') :
    d'.extensions = d.extensions ↔ d.extensions = .empty ∨ Misses op d := by
  cases op with
  | upsert record =>
    have hempty : d'.extensions = .empty := by
      unfold perform upsert at hok
      dsimp only at hok
      split at hok
      · cases hok
      · split at hok
        · cases hok
        · exact write_extensions hok hcurrent' hread'
    rw [hempty, eq_comm]
    refine ⟨.inl, fun h => h.resolve_right fun hmisses => ?_⟩
    obtain ⟨id, hop, -⟩ := hmisses
    cases hop
  | forget id =>
    unfold perform forget at hok
    dsimp only at hok
    cases hload : load J io.toLoadIo files with
    | error error =>
      rw [hload] at hok
      cases hok
    | ok loaded =>
      rw [hload] at hok
      dsimp only at hok
      obtain rfl := load_valid hcurrent hread hvalid hload
      have hmisses : Misses (.forget id) d ↔
          (d.connections.filter (·.connectionId ≠ id)).length = d.connections.length := by
        rw [List.length_filter_eq_length_iff]
        constructor
        · rintro ⟨_, hop, hall⟩ r hr
          cases hop
          exact decide_eq_true (hall r hr)
        · exact fun hall => ⟨id, rfl, fun r hr => of_decide_eq_true (hall r hr)⟩
      rw [hmisses]
      split at hok
      · next hlength =>
        cases hok
        obtain rfl := Option.some.inj (hcurrent.symm.trans hcurrent')
        obtain rfl := Except.ok.inj (hread.symm.trans hread')
        exact iff_of_true rfl (.inr hlength)
      · next hlength =>
        have hempty : d'.extensions = .empty := by
          cases hwrite : write J io (d.connections.filter (·.connectionId ≠ id)) files with
          | mk result written =>
            rw [hwrite] at hok
            cases result with
            | error error => cases hok
            | ok _ =>
              cases hok
              exact write_extensions hwrite hcurrent' hread'
        rw [hempty, eq_comm, or_iff_left hlength]

/-- Along a run of operations that succeed, every load gives the records of the map in their order,
exactly if on the way there are at most 256 records, and each can be read back. The extension members
of a document are kept exactly where it has none, or nothing is written. -/
theorem map_law (J : JsonText τ) :
    (∀ ops : List (StoreIo × Operation), (performAll J ops .empty).isSome →
      ((∀ done reached, done <+: ops → performAll J done .empty = some reached →
          Shows J reached (mapOf done)) ↔
        ∀ done, done <+: ops → StorableMap J (mapOf done))) ∧
    ∀ (files files' : Backed τ) (io : StoreIo) (op : Operation) (bytes bytes' : τ)
      (d d' : RemoteDocument), files.current = some bytes → readDocument J true bytes = .ok d →
      d.validate → perform J io op files = (.ok (), files') → files'.current = some bytes' →
      readDocument J true bytes' = .ok d' →
      (d'.extensions = d.extensions ↔ d.extensions = .empty ∨ Misses op d) := by
  refine ⟨fun ops hok => ?_, fun files files' io op bytes bytes' d d' => perform_extensions⟩
  have hreached : ∀ done, done <+: ops → ∃ reached, performAll J done .empty = some reached := by
    rintro done ⟨rest, rfl⟩
    induction rest using List.reverseRecOn with
    | nil => exact Option.isSome_iff_exists.mp (List.append_nil done ▸ hok)
    | append_singleton rest s ih =>
      obtain ⟨io, op⟩ := s
      obtain ⟨files, hfiles⟩ := Option.isSome_iff_exists.mp hok
      rw [← List.append_assoc] at hfiles
      obtain ⟨between, hbetween, -⟩ := performAll_append hfiles
      exact ih (by rw [hbetween]; rfl)
  constructor
  · intro h done hdone
    obtain ⟨reached, hrun⟩ := hreached done hdone
    obtain ⟨records, hfollows⟩ := follows_run done hrun fun earlier between hearlier hbetween =>
      .inl (h earlier between (hearlier.trans hdone) hbetween)
    exact hfollows.storableMap
  · intro h done reached hdone hrun
    obtain ⟨records, hfollows⟩ := follows_run done hrun fun earlier between hearlier _ =>
      .inr (h earlier (hearlier.trans hdone))
    exact hfollows.shows

/-! ## Many hosts -/

/-- Operations without trouble. -/
def calm : StoreIo := ⟨⟨true, true⟩, true, true, .written, .written⟩

theorem performAll_upserts (J : JsonText τ)
    (hvalid : ∀ r ∈ records, r.validate) (files : Backed τ) :
    (performAll J (records.map fun r => (calm, .upsert r)) files).isSome := by
  induction records generalizing files with
  | nil => rfl
  | cons r records ih =>
    obtain ⟨loaded, hload⟩ := load_readable J files
    have hok : ∃ files', perform J calm (.upsert r) files = (.ok (), files') := by
      unfold perform upsert
      dsimp only
      rw [hvalid r List.mem_cons_self, if_neg (by decide)]
      rw [show calm.toLoadIo = ⟨true, true⟩ from rfl, hload]
      dsimp only
      unfold write writeBackup
      rw [if_neg (by decide)]
      cases previous J calm files with
      | none => exact ⟨_, rfl⟩
      | some d => exact ⟨_, rfl⟩
    obtain ⟨files', hok⟩ := hok
    rw [List.map_cons, performAll, hok]
    exact ih (fun r hr => hvalid r (List.mem_cons_of_mem _ hr)) files'

/-- Records under different identifiers are all in the map. -/
theorem length_mapOf_upserts
    (h : (records.map (·.connectionId)).Nodup) :
    (mapOf (records.map fun r => (calm, .upsert r))).length = records.length := by
  have hmap : mapOf (records.map fun r => (calm, .upsert r)) =
      .ofList (records.map fun r => (r.connectionId, r)) := by
    rw [mapOf, SortedMap.ofList, List.foldl_map, List.foldl_map]
    rfl
  have hperm : (mapOf (records.map fun r => (calm, .upsert r))).keys.Perm
      (records.map (·.connectionId)) := by
    refine (List.perm_ext_iff_of_nodup (SortedMap.nodup_keys _) h).mpr fun k => ?_
    rw [hmap, SortedMap.mem_keys_ofList, List.map_map]
    rfl
  rw [← SortedMap.length_keys, hperm.length_eq, List.length_map]

/-- The last digit of a number in base 16. -/
def digit (d : Nat) : Char := Nat.digitChar (d % 16)

def host (i : Nat) : RemoteConnectionRecord :=
  ⟨String.ofList (List.replicate 29 '0' ++ [digit (i / 256), digit (i / 16), digit i]), "host", none,
    [], none, none, .empty⟩

def hosts : List RemoteConnectionRecord := (List.range 257).map host

theorem digit_valid (d : Nat) : (digit d).utf8Size = 1 ∧
    (isDigit (digit d) || (97 ≤ (digit d).toNat && (digit d).toNat ≤ 102)) = true := by
  have hall : ∀ d < 16, (Nat.digitChar d).utf8Size = 1 ∧
      (isDigit (Nat.digitChar d) ||
        (97 ≤ (Nat.digitChar d).toNat && (Nat.digitChar d).toNat ≤ 102)) = true := by decide
  exact hall (d % 16) (Nat.mod_lt _ (by decide))

theorem host_valid (i : Nat) : (host i).validate = true := by
  have hsize : (host i).connectionId.utf8ByteSize = 32 := by
    unfold host
    rw [utf8ByteSize_ofList, byteLen_append]
    unfold byteLen
    simp only [List.map_cons, List.map_nil, (digit_valid _).1]
    decide
  have hchars : (host i).connectionId.toList.all
      (fun c => isDigit c || (97 ≤ c.toNat && c.toNat ≤ 102)) = true := by
    unfold host
    rw [String.toList_ofList, List.all_append]
    simp only [List.all_cons, (digit_valid _).2]
    decide
  have halias : (0 < "host".utf8ByteSize && "host".utf8ByteSize ≤ 255 &&
      "host".toList.head? ≠ some '-' && !"host".toList.any isControl) = true := by decide
  unfold RemoteConnectionRecord.validate
  simp only [Bool.and_eq_true] at halias ⊢
  exact ⟨⟨⟨⟨⟨decide_eq_true hsize, hchars⟩, halias⟩, rfl⟩, rfl, rfl⟩, rfl⟩

theorem nodup_hosts : (hosts.map (·.connectionId)).Nodup := by
  rw [hosts, List.map_map]
  refine List.Nodup.map_on (fun i hi j hj hij => ?_) List.nodup_range
  have hdigits : ∀ d < 16, ∀ e < 16, Nat.digitChar d = Nat.digitChar e → d = e := by
    decide
  have hdigit : ∀ d e, digit d = digit e → d % 16 = e % 16 := fun d e =>
    hdigits _ (Nat.mod_lt _ (by decide)) _ (Nat.mod_lt _ (by decide))
  have hlist := List.append_cancel_left (String.ofList_injective hij)
  obtain ⟨hhigh, hrest⟩ := List.cons.inj hlist
  obtain ⟨hmiddle, hrest⟩ := List.cons.inj hrest
  obtain ⟨hlow, -⟩ := List.cons.inj hrest
  have hhigh := hdigit _ _ hhigh
  have hmiddle := hdigit _ _ hmiddle
  have hlow := hdigit _ _ hlow
  rw [List.mem_range] at hi hj
  omega
/-- A parser that reads what it is given. -/
def plain : JsonText Json where
  limit := 127
  rereadFloat := id
  toVec := id
  fromSlice v := if v.depth ≤ 127 then some (v.mapFloats id) else none
  fromSlice_toVec _ := rfl

/-- A document with a member that is not declared. -/
def extended : RemoteDocument := ⟨1, [host 0], .singleton "theme" .null⟩

/-- A host that is added is shown, and the members of a document that are not declared are lost with
the host that is forgotten. -/
theorem map_law_host :
    Shows plain ⟨some (text plain [host 0]), none⟩ (mapOf [(calm, .upsert (host 0))]) ∧
      ((document []).extensions = extended.extensions ↔
        extended.extensions = .empty ∨ Misses (.forget (host 0).connectionId) extended) := by
  have hvalid : ∀ r ∈ [host 0], r.validate := by
    intro r hr
    rw [List.mem_singleton.mp hr]
    exact host_valid 0
  have hok := performAll_upserts plain hvalid .empty
  have hstorable : Storable plain (host 0) := ⟨rfl, by decide, rfl⟩
  refine ⟨((map_law plain).1 _ hok).mpr (fun done hdone => ?_) [(calm, .upsert (host 0))] _
    (List.prefix_refl _) ?_, ?_⟩
  · rcases List.prefix_cons_iff.mp hdone with rfl | ⟨rest, rfl, hrest⟩
    · exact ⟨by decide, fun r hr => absurd hr List.not_mem_nil⟩
    · obtain rfl := List.prefix_nil.mp hrest
      refine ⟨by decide, fun r hr => ?_⟩
      rw [List.mem_singleton.mp hr]
      exact hstorable
  · have hsort : sortRecords [host 0] = [host 0] := List.mergeSort_singleton _
    have hperform : perform plain calm (.upsert (host 0)) .empty =
        (.ok (), ⟨some (text plain [host 0]), none⟩) := by
      unfold perform upsert
      dsimp only
      rw [host_valid, if_neg (by decide)]
      show write plain calm (sortRecords [host 0]) .empty = _
      rw [hsort]
      rfl
    rw [performAll, hperform]
    rfl
  · exact (map_law plain).2 ⟨some extended.toJson, none⟩
      ⟨some (document []).toJson, some extended.toJson⟩ calm (.forget (host 0).connectionId)
      extended.toJson (document []).toJson extended (document []) rfl rfl (by decide) rfl rfl rfl

/-- After the 257th host the store shows the hosts before it. -/
theorem too_many_hosts_lost : ¬ ∀ ops : List (StoreIo × Operation),
    (performAll plain ops .empty).isSome → ∀ done reached, done <+: ops →
      performAll plain done .empty = some reached → Shows plain reached (mapOf done) := by
  intro h
  have hvalid : ∀ r ∈ hosts, r.validate = true := by
    intro r hr
    obtain ⟨i, -, rfl⟩ := List.mem_map.mp hr
    exact host_valid i
  have hok := performAll_upserts plain hvalid .empty
  obtain ⟨files, hrun⟩ := Option.isSome_iff_exists.mp hok
  obtain ⟨records, hfollows⟩ := follows_run _ hrun fun done reached hdone hreached =>
    .inl (h _ hok done reached hdone hreached)
  have hlength := hfollows.storableMap.1
  rw [length_mapOf_upserts nodup_hosts, hosts, List.length_map, List.length_range] at hlength
  omega

end Strukt.RemoteStore
