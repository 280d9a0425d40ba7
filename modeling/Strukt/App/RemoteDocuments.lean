import Strukt.App.RemoteSurfaces
import Strukt.Remote.Helper

/-!
# Opening a document of a remote host

`readDocument` asks the helper what a file is, and for its bytes. A text should open as it is, with
the revision of its contents, as long as the response with it fits a frame; nothing else should
open, and never the start of a file as its text.

* **Files** (`open_law`): so it is exactly for the files that should not open. The client looks for
  kinds that the helper does not send for a text, and refuses every one.
* **The other files**: the one kind that the client takes is that of bytes that are not UTF-8, and
  these are refused once more as they are decoded: a frame has no room for a part of a file.
-/

namespace Strukt.App

open Strukt.Remote Strukt.Fs

/-! ## The client's side -/

/-- The length that a document is read with. -/
def documentReadLength : UInt32 := 1024 * 1024

/-- The kinds that the client takes for editable text. -/
def isEditableKind (kind : String) : Bool :=
  decide ("utf8".toList <:+: kind.toList) || kind = "file"

/-- The revision that the metadata has, where it is that of a text. -/
def editableRevision : ResponseBody → Except String String
  | .metadata revision kind _ =>
    if isEditableKind kind then .ok revision
    else .error ("remote document is not editable text (" ++ kind ++ ")")
  | .error error => .error error.detail
  | .stream _ => .error "remote helper returned invalid metadata"

def documentText : ResponseBody → Except String String
  | .stream chunk =>
    match String.fromUTF8? ⟨chunk.bytes.toArray⟩ with
    | some text => .ok text
    | none => .error "remote document is not valid UTF-8"
  | .error error => .error error.detail
  | .metadata _ _ _ => .error "remote helper returned invalid document bytes"

/-- `RemoteRuntime::read_document`. -/
def readDocument (client : HelperClient) (files : HelperFiles) (path : String) :
    Except String RemoteDocument := do
  let (metadata, client) ← client.request files (.stat path)
  let revision ← editableRevision metadata
  let (body, _) ← client.request files (.readFile path 0 documentReadLength)
  let text ← documentText body
  return { path, text, revision }

/-! ## What should open -/

/-- The response to the read of a document. -/
def readResponse (client : HelperClient) (files : HelperFiles) (path : String) : ResponseEnvelope :=
  files.response
    ⟨⟨client.nextRequestId + 1⟩, client.generation, .readFile path 0 documentReadLength⟩

/-- A confined regular file with the text, without NUL, whose response fits a frame. -/
structure Openable (client : HelperClient) (files : HelperFiles) (path text : String)
    (contents : ByteArray) : Prop where
  confined : isRemotePath path = true
  entry : files.entry path = some (.file contents)
  text : String.fromUTF8? contents = some text
  noNul : 0 ∉ contents.data.toList
  fits : fitsFrame client.negotiated.maxFrameBytes (readResponse client files path).toCbor = true

/-- The file opens as its text where it should, and not where it should not. -/
structure OpensFaithfully (client : HelperClient) (files : HelperFiles) (path : String) : Prop where
  opens : ∀ text contents, Openable client files path text contents →
    readDocument client files path =
      .ok { path, text, revision := (files.revision contents).token }
  fails : (¬∃ text contents, Openable client files path text contents) →
    ∃ error, readDocument client files path = .error error
  whole : ∀ document contents, readDocument client files path = .ok document →
    files.entry path = some (.file contents) →
    ¬(document.text.toUTF8.data.toList <+: contents.data.toList ∧
      document.text.toUTF8.data.toList ≠ contents.data.toList)

variable {client client' : HelperClient} {files : HelperFiles} {path : String}

/-! ## Requests -/

theorem request_eq_ok {body : RequestBody} {response : ResponseBody}
    (h : client.request files body = .ok (response, client')) :
    client' = { client with nextRequestId := client.nextRequestId + 1 } ∧
      response = (files.response ⟨⟨client.nextRequestId⟩, client.generation, body⟩).body ∧
      fitsFrame client.negotiated.maxFrameBytes
        (files.response ⟨⟨client.nextRequestId⟩, client.generation, body⟩).toCbor = true := by
  unfold HelperClient.request at h
  split at h
  · cases h
  split at h
  · cases h
  dsimp only at h
  split at h
  · cases h
  split at h
  · cases h
  · rename_i hfits
    cases h
    exact ⟨rfl, rfl, by simpa using hfits⟩

/-- A stream is longer than the bytes that it carries. -/
theorem length_lt_of_fits {limit : Nat} {envelope : ResponseEnvelope} {chunk : StreamChunk}
    (hbody : envelope.body = .stream chunk) (h : fitsFrame limit envelope.toCbor = true) :
    chunk.bytes.length < limit := by
  have hframe : envelope.toCbor.encode.length ≤ limit := by
    unfold fitsFrame at h
    exact of_decide_eq_true (Bool.and_eq_true_iff.mp h).2
  have hbytes := Cbor.length_encode_byteArray chunk.bytes
  have hchunk : (Cbor.byteArray chunk.bytes).encode.length < chunk.toCbor.encode.length :=
    Cbor.length_encode_lt_map (List.mem_cons_of_mem _ (List.mem_cons_of_mem _ List.mem_cons_self))
  have hvariant : chunk.toCbor.encode.length < envelope.body.toCbor.encode.length := by
    rw [hbody]
    exact Cbor.length_encode_lt_map List.mem_cons_self
  have henvelope : envelope.body.toCbor.encode.length < envelope.toCbor.encode.length :=
    Cbor.length_encode_lt_map (List.mem_cons_of_mem _ (List.mem_cons_of_mem _ List.mem_cons_self))
  omega

/-! ## What the helper says of a file -/

/-- Of the kinds that the helper sends, the client takes the one of bytes that are not UTF-8. -/
theorem kind_of_editable {kind : RemoteDocumentKind} (h : isEditableKind kind.wireName = true) :
    kind = .invalidUtf8 := by
  cases kind with
  | invalidUtf8 => rfl
  | text | truncatedText | binary => revert h; decide

/-- What is classified so has no text, and its bytes are not UTF-8. -/
theorem classify_invalidUtf8 {options : ReadOptions} {contents : ByteArray}
    (h : (classify files.revision options contents).kind = .invalidUtf8) :
    (classify files.revision options contents).text = none ∧
      String.fromUTF8? contents = none := by
  unfold classify at h ⊢
  dsimp only at h ⊢
  by_cases hbinary : isBinary contents = true
  · rw [if_pos hbinary] at h
    cases h
  · rw [if_neg hbinary] at h ⊢
    cases htext : String.fromUTF8? contents with
    | none => exact ⟨rfl, rfl⟩
    | some text =>
      rw [htext] at h
      cases h

/-- A document of that kind has the bytes of its file, and they are not UTF-8. -/
theorem bytes_of_invalidUtf8 {document : ServedDocument}
    (h : files.readPath path = .ok document) (hkind : document.kind = .invalidUtf8) :
    String.fromUTF8? document.bytes = none := by
  unfold HelperFiles.readPath at h
  split at h
  · obtain ⟨read, hread, h⟩ := bind_eq_ok.mp h
    obtain ⟨bytes, hbytes, h⟩ := bind_eq_ok.mp h
    cases h
    have hread_kind : read.kind = .invalidUtf8 := by
      cases hread_kind : read.kind with
      | invalidUtf8 => rfl
      | binary => simp [hread_kind, HelperFiles.remoteKind] at hkind
      | text readOnly truncated =>
        cases truncated with
        | true => simp [hread_kind, HelperFiles.remoteKind] at hkind
        | false => simp [hread_kind, HelperFiles.remoteKind] at hkind
    unfold Strukt.Fs.readDocument at hread
    cases hopen : openRegular ⟨path⟩ (files.entry path) with
    | error error =>
      rw [hopen] at hread
      cases hread
    | ok contents =>
      rw [hopen] at hread
      obtain rfl : classify files.revision HelperFiles.readOptions contents = read :=
        Except.ok.inj hread
      obtain ⟨htext, hinvalid⟩ := classify_invalidUtf8 hread_kind
      unfold HelperFiles.bytesOf at hbytes
      rw [htext, hopen] at hbytes
      have hraw : HelperFiles.readRaw contents maxReadBytes = .ok bytes := hbytes
      unfold HelperFiles.readRaw at hraw
      split at hraw
      · cases hraw
      · cases hraw
        exact hinvalid
  · cases h

/-! ## Files -/

theorem response_stat (id : RequestId) (generation : UInt64) :
    (files.response ⟨id, generation, .stat path⟩).body =
      match files.readPath path with
      | .ok document =>
        .metadata document.revision document.kind.wireName (UInt64.ofNat document.size)
      | .error error => .error error.toRemoteError := by
  have h : files.handleFilesystem (.stat path) = do
      let document ← files.readPath path
      return .metadata document.revision document.kind.wireName (UInt64.ofNat document.size) := rfl
  unfold HelperFiles.response HelperFiles.handle
  dsimp only
  rw [h]
  cases files.readPath path with
  | ok document => rfl
  | error error => rfl

theorem response_readFile (files : HelperFiles) (path : String) (id : RequestId)
    (generation : UInt64) (length : UInt32) :
    (files.response ⟨id, generation, .readFile path 0 length⟩).body =
      match files.readPath path with
      | .ok document => .stream ⟨id, 0, document.bytes.data.toList.take length.toNat⟩
      | .error error => .error error.toRemoteError := by
  have h : files.handleFilesystem (.readFile path 0 length) = do
      let document ← files.readPath path
      return .stream ⟨⟨1⟩, 0, document.bytes.data.toList.take length.toNat⟩ := rfl
  unfold HelperFiles.response HelperFiles.handle
  dsimp only
  rw [h]
  cases files.readPath path with
  | ok document => rfl
  | error error => rfl

/-- No document opens: a text is refused by its kind, and bytes that are not UTF-8 as they are
decoded. -/
theorem readDocument_fails (client : HelperClient) (files : HelperFiles) (path : String) :
    ∃ error, readDocument client files path = .error error := by
  cases hopen : readDocument client files path with
  | error error => exact ⟨error, rfl⟩
  | ok opened =>
    obtain ⟨⟨metadata, client'⟩, hstat, h⟩ := bind_eq_ok.mp hopen
    obtain ⟨revision, hrevision, h⟩ := bind_eq_ok.mp h
    obtain ⟨⟨body, client''⟩, hread, h⟩ := bind_eq_ok.mp h
    obtain ⟨text, htext, -⟩ := bind_eq_ok.mp h
    obtain ⟨rfl, rfl, -⟩ := request_eq_ok hstat
    obtain ⟨-, rfl, hfits⟩ := request_eq_ok hread
    rw [response_stat] at hrevision
    have hbody := response_readFile files path ⟨client.nextRequestId + 1⟩ client.generation
      documentReadLength
    cases hserved : files.readPath path with
    | error error =>
      rw [hserved] at hrevision
      cases hrevision
    | ok document =>
      rw [hserved] at hrevision hbody
      dsimp only at hrevision hbody
      have hkind : document.kind = .invalidUtf8 := by
        unfold editableRevision at hrevision
        split at hrevision
        · split at hrevision
          · rename_i hmetadata heditable
            cases hmetadata
            exact kind_of_editable heditable
          · cases hrevision
        · cases hrevision
        · cases hrevision
      have hlength := length_lt_of_fits hbody hfits
      have hlimit := client.negotiated_frame_le
      have hshort : document.bytes.data.toList.length ≤ documentReadLength.toNat := by
        have hread_length : documentReadLength.toNat = 1024 * 1024 := rfl
        dsimp only [HelperClient.negotiated] at hlength hlimit
        rw [List.length_take] at hlength
        omega
      -- The whole file came, and it is not UTF-8.
      rw [hbody, List.take_of_length_le hshort] at htext
      unfold documentText at htext
      dsimp only at htext
      rw [Array.toArray_toList, bytes_of_invalidUtf8 hserved hkind] at htext
      cases htext

/-- A document opens faithfully exactly where no text should open. -/
theorem open_law (client : HelperClient) (files : HelperFiles) (path : String) :
    OpensFaithfully client files path ↔
      ¬∃ text contents, Openable client files path text contents := by
  obtain ⟨error, hfails⟩ := readDocument_fails client files path
  constructor
  · rintro h ⟨text, contents, hopenable⟩
    have hopens := h.opens text contents hopenable
    rw [hfails] at hopens
    cases hopens
  · intro hno
    refine ⟨fun text contents h => absurd ⟨text, contents, h⟩ hno, fun _ => ⟨error, hfails⟩, ?_⟩
    intro document contents hopens
    rw [hfails] at hopens
    cases hopens

/-- A text of two letters is refused. -/
theorem text_refused :
    ¬OpensFaithfully ⟨.standard, 1, 1⟩
      ⟨fun path => if path = "notes.txt" then some (.file "hi".toUTF8) else none,
        fun _ => ⟨"revision"⟩, "No such file or directory"⟩ "notes.txt" := by
  intro h
  have hopens := h.opens "hi" "hi".toUTF8
    ⟨by decide, rfl, by decide, by decide, by decide⟩
  obtain ⟨error, hfails⟩ := readDocument_fails ⟨.standard, 1, 1⟩
    ⟨fun path => if path = "notes.txt" then some (.file "hi".toUTF8) else none,
      fun _ => ⟨"revision"⟩, "No such file or directory"⟩ "notes.txt"
  rw [hfails] at hopens
  cases hopens

end Strukt.App
