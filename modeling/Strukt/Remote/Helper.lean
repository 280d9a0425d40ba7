import Strukt.Fs.DocumentIo
import Strukt.Lib.Cbor
import Strukt.Remote.OperationTracker

/-!
# Requests to the remote helper

A `HelperClient` sends a request as one frame, and the helper answers it with one frame. A frame is
a value in CBOR, and neither side writes one that is larger than the negotiated limit: a response
that is too large ends the helper, and the client finds the end of the stream. `HelperFiles` is what
the helper has below its root. Of its requests these are the ones on one file.

* **Environment**: `ioText` is what the platform says of a file that is not there.
* **Frames**: what was written within the limit is read as it was written.
-/

namespace Strukt

/-- `char::is_control`. -/
def isControl (c : Char) : Bool := c.toNat < 32 || (127 ≤ c.toNat && c.toNat < 160)

end Strukt

namespace Strukt.Remote

open Strukt.Fs

/-! ## Paths -/

def maxRemotePathBytes : Nat := 4096

/-- `RemotePath::new`. -/
def isRemotePath (value : String) : Bool :=
  let segments := value.toList.splitOn '/'
  !value.isEmpty && value.utf8ByteSize ≤ maxRemotePathBytes &&
    value.toList.head? ≠ some '/' && value.toList.all (·.toNat ≠ 92) &&
    !value.toList.any isControl &&
    segments.all (fun segment => segment ≠ [] && segment ≠ ['.'] && segment ≠ ['.', '.']) &&
    (segments.headD []).getLast? ≠ some ':'

/-! ## Messages -/

inductive RequestBody where
  | stat (path : String)
  | readFile (path : String) (offset : UInt64) (length : UInt32)
  deriving DecidableEq

structure RequestEnvelope where
  requestId : RequestId
  generation : UInt64
  body : RequestBody
  deriving DecidableEq

inductive RemoteErrorKind where
  | invalidRequest
  | permissionDenied
  | conflict
  | capacityReached
  | internal
  deriving DecidableEq

def maxErrorDetailBytes : Nat := 1024

structure RemoteError where
  kind : RemoteErrorKind
  detail : String
  deriving DecidableEq

/-- `bounded_detail`. -/
def RemoteError.boundedDetail (detail : String) : String :=
  bounded (detail.map fun c => if c.toNat = 0 then Char.ofNat 0xfffd else c) maxErrorDetailBytes

def RemoteError.new (kind : RemoteErrorKind) (detail : String) : RemoteError :=
  ⟨kind, RemoteError.boundedDetail detail⟩

inductive ResponseBody where
  | metadata (revision kind : String) (size : UInt64)
  | stream (chunk : StreamChunk)
  | error (error : RemoteError)
  deriving DecidableEq

structure ResponseEnvelope where
  requestId : RequestId
  generation : UInt64
  body : ResponseBody
  deriving DecidableEq

/-! ## Encodings -/

def RequestId.toCbor (id : RequestId) : Cbor := .unsigned id.value.toNat

def RequestBody.toCbor : RequestBody → Cbor
  | .stat path => .variant "Stat" (.map [("path", .text path)])
  | .readFile path offset length =>
    .variant "ReadFile" (.map [("path", .text path), ("offset", .unsigned offset.toNat),
      ("length", .unsigned length.toNat)])

def RequestEnvelope.toCbor (r : RequestEnvelope) : Cbor :=
  .map [("request_id", r.requestId.toCbor), ("generation", .unsigned r.generation.toNat),
    ("body", r.body.toCbor)]

def RemoteErrorKind.toCbor : RemoteErrorKind → Cbor
  | .invalidRequest => .text "InvalidRequest"
  | .permissionDenied => .text "PermissionDenied"
  | .conflict => .text "Conflict"
  | .capacityReached => .text "CapacityReached"
  | .internal => .text "Internal"

def StreamChunk.toCbor (chunk : StreamChunk) : Cbor :=
  .map [("request_id", chunk.requestId.toCbor), ("sequence", .unsigned chunk.sequence.toNat),
    ("bytes", .byteArray chunk.bytes)]

def ResponseBody.toCbor : ResponseBody → Cbor
  | .metadata revision kind size =>
    .variant "Metadata" (.map [("revision", .text revision), ("kind", .text kind),
      ("size", .unsigned size.toNat)])
  | .stream chunk => .variant "Stream" chunk.toCbor
  | .error e => .variant "Error" (.map [("kind", e.kind.toCbor), ("detail", .text e.detail)])

def ResponseEnvelope.toCbor (r : ResponseEnvelope) : Cbor :=
  .map [("request_id", r.requestId.toCbor), ("generation", .unsigned r.generation.toNat),
    ("body", r.body.toCbor)]

/-- `write_frame` accepts the payload. -/
def fitsFrame (maximum : Nat) (payload : Cbor) : Bool :=
  payload.encode.length ≠ 0 && payload.encode.length ≤ maximum

/-! ## The helper's files -/

structure HelperFiles where
  entry : String → Option DiskEntry
  revision : ByteArray → DiskRevision
  ioText : String

def maxReadBytes : Nat := 4 * 1024 * 1024

inductive RemoteFilesystemError where
  | confined (path : String)
  | conflict (expected actual : String)
  | fileTooLarge
  | io (error : String)
  | invalidPath
  deriving DecidableEq

inductive RemoteDocumentKind where
  | text
  | truncatedText
  | binary
  | invalidUtf8
  deriving DecidableEq

/-- The name of the variant in lower case. -/
def RemoteDocumentKind.wireName : RemoteDocumentKind → String
  | .text => "text"
  | .truncatedText => "truncatedtext"
  | .binary => "binary"
  | .invalidUtf8 => "invalidutf8"

/-- A document as the helper reads it. -/
structure ServedDocument where
  kind : RemoteDocumentKind
  bytes : ByteArray
  size : Nat
  revision : String
  deriving DecidableEq

def RemoteFilesystemError.toRemoteError : RemoteFilesystemError → RemoteError
  | .confined path => .new .permissionDenied ("remote path is not confined: " ++ path)
  | .conflict expected actual => .new .conflict
    ("remote file changed (expected " ++ expected ++ ", actual " ++ actual ++ ")")
  | .fileTooLarge => .new .capacityReached "remote file exceeds the transfer bound"
  | .io error => .new .internal ("remote filesystem I/O failed: " ++ error)
  | .invalidPath => .new .invalidRequest "remote path must be a relative normalized Linux path"

namespace HelperFiles

def mapDocumentError (files : HelperFiles) : DocumentIoError → RemoteFilesystemError
  | .symlink path | .notRegularFile path => .confined path.value
  | .saveConflict expected actual => .conflict expected.token actual.token
  | .notFound | .failed => .io files.ioText

def readOptions : ReadOptions where
  maxEditableBytes := maxReadBytes
  previewBytes := maxReadBytes
  forceFull := false

/-- `read_raw`. -/
def readRaw (contents : ByteArray) (maximum : Nat) : Except RemoteFilesystemError ByteArray :=
  if maximum < contents.size then .error .fileTooLarge else .ok contents

def remoteKind : DocumentKind → RemoteDocumentKind
  | .text _ true => .truncatedText
  | .text _ false => .text
  | .binary => .binary
  | .invalidUtf8 => .invalidUtf8

/-- The text of the document, or its bytes as they are. -/
def bytesOf (files : HelperFiles) (path : String) (document : DocumentRead) :
    Except RemoteFilesystemError ByteArray :=
  match document.text with
  | some text => .ok text.toUTF8
  | none => do
    let contents ← (openRegular ⟨path⟩ (files.entry path)).mapError files.mapDocumentError
    readRaw contents maxReadBytes

/-- `RemoteFilesystem::read`. -/
def read (files : HelperFiles) (path : String) :
    Except RemoteFilesystemError ServedDocument := do
  let document ← (readDocument files.revision ⟨path⟩ readOptions (files.entry path)).mapError
    files.mapDocumentError
  let bytes ← files.bytesOf path document
  return ⟨remoteKind document.kind, bytes, document.size, document.diskRevision.token⟩

/-- `RemotePath::new`, and the read. -/
def readPath (files : HelperFiles) (path : String) :
    Except RemoteFilesystemError ServedDocument :=
  if isRemotePath path then files.read path else .error .invalidPath

/-- `handle_filesystem`. -/
def handleFilesystem (files : HelperFiles) : RequestBody → Except RemoteFilesystemError ResponseBody
  | .stat path => do
    let document ← files.readPath path
    return .metadata document.revision document.kind.wireName (UInt64.ofNat document.size)
  | .readFile path offset length => do
    let document ← files.readPath path
    return .stream
      ⟨⟨1⟩, 0, (document.bytes.data.toList.drop offset.toNat).take length.toNat⟩

def handle (files : HelperFiles) (request : RequestEnvelope) : ResponseEnvelope where
  requestId := request.requestId
  generation := request.generation
  body :=
    match files.handleFilesystem request.body with
    | .ok body => body
    | .error error => .error error.toRemoteError

/-- The response as `write_response` sends it. -/
def response (files : HelperFiles) (request : RequestEnvelope) : ResponseEnvelope :=
  let response := files.handle request
  match response.body with
  | .stream chunk =>
    { response with body := .stream { chunk with requestId := response.requestId } }
  | _ => response

end HelperFiles

/-! ## The client -/

def ProtocolLimits.intersection (a b : ProtocolLimits) : ProtocolLimits where
  maxFrameBytes := min a.maxFrameBytes b.maxFrameBytes
  maxInFlight := min a.maxInFlight b.maxInFlight
  maxStreamChunkBytes := min a.maxStreamChunkBytes b.maxStreamChunkBytes
  initialStreamCreditBytes := min a.initialStreamCreditBytes b.initialStreamCreditBytes

structure HelperClient where
  /-- The limits of the client's hello. -/
  limits : ProtocolLimits
  generation : UInt64
  nextRequestId : UInt64

namespace HelperClient

/-- The negotiated limits: the helper offers the standard ones. -/
def negotiated (c : HelperClient) : ProtocolLimits := c.limits.intersection .standard

theorem negotiated_frame_le (c : HelperClient) : c.negotiated.maxFrameBytes ≤ 1024 * 1024 :=
  Nat.min_le_right _ _

/-- `HelperClient::request`: what the response has, and the client after it. -/
def request (c : HelperClient) (files : HelperFiles) (body : RequestBody) :
    Except String (ResponseBody × HelperClient) :=
  if c.nextRequestId = 0 then .error "remote helper request ID must be nonzero"
  else if c.nextRequestId = -1 then .error "remote helper request identifiers were exhausted"
  else
    let request : RequestEnvelope := ⟨⟨c.nextRequestId⟩, c.generation, body⟩
    let limit := c.negotiated.maxFrameBytes
    if !fitsFrame limit request.toCbor then .error "remote helper frame length is invalid"
    else if !fitsFrame limit (files.response request).toCbor then
      .error "remote helper stream ended"
    else
      .ok ((files.response request).body, { c with nextRequestId := c.nextRequestId + 1 })

end HelperClient
end Strukt.Remote
