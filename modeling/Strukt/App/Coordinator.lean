import Strukt.Editor.Document
import Strukt.Language.Client
import Strukt.Language.Command
import Strukt.Lib.Runs

/-!
# The language coordinator

`LanguageCoordinator` is what the app knows of its language servers: the documents, one server per
language with its state and generation, the user's selections and approvals, and the diagnostics of
the open documents. Its operations answer with effects: a discovery to run, or messages for the
server of a generation.

* **Events carry generations**: a discovery result, a ready, stopped or failed event acts only on
  the server's current generation. `ensureLanguageStarted` and `retry` begin the next one.
* **Hash maps**: the maps are sorted here. Where the source takes the documents in the order of a
  `HashMap`, a `KeyOrder` gives the order.
* **Environment**: the grammar that a path is detected as and the built-in descriptor of a language
  are parameters, as are the parsers of a server's answers.
-/

namespace Strukt.App

open Strukt.Language

instance : LinearOrder DocumentId :=
  LinearOrder.lift' DocumentId.value fun a b h => by cases a; cases b; cases h; rfl

/-- An order in which a hash map gives its keys. -/
structure KeyOrder (κ : Type) where
  order : List κ → List κ
  perm : ∀ keys, (order keys).Perm keys

def KeyOrder.sorted (κ : Type) : KeyOrder κ := ⟨fun keys => keys, fun _ => .rfl⟩

/-- What the coordinator asks of the grammars and of the built-in descriptors. -/
structure LanguageEnv where
  /-- `GrammarRegistry::detect` without an override. -/
  detect : PathBuf → String
  /-- The id of `built_in_descriptors().for_language`. -/
  builtIn : String → Option String

/-- `chars().take(n)`. -/
def takeChars (n : Nat) (s : String) : String := String.ofList (s.toList.take n)

inductive LanguageState where
  | stopped
  | discovering
  | unavailable
  | approvalRequired
  | disabled
  | starting
  | ready
  | failed
  deriving DecidableEq

inductive LanguageEffect where
  | discover (workspaceId languageId : String) (descriptorId : Option String)
      (generation : UInt64)
  | open (languageId : String) (generation : UInt64) (documentId : DocumentId) (path : PathBuf)
      (revision : UInt64) (text : String)
  | change (languageId : String) (generation : UInt64) (documentId : DocumentId) (path : PathBuf)
      (revision : UInt64) (text : String)
  | save (languageId : String) (generation : UInt64) (documentId : DocumentId) (path : PathBuf)
  | close (languageId : String) (generation : UInt64) (documentId : DocumentId) (path : PathBuf)
  deriving DecidableEq

/-! ## What is persisted -/

def validIdentifier (value : String) : Bool :=
  value ≠ "" && value.utf8ByteSize ≤ 128 &&
    value.toList.all fun c => c.isAlphanum || c = '-' || c = '_' || c = '.'

structure LanguageSelectionSnapshot where
  languageId : String
  descriptorId : String
  enabled : Bool
  deriving DecidableEq

/-- `LanguageSelectionSnapshot::new`, without the error. -/
def LanguageSelectionSnapshot.new (languageId descriptorId : String) (enabled : Bool) :
    Option LanguageSelectionSnapshot :=
  if validIdentifier languageId ∧ validIdentifier descriptorId then
    some ⟨languageId, descriptorId, enabled⟩
  else none

structure ApprovalSnapshot where
  languageId : String
  commandFingerprint : BitVec 256
  deriving DecidableEq

/-- `ApprovalSnapshot::new`, without the error. -/
def ApprovalSnapshot.new (languageId : String) (commandFingerprint : BitVec 256) :
    Option ApprovalSnapshot :=
  if validIdentifier languageId then some ⟨languageId, commandFingerprint⟩ else none

structure RestoredLanguageSession where
  selections : List LanguageSelectionSnapshot
  approvals : List ApprovalSnapshot
  problemsVisible : Bool
  deriving DecidableEq

/-- A server that a discovery found, with the fingerprint of its command. -/
structure DiscoveredServer where
  source : DescriptorSource
  command : ResolvedCommand
  fingerprint : BitVec 256
  deriving DecidableEq

def DiscoveredServer.new (hash : List UInt8 → BitVec 256) (source : DescriptorSource)
    (command : ResolvedCommand) : DiscoveredServer :=
  ⟨source, command, command.fingerprint hash⟩

/-! ## Documents, servers and diagnostics -/

structure DocumentBinding where
  path : PathBuf
  languageOverride : Option String
  languageId : String
  revision : UInt64
  text : String
  eligible : Bool
  deriving DecidableEq

structure ServerBinding where
  state : LanguageState
  generation : UInt64
  positionEncoding : PositionEncoding
  pendingApproval : Option DiscoveredServer
  lastError : Option String
  shutdownPending : Bool
  deriving DecidableEq

/-- `ServerBinding::default`. -/
def ServerBinding.new : ServerBinding := ⟨.stopped, 0, .utf16, none, none, false⟩

inductive DiagnosticSeverity where
  | error
  | warning
  | information
  | hint
  deriving DecidableEq

structure PublishedDiagnostic where
  line : UInt32
  character : UInt32
  severity : DiagnosticSeverity
  message : String
  source : Option String
  deriving DecidableEq

structure Problem where
  documentId : DocumentId
  path : PathBuf
  line : UInt32
  character : UInt32
  severity : DiagnosticSeverity
  message : String
  source : Option String
  deriving DecidableEq

structure DiagnosticSet where
  languageId : String
  generation : UInt64
  problems : List Problem
  deriving DecidableEq

inductive ProblemFilter where
  | all
  | errors
  | warnings
  deriving DecidableEq

/-! ## Features under way -/

structure FeatureGuard where
  documentId : DocumentId
  revision : UInt64
  generation : UInt64
  kind : FeatureRequestKind
  position : LspPosition
  deriving DecidableEq

structure CompletionCandidate where
  label : String
  insertion : String
  range : Option (LspPosition × LspPosition)
  deriving DecidableEq

structure DefinitionLocation where
  path : Option PathBuf
  line : UInt32
  character : UInt32
  external : Bool
  uri : String
  deriving DecidableEq

/-- What the parsers read off the result of a feature request. -/
structure FeatureResult where
  completionItems : List CompletionCandidate
  hover : Option String
  definitions : List DefinitionLocation
  deriving DecidableEq

/-- The requests under way and the answers on show. -/
structure TransientFeatures where
  guards : SortedMap RequestId FeatureGuard
  completionDocument : Option (DocumentId × UInt64)
  completionItems : List CompletionCandidate
  hoverText : Option String
  definitionDocument : Option DocumentId
  definitionLocations : List DefinitionLocation
  deriving DecidableEq

namespace TransientFeatures

def new : TransientFeatures := ⟨.empty, none, [], none, none, []⟩

/-- The entries that satisfy `p`. -/
def retainGuards (f : TransientFeatures) (p : FeatureGuard → Bool) : TransientFeatures :=
  { f with guards := ⟨f.guards.entries.filter fun e => p e.2, f.guards.sorted.filter _⟩ }

/-- `clear_features_for_document`. -/
def clearFor (f : TransientFeatures) (id : DocumentId) : TransientFeatures :=
  let f := f.retainGuards fun guard => guard.documentId ≠ id
  let completion := f.completionDocument.any (·.1 = id)
  let definition := f.definitionDocument = some id
  { f with
    completionDocument := if completion then none else f.completionDocument
    completionItems := if completion then [] else f.completionItems
    definitionDocument := if definition then none else f.definitionDocument
    definitionLocations := if definition then [] else f.definitionLocations
    hoverText := none }

end TransientFeatures

/-! ## The coordinator -/

structure LanguageCoordinator where
  workspaceId : String
  selections : SortedMap String LanguageSelectionSnapshot
  approvals : List ApprovalSnapshot
  problemsVisible : Bool
  documents : SortedMap DocumentId DocumentBinding
  servers : SortedMap String ServerBinding
  diagnostics : SortedMap DocumentId DiagnosticSet
  problemFilter : ProblemFilter
  features : TransientFeatures
  persistenceDirty : Bool
  deriving DecidableEq

namespace LanguageCoordinator

def restore (workspaceId : String) (restored : RestoredLanguageSession) : LanguageCoordinator where
  workspaceId := workspaceId
  selections := .ofList (restored.selections.map fun s => (s.languageId, s))
  approvals := restored.approvals
  problemsVisible := restored.problemsVisible
  documents := .empty
  servers := .empty
  diagnostics := .empty
  problemFilter := .all
  features := .new
  persistenceDirty := false

def setServer (c : LanguageCoordinator) (languageId : String) (server : ServerBinding) :
    LanguageCoordinator :=
  { c with servers := c.servers.insert languageId server }

/-- The server's entry, or the default one. -/
def serverOrNew (c : LanguageCoordinator) (languageId : String) : ServerBinding :=
  (c.servers.get? languageId).getD .new

def selectionEnabled (c : LanguageCoordinator) (languageId : String) : Bool :=
  (c.selections.get? languageId).all (·.enabled)

/-- An eligible document of the language is open. -/
def hasDocument (c : LanguageCoordinator) (languageId : String) : Bool :=
  c.documents.values.any fun document =>
    document.eligible && document.languageId = languageId

/-- The diagnostics that satisfy `p`. -/
def retainDiagnostics (c : LanguageCoordinator) (p : DiagnosticSet → Bool) :
    SortedMap DocumentId DiagnosticSet :=
  ⟨c.diagnostics.entries.filter fun e => p e.2, c.diagnostics.sorted.filter _⟩

def clearFeaturesFor (c : LanguageCoordinator) (id : DocumentId) : LanguageCoordinator :=
  { c with features := c.features.clearFor id }

def clearTransientFeatures (c : LanguageCoordinator) : LanguageCoordinator :=
  { c with features := .new }

/-- The next generation of the server is discovered. -/
def discover (c : LanguageCoordinator) (languageId : String) (server : ServerBinding) :
    LanguageCoordinator × List LanguageEffect :=
  let server := { server with generation := server.generation + 1, state := .discovering }
  (c.setServer languageId server,
    [.discover c.workspaceId languageId ((c.selections.get? languageId).map (·.descriptorId))
      server.generation])

def canStart : LanguageState → Bool
  | .stopped | .unavailable | .failed => true
  | _ => false

def ensureLanguageStarted (c : LanguageCoordinator) (languageId : String) :
    LanguageCoordinator × List LanguageEffect :=
  let server := c.serverOrNew languageId
  if canStart server.state then c.discover languageId server else (c, [])

/-! ### Documents -/

def detectLanguage (env : LanguageEnv) (path : PathBuf) (languageOverride : Option String) :
    String :=
  languageOverride.getD (env.detect path)

/-- The binding that `open_document` stores. -/
def binding (env : LanguageEnv) (path : PathBuf) (languageOverride : Option String)
    (revision : UInt64) (text : Option String) : DocumentBinding where
  path := path
  languageOverride := languageOverride
  languageId := detectLanguage env path languageOverride
  revision := revision
  text := text.getD ""
  eligible := text.isSome && detectLanguage env path languageOverride ≠ "plain-text"

def openBinding (c : LanguageCoordinator) (id : DocumentId) (document : DocumentBinding) :
    LanguageCoordinator × List LanguageEffect :=
  let c := { c with documents := c.documents.insert id document }
  if document.eligible = false ∨ c.selectionEnabled document.languageId = false then (c, [])
  else
    match (c.servers.get? document.languageId).filter (·.state = .ready) with
    | some server =>
      (c,
        [.open document.languageId server.generation id document.path document.revision
          document.text])
    | none => c.ensureLanguageStarted document.languageId

def openDocument (env : LanguageEnv) (c : LanguageCoordinator) (id : DocumentId) (path : PathBuf)
    (languageOverride : Option String) (revision : UInt64) (text : Option String) :
    LanguageCoordinator × List LanguageEffect :=
  c.openBinding id (binding env path languageOverride revision text)

/-- The server of a document's language, if the document is eligible and the server's state is
among those that `p` accepts. -/
def serverFor (c : LanguageCoordinator) (document : DocumentBinding) (p : LanguageState → Bool) :
    Option ServerBinding :=
  (c.servers.get? document.languageId).filter fun server => document.eligible && p server.state

def editDocument (c : LanguageCoordinator) (id : DocumentId) (revision : UInt64) (text : String) :
    LanguageCoordinator × List LanguageEffect :=
  let c := c.clearFeaturesFor id
  match c.documents.get? id with
  | none => (c, [])
  | some document =>
    let document := { document with revision, text }
    ({ c with documents := c.documents.insert id document },
      (c.serverFor document (· = .ready)).toList.map fun server =>
        .change document.languageId server.generation id document.path revision text)

def saveDocument (c : LanguageCoordinator) (id : DocumentId) : List LanguageEffect :=
  match c.documents.get? id with
  | none => []
  | some document =>
    (c.serverFor document (· = .ready)).toList.map fun server =>
      .save document.languageId server.generation id document.path

def hasServer : LanguageState → Bool
  | .discovering | .starting | .ready => true
  | _ => false

def closeDocument (c : LanguageCoordinator) (id : DocumentId) :
    LanguageCoordinator × List LanguageEffect :=
  let c := { c.clearFeaturesFor id with diagnostics := c.diagnostics.remove id }
  match c.documents.get? id with
  | none => (c, [])
  | some document =>
    ({ c with documents := c.documents.remove id },
      (c.serverFor document hasServer).toList.map fun server =>
        .close document.languageId server.generation id document.path)

def setOverride (env : LanguageEnv) (c : LanguageCoordinator) (id : DocumentId)
    (languageOverride : Option String) : LanguageCoordinator × List LanguageEffect :=
  match c.documents.get? id with
  | none => (c, [])
  | some previous =>
    let (c, closed) := c.closeDocument id
    let (c, opened) := c.openDocument env id previous.path languageOverride previous.revision
      (if previous.eligible then some previous.text else none)
    (c, closed ++ opened)

/-! ### Discovery and approval -/

/-- The server of a discovery result, if the result is for its present discovery. -/
def discovering (c : LanguageCoordinator) (workspaceId languageId : String) (generation : UInt64) :
    Option ServerBinding :=
  (c.servers.get? languageId).filter fun server =>
    c.workspaceId = workspaceId && server.generation = generation && server.state = .discovering

def discoveryAvailable (c : LanguageCoordinator) (workspaceId languageId : String)
    (generation : UInt64) : LanguageCoordinator :=
  match c.discovering workspaceId languageId generation with
  | none => c
  | some server => c.setServer languageId { server with state := .starting }

def discoveryFinished (c : LanguageCoordinator) (workspaceId languageId : String)
    (generation : UInt64) (state : LanguageState) : LanguageCoordinator :=
  match c.discovering workspaceId languageId generation with
  | none => c
  | some server => c.setServer languageId { server with state, pendingApproval := none }

def discoveryRequiresApproval (c : LanguageCoordinator) (workspaceId languageId : String)
    (generation : UInt64) (discovered : DiscoveredServer) : LanguageCoordinator :=
  match c.discovering workspaceId languageId generation with
  | none => c
  | some server =>
    c.setServer languageId
      { server with state := .approvalRequired, pendingApproval := some discovered }

/-- `approve`: the pending server is taken even where its approval is refused. -/
def approve (c : LanguageCoordinator) (languageId : String) :
    LanguageCoordinator × Option (UInt64 × DiscoveredServer) :=
  match (c.servers.get? languageId).filter (·.state = .approvalRequired) with
  | none => (c, none)
  | some server =>
    match server.pendingApproval with
    | none => (c, none)
    | some discovered =>
      let taken := { server with pendingApproval := none }
      match ApprovalSnapshot.new languageId discovered.fingerprint with
      | none => (c.setServer languageId taken, none)
      | some approval =>
        ({ c.setServer languageId { taken with state := .starting } with
            approvals := c.approvals.filter (·.languageId ≠ languageId) ++ [approval]
            persistenceDirty := true },
          some (server.generation, discovered))

def deny (c : LanguageCoordinator) (languageId : String) : LanguageCoordinator :=
  match (c.servers.get? languageId).filter (·.state = .approvalRequired) with
  | none => c
  | some server =>
    { c.setServer languageId { server with pendingApproval := none, state := .disabled } with
      approvals := c.approvals.filter (·.languageId ≠ languageId)
      persistenceDirty := true }

def canRetry : LanguageState → Bool
  | .unavailable | .disabled | .failed => true
  | _ => false

def retry (c : LanguageCoordinator) (languageId : String) :
    LanguageCoordinator × List LanguageEffect :=
  match (c.servers.get? languageId).filter (canRetry ·.state) with
  | none => (c, [])
  | some server => c.discover languageId { server with pendingApproval := none }

/-! ### Events of the server -/

def markReady (c : LanguageCoordinator) (order : KeyOrder DocumentId) (languageId : String)
    (generation : UInt64) (positionEncoding : PositionEncoding) :
    LanguageCoordinator × List LanguageEffect :=
  match (c.servers.get? languageId).filter fun server =>
    server.generation = generation && server.state = .starting with
  | none => (c, [])
  | some server =>
    (c.setServer languageId { server with state := .ready, positionEncoding },
      (order.order c.documents.keys).filterMap fun id =>
        ((c.documents.get? id).filter fun document =>
          document.eligible && document.languageId = languageId).map fun document =>
            .open languageId generation id document.path document.revision document.text)

def failWithMessage (c : LanguageCoordinator) (languageId : String) (generation : UInt64)
    (message : String) : LanguageCoordinator :=
  match (c.servers.get? languageId).filter (·.generation = generation) with
  | none => c
  | some server =>
    { (c.setServer languageId
        { server with state := .failed, lastError := some (takeChars 2048 message) }) with
      diagnostics := c.retainDiagnostics fun set =>
        set.languageId ≠ languageId || set.generation ≠ generation
      features := .new }

def fail (c : LanguageCoordinator) (languageId : String) (generation : UInt64) :
    LanguageCoordinator :=
  c.failWithMessage languageId generation "language server failed"

def markStopped (c : LanguageCoordinator) (languageId : String) (generation : UInt64) :
    LanguageCoordinator × List LanguageEffect :=
  match (c.servers.get? languageId).filter (·.generation = generation) with
  | none => (c, [])
  | some server =>
    let enabled := c.selectionEnabled languageId
    let c :=
      { (c.setServer languageId
          { server with
            shutdownPending := false
            state := if enabled then .stopped else .disabled
            lastError := none }) with
        diagnostics := c.retainDiagnostics fun set =>
          set.languageId ≠ languageId || set.generation ≠ generation
        features := .new }
    if enabled && c.hasDocument languageId then c.ensureLanguageStarted languageId else (c, [])

/-! ### Selections -/

def descriptorIdForLanguage (env : LanguageEnv) (c : LanguageCoordinator) (languageId : String) :
    Option String :=
  ((c.selections.get? languageId).map (·.descriptorId)).or (env.builtIn languageId)

/-- The selection that disabling or enabling stores. -/
def selectionOf (env : LanguageEnv) (c : LanguageCoordinator) (languageId : String)
    (enabled : Bool) : Option LanguageSelectionSnapshot :=
  (c.descriptorIdForLanguage env languageId).bind fun descriptorId =>
    LanguageSelectionSnapshot.new languageId descriptorId enabled

def select (c : LanguageCoordinator) (languageId : String) (selection : LanguageSelectionSnapshot) :
    LanguageCoordinator :=
  { c with selections := c.selections.insert languageId selection, persistenceDirty := true }

/-- `disable_language`, with the generation to shut down. -/
def disableLanguage (env : LanguageEnv) (c : LanguageCoordinator) (languageId : String) :
    LanguageCoordinator × Option UInt64 :=
  match c.selectionOf env languageId false with
  | none => (c, none)
  | some selection =>
    let server := c.serverOrNew languageId
    let generation := if server.state = .ready then some server.generation else none
    ({ ((c.select languageId selection).setServer languageId
          { server with shutdownPending := generation.isSome, state := .disabled }) with
        diagnostics := c.retainDiagnostics (·.languageId ≠ languageId)
        features := .new },
      generation)

def enableLanguage (env : LanguageEnv) (c : LanguageCoordinator) (languageId : String) :
    LanguageCoordinator × List LanguageEffect :=
  match c.selectionOf env languageId true with
  | none => (c, [])
  | some selection =>
    let c := c.select languageId selection
    let server := c.serverOrNew languageId
    if server.shutdownPending then (c, [])
    else
      let c := c.setServer languageId { server with state := .stopped }
      if c.hasDocument languageId then c.ensureLanguageStarted languageId else (c, [])

/-- `restart_language`, with the generation to shut down. -/
def restartLanguage (c : LanguageCoordinator) (languageId : String) :
    LanguageCoordinator × Option UInt64 :=
  match (c.servers.get? languageId).filter fun server =>
    server.state = .ready && !server.shutdownPending with
  | none => (c, none)
  | some server =>
    (c.setServer languageId { server with shutdownPending := true }, some server.generation)

/-! ### Features and diagnostics -/

def beginFeature (c : LanguageCoordinator) (documentId : DocumentId) (serverGeneration : UInt64)
    (request : FeatureRequest) : LanguageCoordinator :=
  let features := c.features.retainGuards fun guard =>
    guard.documentId ≠ documentId || guard.kind ≠ request.kind
  { c with
    features :=
      { features with
        guards := features.guards.insert request.id
          ⟨documentId, request.revision, serverGeneration, request.kind, request.position⟩ } }

def acceptFeatureResponse (c : LanguageCoordinator) (generation : UInt64) (request : FeatureRequest)
    (result : FeatureResult) : LanguageCoordinator :=
  match c.features.guards.get? request.id with
  | none => c
  | some guard =>
    let features := { c.features with guards := c.features.guards.remove request.id }
    let c := { c with features }
    match c.documents.get? guard.documentId with
    | none => c
    | some document =>
      if guard.generation ≠ generation ∨ guard.revision ≠ document.revision ∨
          guard.kind ≠ request.kind ∨ guard.position ≠ request.position then c
      else
        match guard.kind with
        | .completion =>
          { c with
            features :=
              { features with
                completionDocument := some (guard.documentId, guard.revision)
                completionItems := result.completionItems } }
        | .hover => { c with features := { features with hoverText := result.hover } }
        | .definition =>
          { c with
            features :=
              { features with
                definitionDocument := some guard.documentId
                definitionLocations := result.definitions } }

def expireFeature (c : LanguageCoordinator) (request : FeatureRequest) : LanguageCoordinator :=
  { c with features := { c.features with guards := c.features.guards.remove request.id } }

/-- The first document, as the hash map gives them, that a server's diagnostics for a path are
about. -/
def documentAt (c : LanguageCoordinator) (order : KeyOrder DocumentId) (languageId : String)
    (path : PathBuf) : Option DocumentId :=
  (order.order c.documents.keys).find? fun id =>
    (c.documents.get? id).any fun document =>
      document.eligible && document.languageId = languageId &&
        document.path.components = path.components

def problem (documentId : DocumentId) (path : PathBuf) (diagnostic : PublishedDiagnostic) :
    Problem where
  documentId := documentId
  path := path
  line := diagnostic.line
  character := diagnostic.character
  severity := diagnostic.severity
  message := takeChars 4096 diagnostic.message
  source := diagnostic.source.map (takeChars 128)

def publishDiagnostics (c : LanguageCoordinator) (order : KeyOrder DocumentId) (languageId : String)
    (generation : UInt64) (path : PathBuf) (version : Option UInt64)
    (diagnostics : List PublishedDiagnostic) : LanguageCoordinator :=
  match (c.servers.get? languageId).filter fun server =>
    server.generation = generation && server.state = .ready with
  | none => c
  | some _ =>
    match c.documentAt order languageId path with
    | none => c
    | some documentId =>
      if version.any fun version =>
          (c.documents.get? documentId).any fun document => version ≠ document.revision then c
      else
        let problems := (diagnostics.take 2000).map (problem documentId path)
        if problems = [] then { c with diagnostics := c.diagnostics.remove documentId }
        else
          { c with
            diagnostics := c.diagnostics.insert documentId ⟨languageId, generation, problems⟩ }

def toggleProblems (c : LanguageCoordinator) : LanguageCoordinator :=
  { c with problemsVisible := !c.problemsVisible, persistenceDirty := true }

end LanguageCoordinator

/-! ## The operations as one type -/

/-- The result of a discovery, as `Message::LanguageDiscovered` brings it. -/
inductive DiscoveryResult where
  | available
  | approvalRequired (server : DiscoveredServer)
  | unavailable
  | disabled
  | error
  deriving DecidableEq

def LanguageCoordinator.discovered (c : LanguageCoordinator) (workspaceId languageId : String)
    (generation : UInt64) : DiscoveryResult → LanguageCoordinator
  | .available => c.discoveryAvailable workspaceId languageId generation
  | .approvalRequired server =>
    c.discoveryRequiresApproval workspaceId languageId generation server
  | .unavailable => c.discoveryFinished workspaceId languageId generation .unavailable
  | .disabled => c.discoveryFinished workspaceId languageId generation .disabled
  | .error => c.discoveryFinished workspaceId languageId generation .failed

inductive CoordinatorOp where
  | openDocument (id : DocumentId) (path : PathBuf) (languageOverride : Option String)
      (revision : UInt64) (text : Option String)
  | editDocument (id : DocumentId) (revision : UInt64) (text : String)
  | saveDocument (id : DocumentId)
  | closeDocument (id : DocumentId)
  | setOverride (id : DocumentId) (languageOverride : Option String)
  | discovered (workspaceId languageId : String) (generation : UInt64) (result : DiscoveryResult)
  | approve (languageId : String)
  | deny (languageId : String)
  | retry (languageId : String)
  | disableLanguage (languageId : String)
  | enableLanguage (languageId : String)
  | restartLanguage (languageId : String)
  | markReady (order : KeyOrder DocumentId) (languageId : String) (generation : UInt64)
      (positionEncoding : PositionEncoding)
  | markStopped (languageId : String) (generation : UInt64)
  | failWithMessage (languageId : String) (generation : UInt64) (message : String)
  | publishDiagnostics (order : KeyOrder DocumentId) (languageId : String) (generation : UInt64)
      (path : PathBuf) (version : Option UInt64) (diagnostics : List PublishedDiagnostic)
  | beginFeature (documentId : DocumentId) (serverGeneration : UInt64) (request : FeatureRequest)
  | acceptFeatureResponse (generation : UInt64) (request : FeatureRequest) (result : FeatureResult)
  | expireFeature (request : FeatureRequest)
  | dismissFeatures
  | setProblemFilter (filter : ProblemFilter)
  | toggleProblems

namespace CoordinatorOp

open LanguageCoordinator

def run (env : LanguageEnv) (c : LanguageCoordinator) :
    CoordinatorOp → LanguageCoordinator × List LanguageEffect
  | .openDocument id path languageOverride revision text =>
    c.openDocument env id path languageOverride revision text
  | .editDocument id revision text => c.editDocument id revision text
  | .saveDocument id => (c, c.saveDocument id)
  | .closeDocument id => c.closeDocument id
  | .setOverride id languageOverride => c.setOverride env id languageOverride
  | .discovered workspaceId languageId generation result =>
    (c.discovered workspaceId languageId generation result, [])
  | .approve languageId => ((c.approve languageId).1, [])
  | .deny languageId => (c.deny languageId, [])
  | .retry languageId => c.retry languageId
  | .disableLanguage languageId => ((c.disableLanguage env languageId).1, [])
  | .enableLanguage languageId => c.enableLanguage env languageId
  | .restartLanguage languageId => ((c.restartLanguage languageId).1, [])
  | .markReady order languageId generation positionEncoding =>
    c.markReady order languageId generation positionEncoding
  | .markStopped languageId generation => c.markStopped languageId generation
  | .failWithMessage languageId generation message =>
    (c.failWithMessage languageId generation message, [])
  | .publishDiagnostics order languageId generation path version diagnostics =>
    (c.publishDiagnostics order languageId generation path version diagnostics, [])
  | .beginFeature documentId serverGeneration request =>
    (c.beginFeature documentId serverGeneration request, [])
  | .acceptFeatureResponse generation request result =>
    (c.acceptFeatureResponse generation request result, [])
  | .expireFeature request => (c.expireFeature request, [])
  | .dismissFeatures => (c.clearTransientFeatures, [])
  | .setProblemFilter problemFilter => ({ c with problemFilter }, [])
  | .toggleProblems => (c.toggleProblems, [])

/-- The shutdown that the operation requests. -/
def shutdown (env : LanguageEnv) (c : LanguageCoordinator) :
    CoordinatorOp → Option (String × UInt64)
  | .disableLanguage languageId => (c.disableLanguage env languageId).2.map (languageId, ·)
  | .restartLanguage languageId => (c.restartLanguage languageId).2.map (languageId, ·)
  | _ => none

/-- The server whose end the event reports. -/
def ended : CoordinatorOp → Option (String × UInt64)
  | .markStopped languageId generation | .failWithMessage languageId generation _ =>
    some (languageId, generation)
  | _ => none

/-- The language whose server and selection the operation may change. -/
def language (env : LanguageEnv) (c : LanguageCoordinator) : CoordinatorOp → Option String
  | .openDocument _ path languageOverride _ _ => some (detectLanguage env path languageOverride)
  | .setOverride id languageOverride =>
    (c.documents.get? id).map fun document => detectLanguage env document.path languageOverride
  | .discovered _ languageId _ _ | .approve languageId | .deny languageId | .retry languageId
  | .disableLanguage languageId | .enableLanguage languageId | .restartLanguage languageId
  | .markReady _ languageId _ _ | .markStopped languageId _ | .failWithMessage languageId _ _ =>
    some languageId
  | _ => none

end CoordinatorOp

end Strukt.App
