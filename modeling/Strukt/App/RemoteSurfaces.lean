import Strukt.Lib.Runs
import Strukt.Prim

/-!
# The remote document

`RemoteSurfaces` is what the app shows of a remote host: the connection, the file list and one
document. Reads and saves run in the background and complete later, with the generation of the
connection they were issued for; a completion of another generation is ignored.

* **The dirty flag**: an edit sets it, a completed read or save clears it, whatever was edited in
  the meantime (`edited_save`).
* **Runs** (`dirty_law`): a clean document is the text last read or saved at its revision, and no
  completion replaces edits, exactly as long as each read and save that succeeds meets the
  document as it was when it began (`Undisturbed`).
-/

namespace Strukt.App

inductive RemoteStatus where
  | disconnected
  | connecting
  | ready
  | terminalOnly
  | stale
  deriving DecidableEq

inductive RemoteCapability where
  | files
  | search
  | git
  | processes
  | language
  | watches
  | sessions
  | tmux
  deriving DecidableEq

structure RemoteDocument where
  path : String
  text : String
  revision : String
  deriving DecidableEq

/-- What `finish_connect` reads of a `RemoteRuntime`. -/
structure RemoteRuntime where
  aliasLabel : String
  root : String
  capabilities : List RemoteCapability
  deriving DecidableEq

structure RemoteSurfaces where
  aliasInput : String
  rootInput : String
  status : RemoteStatus
  hostLabel : Option String
  rootLabel : Option String
  files : List String
  selectedPath : Option String
  /-- The text of the editor content. -/
  documentContent : String
  documentRevision : Option String
  documentDirty : Bool
  capabilities : List RemoteCapability
  searchResults : List String
  gitSummary : Option String
  taskConsent : Option String
  taskOutput : String
  languageStatus : Option String
  error : Option String
  generation : UInt64
  operationInFlight : Bool
  deriving DecidableEq

namespace RemoteSurfaces

/-- `RemoteSurfaces::default`. -/
def new : RemoteSurfaces where
  aliasInput := ""
  rootInput := "~/"
  status := .disconnected
  hostLabel := none
  rootLabel := none
  files := []
  selectedPath := none
  documentContent := ""
  documentRevision := none
  documentDirty := false
  capabilities := []
  searchResults := []
  gitSummary := none
  taskConsent := none
  taskOutput := ""
  languageStatus := none
  error := none
  generation := 0
  operationInFlight := false

def nextGeneration (s : RemoteSurfaces) : UInt64 := max s.generation.satSucc 1

/-- `begin_connect`, given what the checks of its input and the search for `ssh` say. -/
def beginConnect (s : RemoteSurfaces) : Except String Unit → RemoteSurfaces
  | .error error => { s with error := some error }
  | .ok _ =>
    { s with
      generation := s.nextGeneration
      status := .connecting
      error := none
      files := []
      selectedPath := none
      documentContent := ""
      documentRevision := none
      documentDirty := false }

def finishConnect (s : RemoteSurfaces) (generation : UInt64)
    (result : Except String RemoteRuntime) : RemoteSurfaces :=
  if generation ≠ s.generation then s
  else
    match result with
    | .ok runtime =>
      { s with
        status := .ready
        capabilities := runtime.capabilities
        hostLabel := some runtime.aliasLabel
        rootLabel := some runtime.root
        error := none }
    | .error error =>
      { s with
        status := .terminalOnly
        hostLabel := some s.aliasInput
        rootLabel := some s.rootInput
        error := some (String.append
          "The SSH host is available, but the strukt helper is unavailable: " error) }

/-- The state after `begin_operation`, if it is accepted. -/
def beginOperation (s : RemoteSurfaces) : Option RemoteSurfaces :=
  if s.status ≠ .ready ∨ s.operationInFlight then none
  else some { s with operationInFlight := true }

/-- `begin_install`, given what the checks of the artifact, the alias and `ssh` say. -/
def beginInstall (s : RemoteSurfaces) : Except String Unit → RemoteSurfaces
  | .error error => { s with error := some error }
  | .ok _ => { s with operationInFlight := true }

def finishInstall (s : RemoteSurfaces) (result : Except String Unit) : RemoteSurfaces :=
  match result with
  | .ok _ => { s with operationInFlight := false, status := .disconnected, error := none }
  | .error error => { s with operationInFlight := false, error := some error }

/-- The completions of operations: one of another generation is ignored. -/
def finish {α : Type} (s : RemoteSurfaces) (generation : UInt64) (result : Except String α)
    (ok : RemoteSurfaces → α → RemoteSurfaces) (fail : RemoteSurfaces → RemoteSurfaces) :
    RemoteSurfaces :=
  if generation ≠ s.generation then s
  else
    match result with
    | .ok a => { ok { s with operationInFlight := false } a with error := none }
    | .error error => { fail { s with operationInFlight := false } with error := some error }

def finishFiles (s : RemoteSurfaces) (generation : UInt64)
    (result : Except String (List String)) : RemoteSurfaces :=
  s.finish generation result (fun s files => { s with files }) fun s => { s with status := .stale }

def finishDocument (s : RemoteSurfaces) (generation : UInt64)
    (result : Except String RemoteDocument) : RemoteSurfaces :=
  s.finish generation result
    (fun s document =>
      { s with
        selectedPath := some document.path
        documentContent := document.text
        documentRevision := some document.revision
        documentDirty := false })
    fun s => s

def editDocument (s : RemoteSurfaces) (action : String → String) : RemoteSurfaces :=
  if s.selectedPath.isSome then
    { s with documentContent := action s.documentContent, documentDirty := true }
  else s

def finishSave (s : RemoteSurfaces) (generation : UInt64) (result : Except String String) :
    RemoteSurfaces :=
  s.finish generation result
    (fun s revision => { s with documentRevision := some revision, documentDirty := false })
    fun s => s

def finishSearch (s : RemoteSurfaces) (generation : UInt64)
    (result : Except String (List String)) : RemoteSurfaces :=
  s.finish generation result (fun s searchResults => { s with searchResults }) fun s => s

def finishGit (s : RemoteSurfaces) (generation : UInt64) (result : Except String (List String)) :
    RemoteSurfaces :=
  s.finish generation result (fun s lines => { s with gitSummary := lines.head? }) fun s => s

def finishTask (s : RemoteSurfaces) (generation : UInt64) (result : Except String String) :
    RemoteSurfaces :=
  s.finish generation result
    (fun s taskOutput => { s with taskConsent := none, taskOutput })
    fun s => { s with taskConsent := none }

def finishLanguage (s : RemoteSurfaces) (generation : UInt64) (result : Except String String) :
    RemoteSurfaces :=
  s.finish generation result (fun s status => { s with languageStatus := some status }) fun s => s

def disconnected (s : RemoteSurfaces) : RemoteSurfaces :=
  { s with
    generation := s.nextGeneration
    status := .disconnected
    hostLabel := none
    rootLabel := none
    files := []
    selectedPath := none
    documentContent := ""
    documentRevision := none
    documentDirty := false
    capabilities := []
    searchResults := []
    gitSummary := none
    taskConsent := none
    taskOutput := ""
    languageStatus := none
    operationInFlight := false
    error := none }

end RemoteSurfaces

/-! ## The app's messages -/

/-- A read or a save under way. -/
inductive DocumentJob where
  | read (generation : UInt64) (path : String)
  | save (generation : UInt64) (path revision text : String)
  deriving DecidableEq

def DocumentJob.generation : DocumentJob → UInt64
  | .read generation _ | .save generation .. => generation

/-- The app's remote part, with the reads and saves under way, and the revision and text that the
host last gave or took at the present document. -/
structure RemoteApp where
  surfaces : RemoteSurfaces
  /-- `remote_runtime` is set. -/
  runtime : Bool
  jobs : List DocumentJob
  synced : Option (String × String)
  deriving DecidableEq

inductive RemoteMessage where
  | connectRemote (checked : Except String Unit)
  | connected (generation : UInt64) (result : Except String RemoteRuntime)
  | refreshFiles
  | filesFinished (generation : UInt64) (result : Except String (List String))
  | openDocument (path : String)
  /-- The read job at the index completes. -/
  | documentFinished (index : Nat) (result : Except String RemoteDocument)
  | documentAction (action : String → String)
  | saveDocument
  /-- The save job at the index completes. -/
  | saveFinished (index : Nat) (result : Except String String)
  | disconnectRemote
  | installHelper (checked : Except String Unit)
  | helperInstalled (result : Except String Unit)
  /-- A search, a Git summary, a task or a language check begins. -/
  | beginOther
  | searchFinished (generation : UInt64) (result : Except String (List String))
  | gitFinished (generation : UInt64) (result : Except String (List String))
  | taskFinished (generation : UInt64) (result : Except String String)
  | languageFinished (generation : UInt64) (result : Except String String)

namespace RemoteApp

def start : RemoteApp := ⟨.new, false, [], none⟩

/-- A begun operation: its job where the app has what the job needs. -/
def begins (app : RemoteApp) (job : Option DocumentJob) : RemoteApp :=
  match app.surfaces.beginOperation with
  | some surfaces => { app with surfaces, jobs := app.jobs ++ job.toList }
  | none => app

def refreshFiles (app : RemoteApp) : RemoteApp :=
  match app.surfaces.beginOperation with
  | some surfaces =>
    if app.runtime then { app with surfaces }
    else { app with surfaces := { surfaces with error := some "remote helper is not connected" } }
  | none => app

/-- The job of `OpenRemoteDocument`. -/
def readJob (app : RemoteApp) (path : String) : Option DocumentJob :=
  if app.runtime then some (.read app.surfaces.generation path) else none

/-- The job of `SaveRemoteDocument`. -/
def saveJob (app : RemoteApp) : Option DocumentJob :=
  if app.runtime then do
    let path ← app.surfaces.selectedPath
    let revision ← app.surfaces.documentRevision
    some (.save app.surfaces.generation path revision app.surfaces.documentContent)
  else none

/-- The record of the host's side: a completion that the app accepts moves it. -/
def syncedBy (app : RemoteApp) (generation : UInt64) (result : Except String (String × String)) :
    Option (String × String) :=
  match result with
  | .ok synced => if generation = app.surfaces.generation then some synced else app.synced
  | .error _ => app.synced

def finishRead (app : RemoteApp) (index : Nat) (generation : UInt64)
    (result : Except String RemoteDocument) : RemoteApp :=
  { app with
    surfaces := app.surfaces.finishDocument generation result
    jobs := app.jobs.eraseIdx index
    synced :=
      app.syncedBy generation (result.map fun document => (document.revision, document.text)) }

def finishSaved (app : RemoteApp) (index : Nat) (generation : UInt64) (text : String)
    (result : Except String String) : RemoteApp :=
  { app with
    surfaces := app.surfaces.finishSave generation result
    jobs := app.jobs.eraseIdx index
    synced := app.syncedBy generation (result.map fun revision => (revision, text)) }

def step (app : RemoteApp) : RemoteMessage → Option RemoteApp
  | .connectRemote checked =>
    some
      { app with
        surfaces := app.surfaces.beginConnect checked
        synced := if checked.isOk then none else app.synced }
  | .connected generation result =>
    some
      { app with
        surfaces := app.surfaces.finishConnect generation result
        runtime := if generation ≠ app.surfaces.generation then app.runtime else result.isOk }
  | .refreshFiles => some app.refreshFiles
  | .filesFinished generation result =>
    some { app with surfaces := app.surfaces.finishFiles generation result }
  | .openDocument path => some (app.begins (app.readJob path))
  | .documentFinished index result =>
    match app.jobs[index]? with
    | some (.read generation _) => some (app.finishRead index generation result)
    | _ => none
  | .documentAction action =>
    some { app with surfaces := app.surfaces.editDocument action }
  | .saveDocument => some (app.begins app.saveJob)
  | .saveFinished index result =>
    match app.jobs[index]? with
    | some (.save generation _ _ text) => some (app.finishSaved index generation text result)
    | _ => none
  | .disconnectRemote =>
    some { app with surfaces := app.surfaces.disconnected, runtime := false, synced := none }
  | .installHelper checked =>
    some { app with surfaces := app.surfaces.beginInstall checked }
  | .helperInstalled result => some { app with surfaces := app.surfaces.finishInstall result }
  | .beginOther => some (app.begins none)
  | .searchFinished generation result =>
    some { app with surfaces := app.surfaces.finishSearch generation result }
  | .gitFinished generation result =>
    some { app with surfaces := app.surfaces.finishGit generation result }
  | .taskFinished generation result =>
    some { app with surfaces := app.surfaces.finishTask generation result }
  | .languageFinished generation result =>
    some { app with surfaces := app.surfaces.finishLanguage generation result }

/-! ## What the dirty flag says -/

/-- A clean document is the text that the host last gave or took, at its revision. -/
def Synced (app : RemoteApp) : Prop :=
  app.surfaces.documentDirty = false →
    match app.synced with
    | some (revision, text) =>
      app.surfaces.documentRevision = some revision ∧ app.surfaces.documentContent = text
    | none => app.surfaces.documentRevision = none ∧ app.surfaces.documentContent = ""

end RemoteApp

def RemoteMessage.completion : RemoteMessage → Bool
  | .connected .. | .filesFinished .. | .documentFinished .. | .saveFinished ..
  | .helperInstalled .. | .searchFinished .. | .gitFinished .. | .taskFinished ..
  | .languageFinished .. => true
  | _ => false

namespace RemoteApp

/-- The message leaves a document that is true to its dirty flag, and completes nothing over
unsaved edits. -/
def DirtySafe (app : RemoteApp) (message : RemoteMessage) : Prop :=
  ∀ app', app.step message = some app' →
    app'.Synced ∧
      (message.completion → app.surfaces.documentDirty →
        app'.surfaces.documentContent = app.surfaces.documentContent)

/-- A read or save of the present connection that succeeds meets the document as it was when the
job began: without unsaved edits, or with the text that was handed to the host. -/
def Undisturbed (app : RemoteApp) : RemoteMessage → Prop
  | .documentFinished index (.ok document) =>
    ∀ path, app.jobs[index]? = some (.read app.surfaces.generation path) →
      app.surfaces.documentDirty → document.text = app.surfaces.documentContent
  | .saveFinished index (.ok _) =>
    ∀ path revision text,
      app.jobs[index]? = some (.save app.surfaces.generation path revision text) →
        app.surfaces.documentContent = text
  | _ => True

/-! ## One message -/

section Message

variable {app app' : RemoteApp} {message : RemoteMessage}

/-- The document, its revision, its flag and the host's side are those of before. -/
structure SameDocument (app app' : RemoteApp) : Prop where
  content : app'.surfaces.documentContent = app.surfaces.documentContent
  revision : app'.surfaces.documentRevision = app.surfaces.documentRevision
  dirty : app'.surfaces.documentDirty = app.surfaces.documentDirty
  synced : app'.synced = app.synced

theorem SameDocument.refl (app : RemoteApp) : SameDocument app app := ⟨rfl, rfl, rfl, rfl⟩

theorem SameDocument.isSynced (h : SameDocument app app') (hs : app.Synced) : app'.Synced := by
  intro hd
  rw [h.synced, h.revision, h.content]
  exact hs (h.dirty ▸ hd)

theorem SameDocument.safe (h : SameDocument app app') (hs : app.Synced)
    (hstep : app.step message = some app') : app.DirtySafe message := by
  intro app'' hstep'
  obtain rfl := Option.some.inj (hstep.symm.trans hstep')
  exact ⟨h.isSynced hs, fun _ _ => h.content⟩

theorem safe_of_none (h : app.step message = none) : app.DirtySafe message := by
  intro app' hstep
  rw [h] at hstep
  cases hstep

theorem synced_of_dirty (h : app.surfaces.documentDirty = true) : app.Synced := by
  intro hd
  rw [h] at hd
  cases hd

theorem begins_same (app : RemoteApp) (job : Option DocumentJob) :
    SameDocument app (app.begins job) := by
  unfold begins RemoteSurfaces.beginOperation
  by_cases h : app.surfaces.status ≠ .ready ∨ app.surfaces.operationInFlight = true
  · rw [if_pos h]
    exact .refl app
  · rw [if_neg h]
    exact ⟨rfl, rfl, rfl, rfl⟩

theorem refreshFiles_same (app : RemoteApp) : SameDocument app app.refreshFiles := by
  unfold refreshFiles RemoteSurfaces.beginOperation
  by_cases h : app.surfaces.status ≠ .ready ∨ app.surfaces.operationInFlight = true
  · rw [if_pos h]
    exact .refl app
  · rw [if_neg h]
    dsimp only
    by_cases hr : app.runtime = true
    · rw [if_pos hr]
      exact ⟨rfl, rfl, rfl, rfl⟩
    · rw [if_neg hr]
      exact ⟨rfl, rfl, rfl, rfl⟩

/-- A completion that touches other fields than the document's keeps the document. -/
theorem finish_same {α : Type} (app : RemoteApp) (generation : UInt64) (result : Except String α)
    {ok : RemoteSurfaces → α → RemoteSurfaces} {fail : RemoteSurfaces → RemoteSurfaces}
    (hok : ∀ s a, (ok s a).documentContent = s.documentContent ∧
      (ok s a).documentRevision = s.documentRevision ∧ (ok s a).documentDirty = s.documentDirty)
    (hfail : ∀ s, (fail s).documentContent = s.documentContent ∧
      (fail s).documentRevision = s.documentRevision ∧ (fail s).documentDirty = s.documentDirty) :
    SameDocument app { app with surfaces := app.surfaces.finish generation result ok fail } := by
  unfold RemoteSurfaces.finish
  by_cases h : generation ≠ app.surfaces.generation
  · rw [if_pos h]
    exact .refl app
  · rw [if_neg h]
    cases result with
    | ok a =>
      obtain ⟨hc, hr, hd⟩ := hok { app.surfaces with operationInFlight := false } a
      exact ⟨hc, hr, hd, rfl⟩
    | error error =>
      obtain ⟨hc, hr, hd⟩ := hfail { app.surfaces with operationInFlight := false }
      exact ⟨hc, hr, hd, rfl⟩

theorem finishConnect_same (app : RemoteApp) (generation : UInt64)
    (result : Except String RemoteRuntime) (runtime : Bool) :
    SameDocument app
      { app with surfaces := app.surfaces.finishConnect generation result, runtime } := by
  unfold RemoteSurfaces.finishConnect
  by_cases h : generation ≠ app.surfaces.generation
  · rw [if_pos h]
    exact ⟨rfl, rfl, rfl, rfl⟩
  · rw [if_neg h]
    cases result with
    | ok runtime => exact ⟨rfl, rfl, rfl, rfl⟩
    | error error => exact ⟨rfl, rfl, rfl, rfl⟩

theorem finishInstall_same (app : RemoteApp) (result : Except String Unit) :
    SameDocument app { app with surfaces := app.surfaces.finishInstall result } := by
  cases result with
  | ok _ => exact ⟨rfl, rfl, rfl, rfl⟩
  | error error => exact ⟨rfl, rfl, rfl, rfl⟩

theorem beginInstall_same (app : RemoteApp) (checked : Except String Unit) :
    SameDocument app { app with surfaces := app.surfaces.beginInstall checked } := by
  cases checked with
  | ok _ => exact ⟨rfl, rfl, rfl, rfl⟩
  | error error => exact ⟨rfl, rfl, rfl, rfl⟩

theorem connect_safe (hs : app.Synced) (checked : Except String Unit) :
    app.DirtySafe (.connectRemote checked) := by
  cases checked with
  | error error =>
    have hsame : SameDocument app
        { app with surfaces := app.surfaces.beginConnect (.error error) } := by
      exact ⟨rfl, rfl, rfl, rfl⟩
    exact hsame.safe hs rfl
  | ok _ =>
    intro app' hstep
    cases hstep
    exact ⟨fun _ => ⟨rfl, rfl⟩, by simp [RemoteMessage.completion]⟩

theorem disconnect_safe : app.DirtySafe .disconnectRemote := by
  intro app' hstep
  cases hstep
  exact ⟨fun _ => ⟨rfl, rfl⟩, by simp [RemoteMessage.completion]⟩

theorem edit_safe (hs : app.Synced) (action : String → String) :
    app.DirtySafe (.documentAction action) := by
  intro app' hstep
  cases hstep
  refine ⟨?_, by simp [RemoteMessage.completion]⟩
  unfold RemoteSurfaces.editDocument
  by_cases h : app.surfaces.selectedPath.isSome = true
  · rw [if_pos h]
    exact synced_of_dirty rfl
  · rw [if_neg h]
    exact hs

theorem finishRead_of_stale {index : Nat} {generation : UInt64}
    (h : generation ≠ app.surfaces.generation) (result : Except String RemoteDocument) :
    SameDocument app (app.finishRead index generation result) := by
  unfold finishRead syncedBy RemoteSurfaces.finishDocument RemoteSurfaces.finish
  rw [if_pos h]
  cases result with
  | error error => exact ⟨rfl, rfl, rfl, rfl⟩
  | ok document => exact ⟨rfl, rfl, rfl, if_neg h⟩

theorem finishSaved_of_stale {index : Nat} {generation : UInt64} {text : String}
    (h : generation ≠ app.surfaces.generation) (result : Except String String) :
    SameDocument app (app.finishSaved index generation text result) := by
  unfold finishSaved syncedBy RemoteSurfaces.finishSave RemoteSurfaces.finish
  rw [if_pos h]
  cases result with
  | error error => exact ⟨rfl, rfl, rfl, rfl⟩
  | ok revision => exact ⟨rfl, rfl, rfl, if_neg h⟩

/-- A read that completes is safe exactly where it is undisturbed. -/
theorem read_safe_iff (hs : app.Synced) (index : Nat) (result : Except String RemoteDocument) :
    app.DirtySafe (.documentFinished index result) ↔
      app.Undisturbed (.documentFinished index result) := by
  cases hj : app.jobs[index]? with
  | none =>
    refine iff_of_true (safe_of_none (by simp only [step, hj])) ?_
    cases result <;> simp [Undisturbed, hj]
  | some job =>
    cases job with
    | save generation path revision text =>
      refine iff_of_true (safe_of_none (by simp only [step, hj])) ?_
      cases result <;> simp [Undisturbed, hj]
    | read generation path =>
      have hstep : app.step (.documentFinished index result) =
          some (app.finishRead index generation result) := by
        simp only [step, hj]
      by_cases hg : generation = app.surfaces.generation
      · subst hg
        cases result with
        | error error =>
          have hsame : SameDocument app
              (app.finishRead index app.surfaces.generation (.error error)) := by
            unfold finishRead RemoteSurfaces.finishDocument RemoteSurfaces.finish
            rw [if_neg fun h => h rfl]
            exact ⟨rfl, rfl, rfl, rfl⟩
          exact iff_of_true (hsame.safe hs hstep) trivial
        | ok document =>
          have hfin : app.finishRead index app.surfaces.generation (.ok document) =
              { app with
                surfaces :=
                  { app.surfaces with
                    operationInFlight := false
                    selectedPath := some document.path
                    documentContent := document.text
                    documentRevision := some document.revision
                    documentDirty := false
                    error := none }
                jobs := app.jobs.eraseIdx index
                synced := some (document.revision, document.text) } := by
            unfold finishRead RemoteSurfaces.finishDocument RemoteSurfaces.finish syncedBy
            rw [if_neg fun h => h rfl]
            simp only [Except.map, if_true]
          rw [hfin] at hstep
          constructor
          · intro h path' _ hd
            exact (h _ hstep).2 rfl hd
          · intro h app' hstep'
            obtain rfl := Option.some.inj (hstep.symm.trans hstep')
            exact ⟨fun _ => ⟨rfl, rfl⟩, fun _ hd => h path hj hd⟩
      · refine iff_of_true ((finishRead_of_stale hg result).safe hs hstep) ?_
        cases result with
        | error error => trivial
        | ok document =>
          intro path' hj'
          rw [hj] at hj'
          cases hj'
          exact absurd rfl hg

/-- A save that completes is safe exactly where it is undisturbed. -/
theorem save_safe_iff (hs : app.Synced) (index : Nat) (result : Except String String) :
    app.DirtySafe (.saveFinished index result) ↔
      app.Undisturbed (.saveFinished index result) := by
  cases hj : app.jobs[index]? with
  | none =>
    refine iff_of_true (safe_of_none (by simp only [step, hj])) ?_
    cases result <;> simp [Undisturbed, hj]
  | some job =>
    cases job with
    | read generation path =>
      refine iff_of_true (safe_of_none (by simp only [step, hj])) ?_
      cases result <;> simp [Undisturbed, hj]
    | save generation path revision text =>
      have hstep : app.step (.saveFinished index result) =
          some (app.finishSaved index generation text result) := by
        simp only [step, hj]
      by_cases hg : generation = app.surfaces.generation
      · subst hg
        cases result with
        | error error =>
          have hsame : SameDocument app
              (app.finishSaved index app.surfaces.generation text (.error error)) := by
            unfold finishSaved RemoteSurfaces.finishSave RemoteSurfaces.finish
            rw [if_neg fun h => h rfl]
            exact ⟨rfl, rfl, rfl, rfl⟩
          exact iff_of_true (hsame.safe hs hstep) trivial
        | ok revision' =>
          have hfin : app.finishSaved index app.surfaces.generation text (.ok revision') =
              { app with
                surfaces :=
                  { app.surfaces with
                    operationInFlight := false
                    documentRevision := some revision'
                    documentDirty := false
                    error := none }
                jobs := app.jobs.eraseIdx index
                synced := some (revision', text) } := by
            unfold finishSaved RemoteSurfaces.finishSave RemoteSurfaces.finish syncedBy
            rw [if_neg fun h => h rfl]
            simp only [Except.map, if_true]
          rw [hfin] at hstep
          constructor
          · intro h path' rev' text' hj'
            rw [hj] at hj'
            cases hj'
            exact ((h _ hstep).1 rfl).2
          · intro h app' hstep'
            obtain rfl := Option.some.inj (hstep.symm.trans hstep')
            exact ⟨fun _ => ⟨rfl, h path revision text hj⟩, fun _ _ => rfl⟩
      · refine iff_of_true ((finishSaved_of_stale hg result).safe hs hstep) ?_
        cases result with
        | error error => trivial
        | ok revision' =>
          intro path' rev' text' hj'
          rw [hj] at hj'
          cases hj'
          exact absurd rfl hg

theorem safe_iff (hs : app.Synced) (message : RemoteMessage) :
    app.DirtySafe message ↔ app.Undisturbed message := by
  cases message with
  | documentFinished index result => exact read_safe_iff hs index result
  | saveFinished index result => exact save_safe_iff hs index result
  | connectRemote checked => exact iff_of_true (connect_safe hs checked) trivial
  | disconnectRemote => exact iff_of_true disconnect_safe trivial
  | documentAction action => exact iff_of_true (edit_safe hs action) trivial
  | connected generation result =>
    exact iff_of_true ((finishConnect_same app generation result _).safe hs rfl) trivial
  | refreshFiles => exact iff_of_true ((refreshFiles_same app).safe hs rfl) trivial
  | openDocument path => exact iff_of_true ((begins_same app _).safe hs rfl) trivial
  | saveDocument => exact iff_of_true ((begins_same app _).safe hs rfl) trivial
  | beginOther => exact iff_of_true ((begins_same app _).safe hs rfl) trivial
  | installHelper checked => exact iff_of_true ((beginInstall_same app checked).safe hs rfl) trivial
  | helperInstalled result =>
    exact iff_of_true ((finishInstall_same app result).safe hs rfl) trivial
  | filesFinished generation result | searchFinished generation result
  | gitFinished generation result | taskFinished generation result
  | languageFinished generation result =>
    refine iff_of_true (SameDocument.safe (finish_same app generation result ?_ ?_) hs rfl) trivial
    · exact fun _ _ => ⟨rfl, rfl, rfl⟩
    · exact fun _ => ⟨rfl, rfl, rfl⟩

end Message

/-! ## Runs -/

theorem synced_start : start.Synced := fun _ => ⟨rfl, rfl⟩

/-- Whatever messages come in whatever order, the dirty flag is true to the document and no
completion replaces unsaved edits exactly where each read and save is undisturbed. -/
theorem dirty_law (messages : List RemoteMessage) :
    Along step DirtySafe messages start ↔ Along step Undisturbed messages start :=
  along_iff synced_start (fun _ message hs => safe_iff hs message)
    fun _ _ app' _ hsafe hstep => (hsafe app' hstep).1

/-- The user types while a save is under way: its completion takes the flag off a text that the
host never got. -/
theorem edited_save :
    ¬ ∀ messages : List RemoteMessage, Along step DirtySafe messages start := by
  intro h
  have hrun : ([.connectRemote (.ok ()), .connected 1 (.ok ⟨"host", "/", []⟩),
      .openDocument "a", .documentFinished 0 (.ok ⟨"a", "old", "r0"⟩),
      .documentAction fun _ => "saved", .saveDocument, .documentAction fun _ => "edited",
      .saveFinished 0 (.ok "r1")].foldlM step start).any fun app =>
        !app.surfaces.documentDirty && app.surfaces.documentContent == "edited" &&
          app.synced == some ("r1", "saved") := by
    decide
  obtain ⟨app, hr, happ⟩ := (Option.any_eq_true _ _).mp hrun
  simp only [Bool.and_eq_true, Bool.not_eq_true', beq_iff_eq] at happ
  obtain ⟨⟨hclean, hcontent⟩, hsynced⟩ := happ
  have hs := (h _).invariant synced_start
    (fun _ _ app' _ hsafe hstep => (hsafe app' hstep).1) hr hclean
  rw [hsynced] at hs
  have := hs.2.symm.trans hcontent
  revert this
  decide

end RemoteApp

end Strukt.App
