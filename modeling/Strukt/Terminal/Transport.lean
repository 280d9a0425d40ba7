import Strukt.Terminal.Parser

/-!
# Terminal processes

What the runtime relies on of the platform (`TerminalProcess`, `TerminalTransport`) is a parameter
(`Platform`): a process is a state that answers each call and moves on. A process that answers
differently at another time is one whose state says so, so nothing is assumed of the answers.
-/

namespace Strukt

abbrev OsString := List UInt8

/-- A reading of the monotonic clock, in milliseconds. -/
abbrev Instant := Nat

/-- A nonempty size in character cells. -/
structure TerminalSize where
  rows : UInt16
  columns : UInt16
  rows_ne : rows ≠ 0
  columns_ne : columns ≠ 0
  deriving DecidableEq

inductive TransportError where
  | invalidSize
  | invalidExecutable
  | shellUnavailable
  | invalidWorkingDirectory
  | invalidEnvironmentKey
  | adapter (message : String)
  | io (message : String)
  | waitTimeout
  | terminationTimeout
  deriving DecidableEq

def TransportError.toString : TransportError → String
  | invalidSize => "terminal rows and columns must be nonzero"
  | invalidExecutable => "terminal executable must not be empty"
  | shellUnavailable => "no usable default shell was found"
  | invalidWorkingDirectory => "terminal working directory must be an existing absolute directory"
  | invalidEnvironmentKey => "terminal environment key is invalid"
  | adapter message => "terminal platform adapter failed: " ++ message
  | io message => "terminal IO failed: " ++ message
  | waitTimeout => "terminal wait timed out"
  | terminationTimeout => "terminal termination timed out"

def TerminalSize.new (rows columns : UInt16) : Except TransportError TerminalSize :=
  if h : rows = 0 ∨ columns = 0 then .error .invalidSize
  else .ok ⟨rows, columns, fun hr => h (.inl hr), fun hc => h (.inr hc)⟩

structure SpawnRequest where
  executable : PathBuf
  arguments : List OsString
  workingDirectory : PathBuf
  environment : List (OsString × OsString)
  size : TerminalSize
  deriving DecidableEq

structure OutputChunk where
  sequence : UInt64
  bytes : List UInt8
  deriving DecidableEq

structure ExitStatus where
  code : Option Int32
  signal : Option String
  terminated : Bool
  deriving DecidableEq

/-- The platform: the escape-sequence parser, and the processes that its transport spawns. -/
structure Platform extends VteParser where
  Process : Type
  write : Process → List UInt8 → Except TransportError Unit × Process
  resize : Process → TerminalSize → Except TransportError Unit × Process
  tryRead : Process → Except TransportError (Option OutputChunk) × Process
  outputBackpressured : Process → Bool
  tryWait : Process → Except TransportError (Option ExitStatus) × Process
  terminate : Process → Nat → Except TransportError Unit

/-- UTF-8 text of one- and two-byte characters. -/
def shortText : List UInt8 → List Char
  | [] => []
  | [b] => [Char.ofNat b.toNat]
  | b :: c :: rest =>
    if b < 0xc0 then Char.ofNat b.toNat :: shortText (c :: rest)
    else Char.ofNat ((b.toNat - 0xc0) * 64 + (c.toNat - 0x80)) :: shortText rest

/-- A platform to run the model on: a process plays back the chunks that it holds and accepts every
call, and the parser prints text without control sequences, where only the combining accents have
no width. -/
def Platform.playback : Platform where
  State := Unit
  new := ()
  advance _ bytes := ((), (shortText bytes).map .print)
  charWidth c := some (if 0x300 ≤ c.toNat ∧ c.toNat < 0x370 then 0 else 1)
  advance_nil _ := rfl
  Process := List OutputChunk
  write p _ := (.ok (), p)
  resize p _ := (.ok (), p)
  tryRead p := (.ok p.head?, p.tail)
  outputBackpressured _ := false
  tryWait p := (.ok none, p)
  terminate _ _ := .ok ()

/-- Playback by processes that report their exit at once. -/
def Platform.closing : Platform :=
  { Platform.playback with tryWait := fun p => (.ok (some ⟨some 0, none, false⟩), p) }

/-- A spawned process. `owner` is not data of the source: it records the pane and the generation
that the process was spawned for, so that its events can be told from those of another. -/
structure TerminalProcess (P : Platform) where
  owner : TerminalPaneId × UInt64
  process : P.Process

end Strukt
