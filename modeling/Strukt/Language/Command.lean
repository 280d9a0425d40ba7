import Strukt.Language.Discovery
import Strukt.Lib.Delimited
import Strukt.Lib.Lossy

/-!
# Commands of language servers

A `ResolvedCommand` is what is approved and started: an absolute executable and its arguments. Its
fingerprint is a hash of its `transcript`, in which each part stands behind its length.

* **The transcript** tells all commands apart (`transcript_inj`), so the fingerprint does where the
  hash has no collision (`NoCollision`).
* **The hash** is a parameter.
-/

namespace Strukt.Language

open Cbor (bigEndian)

inductive DescriptorSource where
  | builtIn
  | user
  | workspace
  deriving DecidableEq

def hasNul (value : OsStr) : Bool := '\x00' ∈ fromUtf8Lossy value

/-- A command, with what `ResolvedCommand::new` checks of it. No value is longer than
`isize::MAX`. -/
structure ResolvedCommand where
  executable : PathBuf
  arguments : List OsStr
  absolute : executable.bytes.head? = some 47
  noNul : ∀ part ∈ executable.bytes :: arguments, hasNul part = false
  sized : ∀ part ∈ executable.bytes :: arguments, part.length < 2 ^ 63
  deriving DecidableEq

/-- What `update_os_str` feeds the hash with: the length, its lowest byte first, and the bytes. -/
def updateOsStr (value : OsStr) : List UInt8 := (bigEndian value.length 8).reverse ++ value

namespace ResolvedCommand

def transcript (c : ResolvedCommand) : List UInt8 :=
  (c.executable.bytes :: c.arguments).flatMap updateOsStr

def fingerprint (hash : List UInt8 → BitVec 256) (c : ResolvedCommand) : BitVec 256 :=
  hash c.transcript

end ResolvedCommand

structure CommandApproval where
  workspace : String
  commandFingerprint : BitVec 256
  deriving DecidableEq

namespace CommandApproval

variable (hash : List UInt8 → BitVec 256)

def grant (workspace : String) (command : ResolvedCommand) : CommandApproval :=
  ⟨workspace, command.fingerprint hash⟩

def authorizes (approval : CommandApproval) (workspace : String) (command : ResolvedCommand) :
    Bool :=
  approval.workspace = workspace && approval.commandFingerprint = command.fingerprint hash

end CommandApproval

/-- Of these commands, no two with different transcripts have one hash. -/
def NoCollision (hash : List UInt8 → BitVec 256) (met : ResolvedCommand → Prop) : Prop :=
  ∀ c c', met c → met c' → hash c.transcript = hash c'.transcript → c.transcript = c'.transcript

/-! ## The transcript -/

theorem delimited_updateOsStr :
    Delimited (fun value : OsStr => value.length < 2 ^ 63) updateOsStr := by
  have hlength : Delimited (· < 2 ^ 63) fun n => (bigEndian n 8).reverse := by
    refine .of_length (n := 8) (fun n _ => ?_) fun n m hn hm h => ?_
    · rw [List.length_reverse, Cbor.length_bigEndian]
    · exact bigEndian_inj (hn.trans (by decide)) (hm.trans (by decide)) (List.reverse_injective h)
  exact delimited_sized hlength

namespace ResolvedCommand

variable {c c' : ResolvedCommand}

theorem ext_parts (hexecutable : c.executable = c'.executable)
    (harguments : c.arguments = c'.arguments) : c = c' := by
  cases c
  cases c'
  simp_all

theorem transcript_inj (h : c.transcript = c'.transcript) : c = c' := by
  have hne : ∀ value : OsStr, value.length < 2 ^ 63 → updateOsStr value ≠ [] := by
    intro value _ hnil
    have hlen := congrArg List.length hnil
    rw [updateOsStr, List.length_append, List.length_reverse, Cbor.length_bigEndian] at hlen
    rw [List.length_nil] at hlen
    omega
  have hparts := delimited_updateOsStr.flatMap_inj hne c.sized c'.sized h
  obtain ⟨hexecutable, harguments⟩ := List.cons.inj hparts
  refine ext_parts ?_ harguments
  cases hc : c.executable
  cases hc' : c'.executable
  rw [hc, hc'] at hexecutable
  exact congrArg PathBuf.mk hexecutable

theorem fingerprint_inj {hash : List UInt8 → BitVec 256} {met : ResolvedCommand → Prop}
    (hhash : NoCollision hash met) (hc : met c) (hc' : met c')
    (h : c.fingerprint hash = c'.fingerprint hash) : c = c' :=
  transcript_inj (hhash c c' hc hc' h)

end ResolvedCommand

end Strukt.Language
