import Strukt.Lib.ShellWords
import Strukt.Remote.Config

/-!
# Commands of OpenSSH

`OpenSsh` builds the arguments that `ssh` is started with. `ssh` reads options up to `--`, takes the
next argument for the destination, and hands the others, with blanks between them, to the shell of
the host. So a version or a checksum with a blank, a quote or a semicolon would run as something
else, and the commands are built from values that have none.

* **Installing** (`install_helper_law`): the host runs the bootstrap, which is text of this program,
  with the version and the checksum as its two parameters.
-/

namespace Strukt.Remote

open ShellWords

inductive OpenSshError where
  | invalidHelperVersion
  | invalidHelperChecksum
  deriving DecidableEq

inductive SshCommandKind where
  | version
  | resolveConfig
  | probe
  | terminal
  | helper
  | install
  deriving DecidableEq

/-- The deadline is in seconds; zero is none. -/
structure SshCommandSpec where
  program : PathBuf
  args : List String
  kind : SshCommandKind
  deadline : Nat
  interactive : Bool

structure OpenSsh where
  executable : PathBuf

def helperInstallBootstrap : String :=
  "set -eu
umask 077
version=\"$1\"
expected=\"$2\"
base=\"$HOME/.local/share/strukt/bin/$version\"
target=\"$base/strukt-remote\"
mkdir -p \"$base\"
test ! -e \"$target\" || exit 73
tmp=$(mktemp \"$base/.strukt-remote.XXXXXX\")
trap 'rm -f \"$tmp\"' EXIT HUP INT TERM
cat > \"$tmp\"
if command -v sha256sum >/dev/null 2>&1; then
  actual=$(sha256sum \"$tmp\" | awk '\x7bprint $1\x7d')
else
  actual=$(shasum -a 256 \"$tmp\" | awk '\x7bprint $1\x7d')
fi
test \"$actual\" = \"$expected\"
chmod 700 \"$tmp\"
mv \"$tmp\" \"$target\"
trap - EXIT HUP INT TERM
"

def isVersionChar (c : Char) : Bool := c.isAlphanum || c = '.' || c = '-' || c = '+'

def validVersion (version : String) : Bool :=
  !version.isEmpty && version.utf8ByteSize ≤ 64 && version.toList.all isVersionChar &&
    version.toList.any Char.isDigit

def isHexDigit (c : Char) : Bool :=
  c.isDigit || ('a' ≤ c && c ≤ 'f') || ('A' ≤ c && c ≤ 'F')

def validChecksum (checksum : String) : Bool :=
  checksum.utf8ByteSize = 64 && checksum.toList.all isHexDigit

def shellQuote (value : String) : String := String.ofList (quote value.toList)

namespace OpenSsh

def installHelper (ssh : OpenSsh) (sshAlias : SshAlias) (version checksum : String) :
    Except OpenSshError SshCommandSpec := do
  if !validVersion version then throw .invalidHelperVersion
  if !validChecksum checksum then throw .invalidHelperChecksum
  let command :=
    "sh -c " ++ shellQuote helperInstallBootstrap ++ " sh " ++ version ++ " " ++ checksum
  return ⟨ssh.executable, ["-T", "-o", "BatchMode=yes", "--", sshAlias.value, command], .install,
    60, false⟩

end OpenSsh

/-! ## What the host runs -/

namespace SshCommandSpec

variable {spec : SshCommandSpec} {command : List String} {host : String}

/-- The arguments that are no options. -/
def operands (spec : SshCommandSpec) : List String := (spec.args.dropWhile (· ≠ "--")).tail

def destination (spec : SshCommandSpec) : Option String := spec.operands.head?

/-- The words that the shell of the host reads. -/
def remoteWords (spec : SshCommandSpec) : Option (List (List Char)) :=
  split .blank ([' '].intercalate (spec.operands.tail.map String.toList))

theorem reads (options : List String) (h : spec.args = options ++ "--" :: host :: command)
    (ho : ∀ option ∈ options, option ≠ "--") {words : List (List Char)}
    (hw : split .blank ([' '].intercalate (command.map String.toList)) = some words) :
    spec.destination = some host ∧ spec.remoteWords = some words := by
  have hoperands : spec.operands = host :: command := by
    rw [operands, h, List.dropWhile_append_of_pos fun o hm => decide_eq_true (ho o hm)]
    rfl
  rw [destination, remoteWords, hoperands]
  exact ⟨rfl, hw⟩

end SshCommandSpec

variable {version checksum : String}

theorem isPlain_of_version (h : validVersion version = true) :
    ∀ c ∈ version.toList, isPlain c = true := by
  simp only [validVersion, Bool.and_eq_true] at h
  intro c hc
  have := List.all_eq_true.mp h.1.2 c hc
  simp only [isVersionChar, Bool.or_eq_true, decide_eq_true_eq] at this
  obtain ((halnum | rfl) | rfl) | rfl := this
  · rw [isPlain, halnum, Bool.true_or]
  · decide
  · decide
  · decide

theorem spells_version (h : validVersion version = true) :
    Spells version.toList version.toList := by
  refine spells_plain ?_ (isPlain_of_version h)
  simp only [validVersion, Bool.and_eq_true] at h
  intro hnil
  rw [hnil] at h
  cases h.2

theorem isPlain_of_isHexDigit {c : Char} (h : isHexDigit c = true) : isPlain c = true := by
  have halnum : c.isAlphanum = true := by
    simp only [isHexDigit, Bool.or_eq_true, Bool.and_eq_true, decide_eq_true_eq] at h
    simp only [Char.isAlphanum, Char.isAlpha, Char.isUpper, Char.isLower, Bool.or_eq_true,
      Bool.and_eq_true, decide_eq_true_eq]
    obtain (hdigit | ⟨hl, hu⟩) | ⟨hl, hu⟩ := h
    · exact .inr hdigit
    · exact .inl (.inr ⟨hl, hu.trans (by decide)⟩)
    · exact .inl (.inl ⟨hl, hu.trans (by decide)⟩)
  rw [isPlain, halnum, Bool.true_or]

theorem spells_checksum (h : validChecksum checksum = true) :
    Spells checksum.toList checksum.toList := by
  simp only [validChecksum, Bool.and_eq_true, decide_eq_true_eq] at h
  refine spells_plain ?_ fun c hc => isPlain_of_isHexDigit (List.all_eq_true.mp h.2 c hc)
  intro hnil
  have hempty : checksum = "" := String.toList_eq_nil_iff.mp hnil
  rw [hempty] at h
  exact absurd h.1 (by decide)

theorem spells_literal {w : List Char} (hne : w ≠ []) (h : w.all isPlain = true) :
    Spells w w :=
  spells_plain hne (List.all_eq_true.mp h)

-- The texts are taken apart with variables for the literals, which would be unfolded.

theorem toList_command (a b text v s : String) :
    (a ++ shellQuote text ++ b ++ v ++ " " ++ s).toList =
      a.toList ++ (quote text.toList ++ (b.toList ++ (v.toList ++ ' ' :: s.toList))) := by
  simp [shellQuote]

theorem intercalate_one (s : String) : [' '].intercalate ([s].map String.toList) = s.toList := by
  simp

theorem split_command (text : String) (hv : validVersion version = true)
    (hc : validChecksum checksum = true) :
    split .blank ("sh -c " ++ shellQuote text ++ " sh " ++ version ++ " " ++ checksum).toList =
      some (["sh", "-c", text, "sh", version, checksum].map String.toList) := by
  have hsh : Spells ['s', 'h'] ['s', 'h'] := spells_literal (by decide) (by decide)
  have hflag : Spells ['-', 'c'] ['-', 'c'] := spells_literal (by decide) (by decide)
  rw [toList_command]
  exact hsh.cons (hflag.cons (spells_quote.cons (hsh.cons ((spells_version hv).cons
    (spells_checksum hc).last))))

/-- A command is built exactly of a valid version and checksum, and the host runs the bootstrap
with these two as its parameters. -/
theorem install_helper_law (ssh : OpenSsh) (sshAlias : SshAlias) (version checksum : String) :
    if validVersion version = true ∧ validChecksum checksum = true then
      ∃ spec, ssh.installHelper sshAlias version checksum = .ok spec ∧
        spec.destination = some sshAlias.value ∧
        spec.remoteWords = some
          (["sh", "-c", helperInstallBootstrap, "sh", version, checksum].map String.toList)
    else ∃ error, ssh.installHelper sshAlias version checksum = .error error := by
  unfold OpenSsh.installHelper
  cases hv : validVersion version with
  | false => exact ⟨_, rfl⟩
  | true =>
    cases hc : validChecksum checksum with
    | false => exact ⟨_, rfl⟩
    | true =>
      refine ⟨_, rfl, SshCommandSpec.reads ["-T", "-o", "BatchMode=yes"] rfl
        (by decide) ?_⟩
      rw [intercalate_one]
      exact split_command _ hv hc

end Strukt.Remote
