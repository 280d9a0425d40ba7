import Strukt.App.CoordinatorSpec

/-!
# The command that is shown for approval

Before a command of the workspace is started, the user sees a line: the executable and the
arguments, with spaces between them, invalid bytes replaced, and cut at 512 characters.

* **Plain commands** (`Plain`): an executable alone, whose path is a text without spaces and
  replacement characters, shorter than the cut.
* **The law** (`prompt_law`): these are the commands that no other one is shown as.
* **A space in an argument** (`prompt_space`): one argument is shown as two.
-/

namespace Strukt.App

open Strukt.Language
open String (utf8EncodeChar)

/-- `display`, with the loop that pushes the arguments. -/
def displayLine (command : ResolvedCommand) : List Char :=
  fromUtf8Lossy command.executable.bytes ++
    command.arguments.flatMap fun argument => ' ' :: fromUtf8Lossy argument

/-- The server that waits for its approval. -/
def LanguageCoordinator.pending (c : LanguageCoordinator) (languageId : String) :
    Option DiscoveredServer :=
  (c.servers.get? languageId).bind (·.pendingApproval)

def LanguageCoordinator.approvalCommand (c : LanguageCoordinator) (languageId : String) :
    Option String :=
  (c.pending languageId).map fun server =>
    takeChars 512 (String.ofList (displayLine server.command))

/-- An executable without arguments, whose path is shown as it is. -/
def Plain (command : ResolvedCommand) : Prop :=
  command.arguments = [] ∧ ∃ text : List Char,
    command.executable.bytes = text.flatMap utf8EncodeChar ∧ text.length < 512 ∧ ' ' ∉ text ∧
      '\ufffd' ∉ text

variable {c c' : ResolvedCommand}

/-- The line up to the cut. -/
def promptText (c : ResolvedCommand) : List Char := (displayLine c).take 512

theorem head_displayLine (c : ResolvedCommand) : (displayLine c).head? = some '/' := by
  obtain ⟨rest, hrest⟩ := List.head?_eq_some_iff.mp c.absolute
  have hslash : c.executable.bytes = utf8EncodeChar '/' ++ rest := hrest
  unfold displayLine
  rw [hslash, lossy_encodeChar]
  rfl

theorem nul_notMem_displayLine (c : ResolvedCommand) : '\x00' ∉ displayLine c := by
  have hpart : ∀ part ∈ c.executable.bytes :: c.arguments, '\x00' ∉ fromUtf8Lossy part :=
    fun part hmem => of_decide_eq_false (c.noNul part hmem)
  unfold displayLine
  rw [List.mem_append, not_or]
  refine ⟨hpart _ List.mem_cons_self, fun h => ?_⟩
  obtain ⟨argument, hmem, h⟩ := List.mem_flatMap.mp h
  obtain h | h := List.mem_cons.mp h
  · cases h
  · exact hpart argument (List.mem_cons_of_mem _ hmem) h

/-- Short parts that are shown as a line with a slash first and without NUL are a command. -/
theorem exists_of_line (bytes : List UInt8) (arguments : List OsStr) {line : List Char}
    (hline : (fromUtf8Lossy bytes ++ arguments.flatMap fun a => ' ' :: fromUtf8Lossy a) = line)
    (hhead : bytes.head? = some 47) (hnul : '\x00' ∉ line)
    (hsized : ∀ part ∈ bytes :: arguments, part.length < 2 ^ 63) :
    ∃ c : ResolvedCommand, c.executable = ⟨bytes⟩ ∧ c.arguments = arguments ∧
      displayLine c = line := by
  refine ⟨⟨⟨bytes⟩, arguments, hhead, fun part hmem => decide_eq_false fun h => hnul ?_, hsized⟩, rfl,
    rfl, hline⟩
  rw [← hline, List.mem_append]
  obtain rfl | hmem := List.mem_cons.mp hmem
  · exact .inl h
  · exact .inr (List.mem_flatMap.mpr ⟨part, hmem, List.mem_cons_of_mem _ h⟩)

theorem length_encode_le_mul (text : List Char) :
    (text.flatMap utf8EncodeChar).length ≤ 4 * text.length := by
  induction text with
  | nil => exact Nat.le_refl 0
  | cons ch text ih =>
    have := ch.utf8Size_le_four
    rw [List.flatMap_cons, List.length_append, String.length_utf8EncodeChar, List.length_cons]
    omega

/-- A short line with a slash first and without NUL is shown of the executable that it is. -/
theorem exists_of_text {text : List Char} (hhead : text.head? = some '/') (hnul : '\x00' ∉ text)
    (hlen : text.length ≤ 513) :
    ∃ c : ResolvedCommand, c.executable = ⟨text.flatMap utf8EncodeChar⟩ ∧ c.arguments = [] ∧
      displayLine c = text := by
  have hbytes := length_encode_le_mul text
  refine exists_of_line _ _ ?_ ?_ hnul fun part hmem => ?_
  · rw [lossy_encode, List.flatMap_nil, List.append_nil]
  · obtain ⟨rest, rfl⟩ := List.head?_eq_some_iff.mp hhead
    rfl
  · obtain rfl := List.mem_singleton.mp hmem
    omega

theorem promptText_of_plain (h : Plain c) (hshown : promptText c' = promptText c) : c' = c := by
  obtain ⟨hnone, text, hbytes, hlen, hspace, hreplaced⟩ := h
  have hline : displayLine c = text := by
    unfold displayLine
    rw [hnone, hbytes, lossy_encode, List.flatMap_nil, List.append_nil]
  unfold promptText at hshown
  rw [hline, List.take_of_length_le (Nat.le_of_lt hlen)] at hshown
  -- The other line is not cut either, as it would fill 512 characters.
  have hline' : displayLine c' = text := by
    have hlen' := congrArg List.length hshown
    rw [List.length_take] at hlen'
    rw [← hshown, List.take_of_length_le (by omega)]
  have hnone' : c'.arguments = [] := by
    cases harguments : c'.arguments with
    | nil => rfl
    | cons argument rest =>
      refine absurd ?_ hspace
      rw [← hline', displayLine, harguments, List.flatMap_cons]
      exact List.mem_append_right _ (List.mem_append_left _ List.mem_cons_self)
  have hlossy : fromUtf8Lossy c'.executable.bytes = text := by
    rw [← hline', displayLine, hnone', List.flatMap_nil, List.append_nil]
  have hbytes' := encode_lossy c'.executable.bytes (hlossy ▸ hreplaced)
  rw [hlossy, ← hbytes] at hbytes'
  refine ResolvedCommand.ext_parts ?_ (hnone'.trans hnone.symm)
  cases he : c.executable
  cases he' : c'.executable
  rw [he, he'] at hbytes'
  exact congrArg PathBuf.mk hbytes'.symm

/-- What is shown of a command that is not plain is shown of another one too. -/
theorem plain_of_promptText (h : ∀ c', promptText c' = promptText c → c' = c) : Plain c := by
  have hle : (promptText c).length ≤ 512 := by
    unfold promptText
    rw [List.length_take]
    exact Nat.min_le_left _ _
  have hnul : '\x00' ∉ promptText c := fun hmem => nul_notMem_displayLine c (List.mem_of_mem_take hmem)
  have hhead : (promptText c).head? = some '/' := by
    unfold promptText
    rw [List.head?_take, if_neg (by decide), head_displayLine]
  generalize htext : promptText c = text at *
  obtain ⟨c₁, hexecutable, hnone, hline⟩ := exists_of_text hhead hnul (Nat.le_succ_of_le hle)
  obtain rfl : c₁ = c := by
    refine h c₁ ?_
    unfold promptText
    rw [hline, List.take_of_length_le hle]
  have hbytes : c₁.executable.bytes = text.flatMap utf8EncodeChar := by rw [hexecutable]
  have hsmall := length_encode_le_mul text
  refine ⟨hnone, text, hbytes, ?_, fun hspace => ?_, fun hreplaced => ?_⟩
  · -- A line that fills the cut is shown of a longer path.
    by_contra hfull
    have hlen : text.length = 512 := by omega
    have hhead₂ : (text ++ ['a']).head? = some '/' := by
      rw [List.head?_append, hhead]
      rfl
    have hnul₂ : '\x00' ∉ text ++ ['a'] := by
      rw [List.mem_append, not_or]
      exact ⟨hnul, by decide⟩
    obtain ⟨c₂, hexecutable₂, -, hline₂⟩ := exists_of_text hhead₂ hnul₂ (by
      rw [List.length_append, List.length_singleton]
      omega)
    have heq : c₂ = c₁ := by
      refine h c₂ ?_
      unfold promptText
      rw [hline₂, ← hlen, List.take_left]
    rw [heq] at hline₂
    rw [hline] at hline₂
    have := congrArg List.length hline₂
    rw [List.length_append, List.length_singleton] at this
    omega
  · -- What follows a space is shown of an argument too.
    obtain ⟨front, back, rfl⟩ := List.append_of_mem hspace
    have hfront : front.head? = some '/' := by
      cases front with
      | nil => cases hhead
      | cons ch front => exact hhead
    have hencode : ∀ l : List Char, l.length ≤ 512 → (l.flatMap utf8EncodeChar).length < 2 ^ 63 := by
      intro l hl
      have := length_encode_le_mul l
      omega
    have hparts : front.length ≤ 512 ∧ back.length ≤ 512 := by
      rw [List.length_append, List.length_cons] at hle
      omega
    obtain ⟨c₂, -, harguments, hline₂⟩ := exists_of_line (front.flatMap utf8EncodeChar)
      [back.flatMap utf8EncodeChar]
      (by rw [List.flatMap_singleton, lossy_encode, lossy_encode])
      (by obtain ⟨rest, rfl⟩ := List.head?_eq_some_iff.mp hfront; rfl) hnul
      (by
        intro part hmem
        simp only [List.mem_cons, List.not_mem_nil, or_false] at hmem
        obtain rfl | rfl := hmem
        · exact hencode _ hparts.1
        · exact hencode _ hparts.2)
    have heq : c₂ = c₁ := by
      refine h c₂ ?_
      unfold promptText
      rw [hline₂, List.take_of_length_le hle]
    rw [heq, hnone] at harguments
    cases harguments
  · -- A replacement character is shown of an invalid byte too.
    obtain ⟨front, back, rfl⟩ := List.append_of_mem hreplaced
    have hfront : front.head? = some '/' := by
      cases front with
      | nil => cases hhead
      | cons ch front => exact hhead
    have hlen : (front.flatMap utf8EncodeChar ++ 0xff :: back.flatMap utf8EncodeChar).length <
        2 ^ 63 := by
      have := length_encode_le_mul front
      have := length_encode_le_mul back
      rw [List.length_append, List.length_cons] at hle
      rw [List.length_append, List.length_cons]
      omega
    obtain ⟨c₂, hexecutable₂, -, hline₂⟩ := exists_of_line
      (front.flatMap utf8EncodeChar ++ 0xff :: back.flatMap utf8EncodeChar) []
      (by rw [lossy_encode_append, lossy_ff, lossy_encode, List.flatMap_nil, List.append_nil])
      (by obtain ⟨rest, rfl⟩ := List.head?_eq_some_iff.mp hfront; rfl) hnul
      (fun part hmem => List.mem_singleton.mp hmem ▸ hlen)
    have heq : c₂ = c₁ := by
      refine h c₂ ?_
      unfold promptText
      rw [hline₂, List.take_of_length_le hle]
    rw [heq, hexecutable] at hexecutable₂
    have hcut := congrArg PathBuf.bytes hexecutable₂
    rw [List.flatMap_append, List.flatMap_cons, List.append_cancel_left_eq] at hcut
    cases hcut

/-! ## The prompt -/

theorem approvalCommand_eq {k : LanguageCoordinator} {l : String} {server : DiscoveredServer}
    (h : k.pending l = some server) :
    k.approvalCommand l = some (String.ofList (promptText server.command)) := by
  unfold LanguageCoordinator.approvalCommand takeChars promptText
  rw [h, Option.map_some, String.toList_ofList]

/-- A coordinator in which the command waits for its approval. -/
def waitingFor (c : ResolvedCommand) : LanguageCoordinator :=
  (LanguageCoordinator.restore "w" ⟨[], [], false⟩).setServer "l"
    { ServerBinding.new with
      state := .approvalRequired
      pendingApproval := some ⟨.workspace, c, 0⟩ }

theorem pending_waitingFor (c : ResolvedCommand) :
    (waitingFor c).pending "l" = some ⟨.workspace, c, 0⟩ := by
  unfold LanguageCoordinator.pending waitingFor
  rw [LanguageCoordinator.get?_setServer, if_pos rfl]
  rfl

/-- What is shown of a command is shown of no other command, in whatever coordinator it waits, exactly
if it is plain. -/
theorem prompt_law (c : ResolvedCommand) :
    (∀ (k k' : LanguageCoordinator) (l l' : String) (server server' : DiscoveredServer),
      k.pending l = some server → k'.pending l' = some server' → server.command = c →
        k.approvalCommand l = k'.approvalCommand l' → server'.command = c) ↔ Plain c := by
  constructor
  · intro h
    refine plain_of_promptText fun c' hc' => ?_
    refine h (waitingFor c) (waitingFor c') "l" "l" _ _ (pending_waitingFor c) (pending_waitingFor c')
      rfl ?_
    rw [approvalCommand_eq (pending_waitingFor c), approvalCommand_eq (pending_waitingFor c')]
    exact congrArg (some ∘ String.ofList) hc'.symm
  · rintro hplain k k' l l' server server' hserver hserver' rfl hshown
    rw [approvalCommand_eq hserver, approvalCommand_eq hserver'] at hshown
    have htext := congrArg String.toList (Option.some.inj hshown)
    rw [String.toList_ofList, String.toList_ofList] at htext
    exact promptText_of_plain hplain htext.symm

/-- The one argument `b c` and the two arguments `b` and `c` are shown alike. -/
theorem prompt_space : ∃ c c' : ResolvedCommand, c.executable = c'.executable ∧
    c.arguments = [[98, 32, 99]] ∧ c'.arguments = [[98], [99]] ∧
      (waitingFor c).approvalCommand "l" = (waitingFor c').approvalCommand "l" := by
  refine ⟨⟨⟨[47, 97]⟩, [[98, 32, 99]], rfl, by decide, by decide⟩,
    ⟨⟨[47, 97]⟩, [[98], [99]], rfl, by decide, by decide⟩, rfl, rfl, rfl, ?_⟩
  rw [approvalCommand_eq (pending_waitingFor _), approvalCommand_eq (pending_waitingFor _)]
  decide

end Strukt.App
