import NetLabs.FileTransfer.Session
import NetLabs.Conferencing.TypedLines

/-!
# The prompt (`deliver/deliver.c`)

`deliver` reads a line, takes it apart with `strtok`, and refuses it or sends a file.  Neither part looks at the length of
a word before it copies it; what each of them makes of a line is read off the `words` of the line (`prompts_read`).

Printing is left out.
-/

namespace FileTransfer

open CText Transition
open Conferencing (strtok words strtok_none strtok_words mem_of_mem_words)

/-! ### Lines -/

/-- What `fgets(terminal_buffer, n + 1, stdin)` reads: at most `n` bytes, and none behind a newline. -/
def fgets : Nat → Bytes → Bytes
  | 0, _ => []
  | _, [] => []
  | n + 1, b :: stdin => if b = 10 then [b] else b :: fgets n stdin

/-- The 1022 bytes that `fgets(terminal_buffer, 1023, stdin)` has room for. -/
abbrev terminalRoom : Nat := 1022

private theorem fgets_append (n : Nat) (stdin : Bytes) :
    fgets n stdin ++ stdin.drop (fgets n stdin).length = stdin := by
  induction n generalizing stdin with
  | zero => rfl
  | succ n ih =>
    cases stdin with
    | nil => rfl
    | cons b stdin =>
      rw [fgets]
      split
      · rfl
      · rw [List.length_cons, List.drop_succ_cons, List.cons_append, ih]

private theorem fgets_ne_nil {stdin : Bytes} (h : stdin ≠ []) : fgets terminalRoom stdin ≠ [] := by
  cases stdin with
  | nil => exact absurd rfl h
  | cons b stdin =>
    rw [fgets]
    split <;> exact List.cons_ne_nil _ _

/-- The texts that one call of `fgets` after the other reads: the lines, and a line that is too long in several pieces. -/
def pieces (stdin : Bytes) : List Bytes :=
  if stdin = [] then [] else fgets terminalRoom stdin :: pieces (stdin.drop (fgets terminalRoom stdin).length)
termination_by stdin.length
decreasing_by
  rename_i h
  have hpos := List.length_pos_iff.2 (fgets_ne_nil h)
  have hstdin := List.length_pos_iff.2 h
  rw [List.length_drop]
  omega

/-- Nothing that is typed is lost. -/
theorem flatten_pieces (stdin : Bytes) : (pieces stdin).flatten = stdin := by
  fun_induction pieces stdin with
  | case1 => rfl
  | case2 stdin _ ih => rw [List.flatten_cons, ih, fgets_append]

section Lines

variable {line rest : Bytes} {n : Nat}

private theorem fgets_line (h : 10 ∉ line) (hlen : line.length < n) : fgets n (line ++ 10 :: rest) = line ++ [10] := by
  induction line generalizing n with
  | nil =>
    obtain ⟨n, rfl⟩ := Nat.exists_eq_add_of_lt hlen
    rfl
  | cons b line ih =>
    obtain ⟨n, rfl⟩ : ∃ m, n = m + 1 := Nat.exists_eq_succ_of_ne_zero (by omega)
    rw [List.mem_cons, not_or] at h
    rw [List.length_cons] at hlen
    rw [List.cons_append, fgets, if_neg (Ne.symm h.1), ih h.2 (by omega), List.cons_append]

/-- A line that is not too long is one piece. -/
theorem pieces_line (h : 10 ∉ line) (hlen : line.length < terminalRoom) :
    pieces (line ++ 10 :: rest) = (line ++ [10]) :: pieces rest := by
  rw [pieces, if_neg (by simp), fgets_line h hlen]
  simp

end Lines

/-! ### Commands -/

/-- Why `main` goes on to the next line. -/
inductive Refusal
  | noInput
  | incorrectProtocol
  | fileNameMissing
  | tooManyArguments
  deriving DecidableEq

inductive Command
  | done
  | refused (why : Refusal)
  | request (fileName : CStr nameLength)
  deriving DecidableEq

/-- The text in `terminal_buffer`, up to the call of `open`. -/
def readCommand (terminalBuffer : Bytes) : Option Command :=
  if terminalBuffer = ascii "done\n" then some .done
  else match strtok terminalBuffer with
    | none => some (.refused .noInput)
    | some (token, _, rest) => do
      let ftp ← CStr.ofBytes? 256 token
      if ftp.bytes ≠ ascii "ftp" then some (.refused .incorrectProtocol)
      else match strtok rest with
        | none => some (.refused .fileNameMissing)
        | some (token, _, rest) => do
          let fileName ← CStr.ofBytes? nameLength token
          if strtok rest ≠ none then some (.refused .tooManyArguments) else some (.request fileName)

/-- The second part: a line without a word is not looked at, `ftp` has four bytes, and is compared last. -/
def Plain.readCommand (terminalBuffer : Bytes) : Option Command :=
  if terminalBuffer = ascii "done\n" then some .done
  else match strtok terminalBuffer with
    | none => none -- `strcpy(ftp, NULL)`
    | some (token, _, rest) => do
      let ftp ← CStr.ofBytes? 4 token
      match strtok rest with
      | none => some (.refused .fileNameMissing)
      | some (token, _, rest) => do
        let fileName ← CStr.ofBytes? nameLength token
        if strtok rest ≠ none then some (.refused .tooManyArguments)
        else if ftp.bytes ≠ ascii "ftp" then some (.refused .incorrectProtocol)
        else some (.request fileName)

/-- The texts in `terminal_buffer`, turn by turn. -/
def typed (stdin : Bytes) : List Bytes := (pieces stdin).map cstr

/-- The loop of `main` over these texts, as if each transfer came to its end: the files that it opens, and whether it is
left.  At the end of its input `fgets` fails, and `main` tries again. -/
def prompt (readCommand : Bytes → Option Command) : List Bytes → Option (List Bytes × Bool)
  | [] => some ([], false)
  | text :: rest => (readCommand text).bind fun
    | .done => some ([], true)
    | .refused _ => prompt readCommand rest
    | .request fileName => (prompt readCommand rest).map fun (names, left) => (fileName.bytes :: names, left)

/-! ### What a line says -/

/-- The file that a line asks for. -/
def asked (line : Bytes) : Option Bytes :=
  match words line with
  | [protocol, name] => if protocol = ascii "ftp" then some name else none
  | _ => none

/-- The words of a line fit the arrays of the third part. -/
def FitsPrompt (line : Bytes) : Prop :=
  ∀ protocol ∈ (words line)[0]?, protocol.length < 256 ∧
    (protocol = ascii "ftp" → ∀ name ∈ (words line)[1]?, name.length < nameLength)

/-- The words of a line fit the arrays of the second part, and there is one. -/
def Plain.FitsPrompt (line : Bytes) : Prop :=
  ∃ protocol ∈ (words line)[0]?, protocol.length < 4 ∧ ∀ name ∈ (words line)[1]?, name.length < nameLength

instance : DecidablePred FitsPrompt := fun line => by unfold FitsPrompt; infer_instance
instance : DecidablePred Plain.FitsPrompt := fun line => by unfold Plain.FitsPrompt; infer_instance

def Command.name? : Command → Option Bytes
  | .request fileName => some fileName.bytes
  | _ => none

section Commands

variable {line s w name : Bytes} {n : Nat}

/-- `strtok` finds the words one by one. -/
private theorem strtok_cases (s : Bytes) : strtok s = none ∧ words s = [] ∨
    ∃ token scanned rest, strtok s = some (token, scanned, rest) ∧ words s = token :: words rest := by
  cases h : strtok s with
  | none => exact .inl ⟨rfl, strtok_none h⟩
  | some p => exact .inr ⟨p.1, p.2.1, p.2.2, rfl, (strtok_words h).1⟩

private theorem readCommand_eq (hdone : line ≠ ascii "done\n") : readCommand line = match words line with
    | [] => some (.refused .noInput)
    | protocol :: more => (CStr.ofBytes? 256 protocol).bind fun ftp =>
      if ftp.bytes ≠ ascii "ftp" then some (.refused .incorrectProtocol)
      else match more with
        | [] => some (.refused .fileNameMissing)
        | name :: more => (CStr.ofBytes? nameLength name).bind fun fileName =>
          if more ≠ [] then some (.refused .tooManyArguments) else some (.request fileName) := by
  rw [readCommand, if_neg hdone]
  rcases strtok_cases line with ⟨hs, hwords⟩ | ⟨protocol, _, rest, hs, hwords⟩
  · rw [hs, hwords]
  rcases strtok_cases rest with ⟨hs', hwords'⟩ | ⟨name, _, rest', hs', hwords'⟩
  · simp only [hs, hwords, hs', hwords', Option.bind_eq_bind]
  rcases strtok_cases rest' with ⟨hs'', hwords''⟩ | ⟨_, _, _, hs'', hwords''⟩ <;>
    simp [hs, hwords, hs', hwords', hs'', hwords'']

private theorem Plain.readCommand_eq (hdone : line ≠ ascii "done\n") : Plain.readCommand line = match words line with
    | [] => none
    | protocol :: more => (CStr.ofBytes? 4 protocol).bind fun ftp => match more with
      | [] => some (.refused .fileNameMissing)
      | name :: more => (CStr.ofBytes? nameLength name).bind fun fileName =>
        if more ≠ [] then some (.refused .tooManyArguments)
        else if ftp.bytes ≠ ascii "ftp" then some (.refused .incorrectProtocol)
        else some (.request fileName) := by
  rw [Plain.readCommand, if_neg hdone]
  rcases strtok_cases line with ⟨hs, hwords⟩ | ⟨protocol, _, rest, hs, hwords⟩
  · rw [hs, hwords]
  rcases strtok_cases rest with ⟨hs', hwords'⟩ | ⟨name, _, rest', hs', hwords'⟩
  · simp only [hs, hwords, hs', hwords', Option.bind_eq_bind]
  rcases strtok_cases rest' with ⟨hs'', hwords''⟩ | ⟨_, _, _, hs'', hwords''⟩ <;>
    simp [hs, hwords, hs', hwords', hs'', hwords'']

/-- `strcpy` of a word into an array is defined when the word is shorter. -/
private theorem ofBytes?_word (h0 : (0 : Byte) ∉ line) (hw : w ∈ words line) (n : Nat) :
    (n ≤ w.length ∧ CStr.ofBytes? n w = none) ∨
      ∃ t : CStr n, w.length < n ∧ CStr.ofBytes? n w = some t ∧ t.bytes = w := by
  have hnul : (0 : Byte) ∉ w := fun hmem => h0 (mem_of_mem_words hw hmem).1
  by_cases hlen : w.length < n
  · exact .inr ⟨_, hlen, CStr.ofBytes?_isSome hnul hlen, rfl⟩
  · refine .inl ⟨Nat.not_lt.1 hlen, Option.eq_none_iff_forall_ne_some.2 fun t ht => hlen ?_⟩
    rw [← CStr.ofBytes?_eq_some.1 ht]
    exact t.fits

/-- A line is taken for what it says when its words fit, and is undefined otherwise. -/
def Outcome (readCommand : Bytes → Option Command) (line : Bytes) (fits : Prop) : Prop :=
  (fits ∧ ∃ c, readCommand line = some c ∧ c ≠ .done ∧ c.name? = asked line) ∨ (¬ fits ∧ readCommand line = none)

theorem outcome_readCommand (h0 : (0 : Byte) ∉ line) (hdone : line ≠ ascii "done\n") :
    Outcome readCommand line (FitsPrompt line) := by
  have hcopy := fun w hw n => ofBytes?_word (w := w) h0 hw n
  unfold Outcome FitsPrompt asked
  rw [readCommand_eq hdone]
  generalize words line = ws at hcopy ⊢
  rcases ws with _ | ⟨protocol, more⟩
  · exact .inl ⟨by simp, _, rfl, by simp, rfl⟩
  rcases hcopy protocol List.mem_cons_self 256 with ⟨hlen, hcopy₁⟩ | ⟨ftp, hlen, hcopy₁, rfl⟩
  · exact .inr ⟨fun h => by have := (h protocol rfl).1; omega, by simp [hcopy₁]⟩
  simp only [hcopy₁, Option.bind_some]
  by_cases hprotocol : ftp.bytes = ascii "ftp"
  · rcases more with _ | ⟨name, more⟩
    · exact .inl ⟨by simp [hlen], .refused .fileNameMissing, by simp [hprotocol], by simp, rfl⟩
    rcases hcopy name (by simp) nameLength with ⟨hlen', hcopy₂⟩ | ⟨fileName, hlen', hcopy₂, rfl⟩
    · exact .inr ⟨fun h => by have := (h _ rfl).2 hprotocol name rfl; omega, by simp [hprotocol, hcopy₂]⟩
    · rcases more with _ | ⟨_, _⟩
      · exact .inl ⟨by simp [hlen, hlen'], .request fileName, by simp [hprotocol, hcopy₂], by simp,
          by simp [Command.name?, hprotocol]⟩
      · exact .inl ⟨by simp [hlen, hlen'], .refused .tooManyArguments, by simp [hprotocol, hcopy₂], by simp, rfl⟩
  · refine .inl ⟨by simp [hlen, hprotocol], _, if_pos hprotocol, by simp, ?_⟩
    rcases more with _ | ⟨name, _ | _⟩ <;> simp [Command.name?, hprotocol]

theorem Plain.outcome_readCommand (h0 : (0 : Byte) ∉ line) (hdone : line ≠ ascii "done\n") :
    Outcome Plain.readCommand line (Plain.FitsPrompt line) := by
  have hcopy := fun w hw n => ofBytes?_word (w := w) h0 hw n
  unfold Outcome Plain.FitsPrompt asked
  rw [Plain.readCommand_eq hdone]
  generalize words line = ws at hcopy ⊢
  rcases ws with _ | ⟨protocol, more⟩
  · exact .inr ⟨by simp, rfl⟩
  rcases hcopy protocol List.mem_cons_self 4 with ⟨hlen, hcopy₁⟩ | ⟨ftp, hlen, hcopy₁, rfl⟩
  · exact .inr ⟨by simp; omega, by simp [hcopy₁]⟩
  simp only [hcopy₁, Option.bind_some]
  rcases more with _ | ⟨name, more⟩
  · exact .inl ⟨by simp [hlen], _, rfl, by simp, rfl⟩
  rcases hcopy name (by simp) nameLength with ⟨hlen', hcopy₂⟩ | ⟨fileName, hlen', hcopy₂, rfl⟩
  · exact .inr ⟨by simp; omega, by simp [hcopy₂]⟩
  rcases more with _ | ⟨_, _⟩
  · by_cases hprotocol : ftp.bytes = ascii "ftp"
    · exact .inl ⟨by simp [hlen, hlen'], .request fileName, by simp [hprotocol, hcopy₂], by simp,
        by simp [Command.name?, hprotocol]⟩
    · exact .inl ⟨by simp [hlen, hlen'], .refused .incorrectProtocol, by simp [hprotocol, hcopy₂], by simp,
        by simp [Command.name?, hprotocol]⟩
  · exact .inl ⟨by simp [hlen, hlen'], .refused .tooManyArguments, by simp [hcopy₂], by simp, rfl⟩

end Commands

/-! ### The whole input -/

/-- The texts in front of the first `done`. -/
def beforeDone (texts : List Bytes) : List Bytes := texts.takeWhile fun text => text ≠ ascii "done\n"

private theorem Plain.FitsPrompt.fitsPrompt {line : Bytes} (h : Plain.FitsPrompt line) :
    FileTransfer.FitsPrompt line := by
  obtain ⟨protocol, hfirst, hlen, hname⟩ := h
  intro protocol' hfirst'
  obtain rfl : protocol' = protocol := Option.some.inj (hfirst'.symm.trans hfirst)
  exact ⟨by omega, fun _ => hname⟩

section Prompts

variable {read : Bytes → Option Command} {Fits : Bytes → Prop} {texts : List Bytes}

private theorem beforeDone_cons {text : Bytes} (h : text ≠ ascii "done\n") (texts : List Bytes) :
    beforeDone (text :: texts) = text :: beforeDone texts := by
  rw [beforeDone, List.takeWhile_cons_of_pos (by simpa using h)]
  rfl

/-- One induction for both parts. -/
private theorem prompt_cases (hdone : read (ascii "done\n") = some .done)
    (houtcome : ∀ line, (0 : Byte) ∉ line → line ≠ ascii "done\n" → Outcome read line (Fits line))
    (hnul : ∀ text ∈ texts, (0 : Byte) ∉ text) :
    ((∀ line ∈ beforeDone texts, Fits line) ∧ prompt read texts =
      some ((beforeDone texts).filterMap asked, decide (ascii "done\n" ∈ texts))) ∨
    ((¬ ∀ line ∈ beforeDone texts, Fits line) ∧ prompt read texts = none) := by
  induction texts with
  | nil => exact .inl ⟨fun line hline => absurd hline List.not_mem_nil, rfl⟩
  | cons text texts ih =>
    by_cases hleave : text = ascii "done\n"
    · left
      simp [hleave, beforeDone, prompt, hdone]
    have hne : ascii "done\n" ≠ text := Ne.symm hleave
    have hrest := ih fun text htext => hnul text (List.mem_cons_of_mem _ htext)
    have hmem : decide (ascii "done\n" ∈ text :: texts) = decide (ascii "done\n" ∈ texts) := by
      simp only [List.mem_cons, hne, false_or]
    rw [beforeDone_cons hleave, List.forall_mem_cons, List.filterMap_cons, hmem, prompt]
    rcases houtcome text (hnul text List.mem_cons_self) hleave with ⟨hfits, c, hread, hc, hname⟩ | ⟨hfits, hread⟩
    · rw [hread, ← hname, Option.bind_some]
      cases c with
      | done => exact absurd rfl hc
      | refused why => simpa [hfits, Command.name?] using hrest
      | request fileName =>
        rcases hrest with ⟨hall, hprompt⟩ | ⟨hall, hprompt⟩
        · exact .inl ⟨⟨hfits, hall⟩, by rw [hprompt]; rfl⟩
        · exact .inr ⟨fun h => hall h.2, by rw [hprompt]; rfl⟩
    · exact .inr ⟨fun h => hfits h.1, by rw [hread]; rfl⟩

private theorem nul_not_mem_typed (stdin : Bytes) : ∀ text ∈ typed stdin, (0 : Byte) ∉ text := by
  intro text htext
  obtain ⟨piece, -, rfl⟩ := List.mem_map.1 htext
  exact nulFree_cstr piece

/-- For every input: what is opened are the names on the lines `ftp <name>` in front of `done`, as long as the words of
these lines fit.  Where the second part's arrays suffice, so do the third part's. -/
theorem prompts_read (stdin : Bytes) :
    prompt readCommand (typed stdin) = (if ∀ line ∈ beforeDone (typed stdin), FitsPrompt line then
      some ((beforeDone (typed stdin)).filterMap asked, decide (ascii "done\n" ∈ typed stdin)) else none) ∧
    prompt Plain.readCommand (typed stdin) = (if ∀ line ∈ beforeDone (typed stdin), Plain.FitsPrompt line then
      some ((beforeDone (typed stdin)).filterMap asked, decide (ascii "done\n" ∈ typed stdin)) else none) ∧
    (prompt Plain.readCommand (typed stdin) ≠ none →
      prompt readCommand (typed stdin) = prompt Plain.readCommand (typed stdin)) := by
  have hnul := nul_not_mem_typed stdin
  have hthird := prompt_cases rfl (fun _ => outcome_readCommand) hnul
  have hsecond := prompt_cases rfl (fun _ => Plain.outcome_readCommand) hnul
  refine ⟨?_, ?_, fun hdefined => ?_⟩
  · rcases hthird with ⟨hfits, hprompt⟩ | ⟨hfits, hprompt⟩
    · rw [if_pos hfits, hprompt]
    · rw [if_neg hfits, hprompt]
  · rcases hsecond with ⟨hfits, hprompt⟩ | ⟨hfits, hprompt⟩
    · rw [if_pos hfits, hprompt]
    · rw [if_neg hfits, hprompt]
  · rcases hsecond with ⟨hfits, hprompt⟩ | ⟨hfits, hprompt⟩
    · have hfits' : ∀ line ∈ beforeDone (typed stdin), FitsPrompt line := fun line hline => (hfits line hline).fitsPrompt
      rcases hthird with ⟨-, hprompt'⟩ | ⟨hfits'', -⟩
      · rw [hprompt, hprompt']
      · exact absurd hfits' hfits''
    · exact absurd hprompt hdefined

end Prompts

end FileTransfer
