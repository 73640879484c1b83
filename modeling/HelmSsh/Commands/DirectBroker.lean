/-
# The command line of the broker process on Windows

`quote_windows_argument` and the command line that `spawn_with_shell_parent` of
`src-tauri/src/direct_broker.rs` passes to `CreateProcessW`, with the rules of the C runtime
(`WindowsArguments`) as what reads it.  An argument without blanks and double quotes is written as
it is.  Any other is put between double quotes, and a run of backslashes is doubled there where a
double quote follows it: one of the argument, or the one at the end.

* `reads_quoteWindowsArgument` — every argument is read back as it was.
* `splitArguments_joinArguments` — and so is every list of them, blanks and all.
* `arguments_of_commandLine` — behind the name of the program too.

The characters of a text are read here, where the runtime reads UTF-16 code units: the surrogates
of a character stand for nothing else.
-/

import HelmSsh.Text
import HelmSsh.WindowsArguments
import Mathlib.Data.List.Induction
import Mathlib.Data.List.TakeWhile

namespace HelmSsh
namespace Commands
namespace DirectBroker

open WindowsArguments

/-- One character of the loop of `quote_windows_argument`: what was written, and the backslashes
that were counted since. -/
def quoteCharacter (quoted : List Char × ℕ) (character : Char) : List Char × ℕ :=
  if character = '\\' then
    (quoted.1, quoted.2 + 1)
  else if character = '"' then
    (quoted.1 ++ backslashes (quoted.2 * 2 + 1) ++ ['"'], 0)
  else
    (quoted.1 ++ backslashes quoted.2 ++ [character], 0)

/-- `quote_windows_argument`. -/
def quoteWindowsArgument (value : List Char) : List Char :=
  if !value.isEmpty && !value.any
    (fun character => Text.isWhitespace character || character = '"') then
    value
  else
    let quoted := value.foldl quoteCharacter (['"'], 0)
    quoted.1 ++ backslashes (quoted.2 * 2) ++ ['"']

/-- The quoted arguments, with a blank between two of them. -/
def joinArguments (args : List (List Char)) : List Char :=
  [' '].intercalate (args.map quoteWindowsArgument)

/-- The command line of `spawn_with_shell_parent`. -/
def commandLine (executable : List Char) (args : List (List Char)) : List Char :=
  args.foldl (fun line argument => line ++ ' ' :: quoteWindowsArgument argument)
    (quoteWindowsArgument executable)

/-! ### One argument -/

/-- **What the loop has written, and counted, is read back**: between the double quotes the reader
has the characters of the argument but for the backslashes that were only counted. -/
theorem read_quoteCharacter {words : List (List Char)} (value : List Char) :
    ∃ word, readAll (.start words) (value.foldl quoteCharacter (['"'], 0)).1
        = ⟨words, word, .quoted, 0⟩ ∧
      word ++ backslashes (value.foldl quoteCharacter (['"'], 0)).2 = value := by
  induction value using List.reverseRecOn with
  | nil =>
    refine ⟨[], ?_, rfl⟩
    rw [List.foldl_nil, readAll_cons, readAll_nil, step_quote_even rfl]
    simp [State.quote, State.start, backslashes]
  | append_singleton value character ih =>
    obtain ⟨word, hread, hvalue⟩ := ih
    rw [List.foldl_append, List.foldl_cons, List.foldl_nil]
    generalize value.foldl quoteCharacter (['"'], 0) = quoted at hread hvalue
    have hrun (n : ℕ) : readAll (.start words) (quoted.1 ++ backslashes n)
        = ⟨words, word, .quoted, n⟩ := by
      rw [readAll_append, hread, read_slashes _ rfl, Nat.zero_add]
    unfold quoteCharacter
    by_cases hslash : character = '\\'
    · rw [if_pos hslash]
      refine ⟨word, hread, ?_⟩
      rw [slashes_succ, ← List.append_assoc, hvalue, hslash]
    rw [if_neg hslash]
    by_cases hquote : character = '"'
    · rw [if_pos hquote]
      refine ⟨word ++ backslashes quoted.2 ++ ['"'], ?_, ?_⟩
      · rw [readAll_append, hrun, readAll_cons, readAll_nil,
          step_quote_odd (congrArg (· + 1) (Nat.mul_comm quoted.2 2))]
        rfl
      · rw [hvalue, hquote]
        exact List.append_nil _
    · rw [if_neg hquote]
      refine ⟨word ++ backslashes quoted.2 ++ [character], ?_, ?_⟩
      · rw [readAll_append, hrun, readAll_cons, readAll_nil,
          step_plain hslash hquote (Or.inr rfl)]
        rfl
      · rw [hvalue]
        exact List.append_nil _

/-- A character that is no whitespace and no double quote means nothing to the reader. -/
theorem plain_of_not_whitespace {c : Char} (h : Text.isWhitespace c = false ∧ c ≠ '"') :
    c ≠ '"' ∧ isBlank c = false := by
  refine ⟨h.2, ?_⟩
  by_contra hblank
  rw [Bool.not_eq_false, isBlank, Bool.or_eq_true, decide_eq_true_iff, decide_eq_true_iff] at hblank
  rcases hblank with rfl | rfl
  · exact absurd h.1 (by decide)
  · exact absurd h.1 (by decide)

/-- **A quoted argument is read back**, whatever stands in it. -/
theorem reads_quoteWindowsArgument (words : List (List Char)) (value : List Char) :
    Reads (readAll (.start words) (quoteWindowsArgument value)) words value := by
  unfold quoteWindowsArgument
  split_ifs with hplain
  · obtain ⟨hne, hplain⟩ := Bool.and_eq_true_iff.mp hplain
    refine reads_plainText (by simpa using hne) fun c hc => ?_
    rw [Bool.not_eq_true', List.any_eq_false] at hplain
    exact plain_of_not_whitespace (by simpa using hplain c hc)
  · obtain ⟨word, hread, hvalue⟩ := @read_quoteCharacter words value
    rw [readAll_append, readAll_append, hread, read_slashes _ rfl, Nat.zero_add, readAll_cons,
      readAll_nil, step_quote_even (Nat.mul_mod_left ..)]
    refine ⟨rfl, ?_, by simp [State.quote], by simp [State.quote]⟩
    simpa [State.quote, backslashes] using hvalue

/-! ### The joined arguments -/

/-- A quoted argument has no NUL unless the argument has. -/
theorem nul_notMem_quoteWindowsArgument {value : List Char} (h : '\x00' ∉ value) :
    '\x00' ∉ quoteWindowsArgument value := by
  have hslashes (n : ℕ) : '\x00' ∉ backslashes n := fun hc =>
    absurd (List.eq_of_mem_replicate hc) (by decide)
  have hloop : '\x00' ∉ (value.foldl quoteCharacter (['"'], 0)).1 := by
    induction value using List.reverseRecOn with
    | nil => decide
    | append_singleton value character ih =>
      have hquoted := ih fun hc => h (List.mem_append_left _ hc)
      have hquote : '\x00' ≠ '"' := by decide
      have hcharacter : '\x00' ≠ character := fun heq => h (heq ▸ by simp)
      rw [List.foldl_append, List.foldl_cons, List.foldl_nil]
      generalize value.foldl quoteCharacter (['"'], 0) = quoted at hquoted
      unfold quoteCharacter
      split_ifs
      · exact hquoted
      · simp [hquoted, hslashes, hquote]
      · simp [hquoted, hslashes, hcharacter]
  have hquote : '\x00' ≠ '"' := by decide
  unfold quoteWindowsArgument
  split_ifs
  · exact h
  · simp [hloop, hslashes, hquote]

theorem joinArguments_cons_cons (value next : List Char) (args : List (List Char)) :
    joinArguments (value :: next :: args)
      = quoteWindowsArgument value ++ ' ' :: joinArguments (next :: args) := by
  simp [joinArguments, List.intercalate]

/-- **The arguments of a joined command line**, read from between two arguments. -/
theorem finish_joinArguments (words args : List (List Char)) :
    (readAll (.start words) (joinArguments args)).finish = words ++ args := by
  induction args generalizing words with
  | nil => simp [joinArguments, State.finish, State.start]
  | cons value args ih =>
    have hvalue := reads_quoteWindowsArgument words value
    cases args with
    | nil => simpa [joinArguments] using hvalue.finish
    | cons next args =>
      rw [joinArguments_cons_cons, readAll_append, readAll_cons, hvalue.blank, ih]
      simp

/-- A joined command line has no NUL unless an argument has. -/
theorem nul_notMem_joinArguments {args : List (List Char)} (h : ∀ value ∈ args, '\x00' ∉ value) :
    '\x00' ∉ joinArguments args := by
  induction args with
  | nil => simp [joinArguments]
  | cons value args ih =>
    obtain ⟨hvalue, hargs⟩ := List.forall_mem_cons.mp h
    have hvalue := nul_notMem_quoteWindowsArgument hvalue
    cases args with
    | nil => simpa [joinArguments] using hvalue
    | cons next args =>
      simp [joinArguments_cons_cons, hvalue, ih hargs]

/-- **The quoting is undone by the reader.**  The arguments of a command line that joins the quoted
arguments with blanks are these arguments, empty ones, quotes and trailing backslashes included. -/
theorem splitArguments_joinArguments (args : List (List Char))
    (hargs : ∀ value ∈ args, '\x00' ∉ value) :
    splitArguments (joinArguments args) = args := by
  have hline : (joinArguments args).takeWhile (· ≠ '\x00') = joinArguments args := by
    refine List.takeWhile_eq_self_iff.mpr fun c hc => decide_eq_true ?_
    rintro rfl
    exact nul_notMem_joinArguments hargs hc
  rw [splitArguments, hline, finish_joinArguments]
  rfl

/-- A trailing backslash after a blank, an empty argument, and a quote after a backslash. -/
theorem splitArguments_joinArguments_trailing :
    splitArguments (joinArguments ["a \\".toList, [], "\\\"".toList])
      = ["a \\".toList, [], "\\\"".toList] :=
  splitArguments_joinArguments _ (by decide)

/-! ### The command line -/

/-- The command line is the program's name with the arguments behind it, each after a blank. -/
theorem commandLine_eq (executable : List Char) (args : List (List Char)) :
    commandLine executable args
      = quoteWindowsArgument executable ++ args.flatMap (' ' :: quoteWindowsArgument ·) := by
  unfold commandLine
  generalize quoteWindowsArgument executable = line
  induction args generalizing line with
  | nil => simp
  | cons value args ih => rw [List.foldl_cons, ih, List.flatMap_cons, List.append_assoc]

/-- Without double quotes, the loop writes none but the one that it starts with. -/
theorem quoteCharacter_quote_notMem {value : List Char} (h : '"' ∉ value) :
    ∃ body, (value.foldl quoteCharacter (['"'], 0)).1 = '"' :: body ∧ '"' ∉ body := by
  have hslashes (n : ℕ) : '"' ∉ backslashes n := fun hc =>
    absurd (List.eq_of_mem_replicate hc) (by decide)
  induction value using List.reverseRecOn with
  | nil => exact ⟨[], rfl, List.not_mem_nil⟩
  | append_singleton value character ih =>
    obtain ⟨body, hquoted, hbody⟩ := ih fun hc => h (List.mem_append_left _ hc)
    have hcharacter : '"' ≠ character := fun heq => h (heq ▸ by simp)
    rw [List.foldl_append, List.foldl_cons, List.foldl_nil]
    generalize value.foldl quoteCharacter (['"'], 0) = quoted at hquoted
    unfold quoteCharacter
    by_cases hslash : character = '\\'
    · rw [if_pos hslash]
      exact ⟨body, hquoted, hbody⟩
    · rw [if_neg hslash, if_neg hcharacter.symm, hquoted]
      refine ⟨body ++ backslashes quoted.2 ++ [character], by simp, ?_⟩
      simp [hbody, hslashes, hcharacter]

/-- **The name of the program ends where it was quoted to end**, if it has no double quote, as no
name of a file has on Windows. -/
theorem afterProgram_quoteWindowsArgument {executable : List Char} (h : '"' ∉ executable)
    (rest : List Char) :
    afterProgram false (quoteWindowsArgument executable ++ rest) = afterProgram false rest := by
  unfold quoteWindowsArgument
  split_ifs with hplain
  · obtain ⟨-, hplain⟩ := Bool.and_eq_true_iff.mp hplain
    refine afterProgram_plain fun c hc => ?_
    rw [Bool.not_eq_true', List.any_eq_false] at hplain
    exact plain_of_not_whitespace (by simpa using hplain c hc)
  · obtain ⟨body, hquoted, hbody⟩ := quoteCharacter_quote_notMem h
    have hslashes (n : ℕ) : '"' ∉ backslashes n := fun hc =>
      absurd (List.eq_of_mem_replicate hc) (by decide)
    generalize executable.foldl quoteCharacter (['"'], 0) = quoted at hquoted
    have htext : quoted.1 ++ backslashes (quoted.2 * 2) ++ ['"'] ++ rest
        = '"' :: (body ++ backslashes (quoted.2 * 2) ++ '"' :: rest) := by
      simp [hquoted]
    change afterProgram false (quoted.1 ++ backslashes (quoted.2 * 2) ++ ['"'] ++ rest) = _
    rw [htext]
    exact afterProgram_quoted (by simp [hbody, hslashes]) rest

/-- **The broker gets its arguments**: those of the command line of the process, behind the name
of its program. -/
theorem arguments_of_commandLine {executable : List Char} (hexecutable : '"' ∉ executable)
    (args : List (List Char)) :
    (readAll (.start []) (afterProgram false (commandLine executable args))).finish = args := by
  rw [commandLine_eq, afterProgram_quoteWindowsArgument hexecutable]
  cases args with
  | nil => rfl
  | cons value args =>
    have hjoin : (value :: args).flatMap (' ' :: quoteWindowsArgument ·)
        = ' ' :: joinArguments (value :: args) := by
      induction args generalizing value with
      | nil => simp [joinArguments]
      | cons next args ih =>
        rw [List.flatMap_cons, ih next, joinArguments_cons_cons]
        rfl
    rw [hjoin, afterProgram_blank, readAll_cons]
    exact finish_joinArguments [] _

theorem arguments_of_commandLine_path : (readAll (.start []) (afterProgram false
    (commandLine "helm.exe".toList ["C:\\My Files\\".toList]))).finish =
      ["C:\\My Files\\".toList] :=
  arguments_of_commandLine (by decide) _

end DirectBroker
end Commands
end HelmSsh
