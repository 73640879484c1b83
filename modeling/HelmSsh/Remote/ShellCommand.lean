/-
# The command lines for the remote shell

`shell_quote`, `remote_file_command` and `build_remote_find_command` of
`src-tauri/src/remote/sftp.rs` and `wrap_tracked_exec_command` of `src-tauri/src/remote/ssh.rs`,
with the token recognition of the POSIX shell (`ShellWords`) as what reads them.  Each text that
comes from outside is quoted once for each shell that it goes through: a script with its arguments
is a command line, which is quoted again as the argument of the login shell.

* `tokenize_remoteFileCommand`, `tokenize_buildRemoteFindCommand`,
  `tokenize_wrapTrackedExecCommand` — the words of each command line.
* `command_lines_read_back` — these together, for every text, and one inside the other.

The characters of a text are read here, where the shell reads bytes: in UTF-8 the bytes of quotes
and blanks stand for nothing else.
-/

import HelmSsh.Remote.SftpPath
import HelmSsh.ShellWords

namespace HelmSsh
namespace Remote
namespace ShellCommand

open ShellWords

/-- `shell_quote`. -/
def shellQuote (value : List Char) : List Char :=
  quote value

/-- `remote_file_command`. -/
def remoteFileCommand (script : List Char) (args : List (List Char)) : List Char :=
  args.foldl (fun command arg => command ++ ' ' :: shellQuote arg)
    ("sh -lc ".toList ++ shellQuote script ++ " sh".toList)

/-- `build_remote_find_command`. -/
def buildRemoteFindCommand (basePath : String) (keyword : List Char) : List Char :=
  let pattern := '*' :: keyword ++ ['*']
  "command -v find >/dev/null 2>&1 && find ".toList
    ++ shellQuote (SftpPath.normalizeRemotePath basePath).toList ++ " -iname ".toList
    ++ shellQuote pattern ++ " -print -quit 2>/dev/null".toList

/-- `wrap_tracked_exec_command`. -/
def wrapTrackedExecCommand (token command : List Char) : List Char :=
  "exec env HELM_EXEC_TOKEN=".toList ++ shellQuote token
    ++ " \"$\x7bSHELL:-/bin/sh\x7d\" -c ".toList ++ shellQuote command

/-- A word that is written without quotes. -/
def bare (text : String) : Token :=
  .word (text.toList.map .plain)

/-- A word that is a quoted text. -/
def quotedWord (text : List Char) : Token :=
  .word (quotedPieces text)

/-- An operator. -/
def oper (text : String) : Token :=
  .op text.toList

/-! ### The words of each command line -/

theorem lex_args (tokens : List Token) (pieces : List Piece) (front : List Char)
    (h : lex .start front = some ⟨tokens, some pieces, .plain⟩) (args : List (List Char)) :
    tokenize (args.foldl (fun command arg => command ++ ' ' :: shellQuote arg) front)
      = some (tokens ++ [.word pieces] ++ args.map quotedWord) := by
  induction args generalizing tokens pieces front with
  | nil =>
    rw [List.map_nil, List.append_nil]
    exact tokenize_of_lex h
  | cons arg args ih =>
    have hnext : lex .start (front ++ ' ' :: shellQuote arg)
        = some ⟨tokens ++ [.word pieces], some (quotedPieces arg), .plain⟩ :=
      lex_then h (lex_quote _ none arg)
    rw [List.foldl_cons, ih _ _ _ hnext, List.map_cons, List.append_assoc (tokens ++ _)]
    rfl

/-- **The script and each argument are one word.** -/
theorem tokenize_remoteFileCommand (script : List Char) (args : List (List Char)) :
    tokenize (remoteFileCommand script args)
      = some ([bare "sh", bare "-lc", quotedWord script, bare "sh"] ++ args.map quotedWord) := by
  have hstart : lex .start "sh -lc ".toList = some ⟨[bare "sh", bare "-lc"], none, .plain⟩ := by
    decide +kernel
  have hscript := lex_then_quote hstart script
  have hend : ∀ tokens pieces, lex ⟨tokens, some pieces, .plain⟩ " sh".toList
      = some ⟨tokens ++ [.word pieces], some ("sh".toList.map .plain), .plain⟩ :=
    fun _ _ => rfl
  exact lex_args _ _ _ (lex_then hscript (hend _ _)) args

/-- **The directory and the pattern are one word each.** -/
theorem tokenize_buildRemoteFindCommand (basePath : String) (keyword : List Char) :
    tokenize (buildRemoteFindCommand basePath keyword)
      = some [bare "command", bare "-v", bare "find", oper ">", bare "/dev/null",
          .ioNumber ['2'], oper ">&", bare "1", oper "&&", bare "find",
          quotedWord (SftpPath.normalizeRemotePath basePath).toList, bare "-iname",
          quotedWord ('*' :: keyword ++ ['*']), bare "-print", bare "-quit", .ioNumber ['2'],
          oper ">", bare "/dev/null"] := by
  have hstart : lex .start "command -v find >/dev/null 2>&1 && find ".toList
      = some ⟨[bare "command", bare "-v", bare "find", oper ">", bare "/dev/null", .ioNumber ['2'],
          oper ">&", bare "1", oper "&&", bare "find"], none, .plain⟩ := by decide +kernel
  have hbase := lex_then_quote hstart (SftpPath.normalizeRemotePath basePath).toList
  have hname : ∀ tokens pieces, lex ⟨tokens, some pieces, .plain⟩ " -iname ".toList
      = some ⟨tokens ++ [.word pieces] ++ [bare "-iname"], none, .plain⟩ := fun _ _ => rfl
  have hpattern := lex_then_quote (lex_then hbase (hname _ _)) ('*' :: keyword ++ ['*'])
  have hend : ∀ tokens pieces, lex ⟨tokens, some pieces, .plain⟩ " -print -quit 2>/dev/null".toList
      = some ⟨tokens ++ [.word pieces] ++ [bare "-print"] ++ [bare "-quit"] ++ [.ioNumber ['2']] ++
          [oper ">"], some ("/dev/null".toList.map .plain), .plain⟩ := fun _ _ => rfl
  exact tokenize_of_lex (lex_then hpattern (hend _ _))

/-- **The token and the command are one word each**, and the shell is taken as it is named. -/
theorem tokenize_wrapTrackedExecCommand (token command : List Char) :
    tokenize (wrapTrackedExecCommand token command)
      = some [bare "exec", bare "env",
          .word ("HELM_EXEC_TOKEN=".toList.map .plain ++ quotedPieces token),
          .word [.param "SHELL".toList "/bin/sh".toList], bare "-c", quotedWord command] := by
  have hstart : lex .start "exec env HELM_EXEC_TOKEN=".toList
      = some ⟨[bare "exec", bare "env"], some ("HELM_EXEC_TOKEN=".toList.map .plain), .plain⟩ := by
    decide +kernel
  have htoken := lex_then_quote hstart token
  have hshell : ∀ tokens pieces,
      lex ⟨tokens, some pieces, .plain⟩ " \"$\x7bSHELL:-/bin/sh\x7d\" -c ".toList
        = some ⟨tokens ++ [.word pieces] ++ [.word [.param "SHELL".toList "/bin/sh".toList]] ++
            [bare "-c"], none, .plain⟩ := fun _ _ => rfl
  exact tokenize_of_lex (lex_then_quote (lex_then htoken (hshell _ _)) command)

/-- The text of the last word of a command line. -/
def lastArgument (line : List Char) : Option (List Char) :=
  (tokenize line).bind fun tokens =>
    match tokens.getLast? with
    | some (.word pieces) => literal pieces
    | _ => none

/-- **The command lines are read back as they were meant**, for every text: a quoted text is one
word of which every character stands for itself, and the command that a shell is given by another
one is the command that was built for it. -/
theorem command_lines_read_back (token script command keyword : List Char)
    (args : List (List Char)) (basePath : String) :
    tokenize (shellQuote command) = some [quotedWord command] ∧
      literal (quotedPieces command) = some command ∧
      tokenize (remoteFileCommand script args)
        = some ([bare "sh", bare "-lc", quotedWord script, bare "sh"] ++ args.map quotedWord) ∧
      tokenize (buildRemoteFindCommand basePath keyword)
        = some [bare "command", bare "-v", bare "find", oper ">", bare "/dev/null",
            .ioNumber ['2'], oper ">&", bare "1", oper "&&", bare "find",
            quotedWord (SftpPath.normalizeRemotePath basePath).toList, bare "-iname",
            quotedWord ('*' :: keyword ++ ['*']), bare "-print", bare "-quit", .ioNumber ['2'],
            oper ">", bare "/dev/null"] ∧
      tokenize (wrapTrackedExecCommand token command)
        = some [bare "exec", bare "env",
            .word ("HELM_EXEC_TOKEN=".toList.map .plain ++ quotedPieces token),
            .word [.param "SHELL".toList "/bin/sh".toList], bare "-c", quotedWord command] ∧
      lastArgument (wrapTrackedExecCommand token command) = some command ∧
      (lastArgument (wrapTrackedExecCommand token (remoteFileCommand script args))).bind tokenize
        = some ([bare "sh", bare "-lc", quotedWord script, bare "sh"] ++ args.map quotedWord) := by
  have hlast : ∀ command, lastArgument (wrapTrackedExecCommand token command) = some command := by
    intro command
    rw [lastArgument, tokenize_wrapTrackedExecCommand]
    exact literal_quotedPieces command
  refine ⟨tokenize_quote command, literal_quotedPieces command,
    tokenize_remoteFileCommand script args, tokenize_buildRemoteFindCommand basePath keyword,
    tokenize_wrapTrackedExecCommand token command, hlast command, ?_⟩
  rw [hlast]
  exact tokenize_remoteFileCommand script args

end ShellCommand
end Remote
end HelmSsh
