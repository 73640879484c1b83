/-
# How a shell cuts a command line into words

The token recognition of the POSIX shell, character by character: blanks and operators between
words, the three ways of quoting, and, of the expansions, a parameter with a default
(`${name:-word}`) between double quotes.  A word keeps of each of its characters whether it was
quoted: only the others can mean anything to what the shell does with the word afterwards.  Every
other expansion, and a quotation that is not closed, is no command line here.

* `lex_append` — what is read of two texts, one after the other.
* `quote`, `lex_quote` — a text in single quotes, with each single quote in it put outside, is
  read as the text, each character quoted, as a part of one word.
* `tokenize_of_lex` — a command line whose last word is quoted.
-/

import Mathlib.Data.Nat.Notation
import Mathlib.Tactic.Common

namespace ShellWords

/-- A part of a word. -/
inductive Piece
  /-- A character that was not quoted. -/
  | plain (c : Char)
  /-- A character that stands for itself. -/
  | quoted (c : Char)
  /-- The value of a parameter, between double quotes. -/
  | param (name fallback : List Char)
  deriving DecidableEq

/-- What a command line is cut into. -/
inductive Token
  | word (pieces : List Piece)
  /-- The number before a redirection. -/
  | ioNumber (digits : List Char)
  | op (text : List Char)
  deriving DecidableEq

/-- Where the reader stands. -/
inductive Mode
  /-- Outside of all quotes. -/
  | plain
  /-- After a backslash outside of all quotes. -/
  | escape
  | single
  | double
  /-- After a backslash between double quotes. -/
  | doubleEscape
  /-- After a dollar sign between double quotes. -/
  | dollar
  | paramName (name : List Char)
  | paramColon (name : List Char)
  | paramFallback (name fallback : List Char)
  | comment
  /-- In an operator. -/
  | op (text : List Char)
  deriving DecidableEq

/-- What was read: the tokens, and the word that is not ended. -/
structure State where
  tokens : List Token
  word : Option (List Piece)
  mode : Mode
  deriving DecidableEq

/-- Nothing was read. -/
def State.start : State := ⟨[], none, .plain⟩

/-- The operators of more than one character. -/
def longOps : List (List Char) :=
  ["&&", "||", ";;", "<<", ">>", "<&", ">&", "<>", "<<-", ">|"].map String.toList

/-- The characters that operators start with. -/
def isOpStart (c : Char) : Bool :=
  c = '|' || c = '&' || c = ';' || c = '<' || c = '>' || c = '(' || c = ')'

/-- A character of a name. -/
def isNameChar (c : Char) : Bool :=
  c.isAlphanum || c = '_'

/-- The digits of a word that is a number. -/
def digitsOf : List Piece → Option (List Char)
  | [] => some []
  | .plain c :: pieces => if c.isDigit then (digitsOf pieces).map (c :: ·) else none
  | _ :: _ => none

namespace State

/-- The word goes on with a piece. -/
def push (s : State) (piece : Piece) : State :=
  { s with word := some (s.word.getD [] ++ [piece]) }

/-- The word is ended. -/
def endWord (s : State) : State :=
  match s.word with
  | none => s
  | some pieces => { s with tokens := s.tokens ++ [.word pieces], word := none }

/-- The word before an operator is ended: digits before a redirection are its number. -/
def endBefore (s : State) (c : Char) : State :=
  match s.word with
  | some (piece :: pieces) =>
    if c = '<' ∨ c = '>' then
      match digitsOf (piece :: pieces) with
      | some digits => { s with tokens := s.tokens ++ [.ioNumber digits], word := none }
      | none => s.endWord
    else s.endWord
  | _ => s.endWord

/-- A character outside of all quotes. -/
def plain (s : State) (c : Char) : Option State :=
  if c = ' ' ∨ c = '\t' then some s.endWord
  else if c = '\n' then
    some { s.endWord with tokens := s.endWord.tokens ++ [.op ['\n']] }
  else if isOpStart c then some { s.endBefore c with mode := .op [c] }
  else if c = '\\' then some { s with mode := .escape }
  else if c = '\'' then some { s with word := some (s.word.getD []), mode := .single }
  else if c = '"' then some { s with word := some (s.word.getD []), mode := .double }
  else if c = '$' ∨ c = '\x60' then none
  else if c = '#' ∧ s.word = none then some { s with mode := .comment }
  else some (s.push (.plain c))

/-- Operators are compared as texts. -/
local instance lawfulOps : LawfulBEq (List Char) := inferInstance

/-- One character. -/
def step (s : State) (c : Char) : Option State :=
  match s.mode with
  | .plain => s.plain c
  | .escape =>
    if c = '\n' then some { s with mode := .plain }
    else some { s.push (.quoted c) with mode := .plain }
  | .single =>
    if c = '\'' then some { s with mode := .plain } else some (s.push (.quoted c))
  | .double =>
    if c = '"' then some { s with mode := .plain }
    else if c = '\\' then some { s with mode := .doubleEscape }
    else if c = '$' then some { s with mode := .dollar }
    else if c = '\x60' then none
    else some (s.push (.quoted c))
  | .doubleEscape =>
    if c = '\n' then some { s with mode := .double }
    else if c = '$' ∨ c = '\x60' ∨ c = '"' ∨ c = '\\' then
      some { s.push (.quoted c) with mode := .double }
    else some { (s.push (.quoted '\\')).push (.quoted c) with mode := .double }
  | .dollar => if c = '{' then some { s with mode := .paramName [] } else none
  | .paramName name =>
    if c = ':' then some { s with mode := .paramColon name }
    else if isNameChar c then some { s with mode := .paramName (name ++ [c]) }
    else none
  | .paramColon name => if c = '-' then some { s with mode := .paramFallback name [] } else none
  | .paramFallback name fallback =>
    if c = '}' then some { s.push (.param name fallback) with mode := .double }
    else if c = '\'' ∨ c = '"' ∨ c = '\\' ∨ c = '$' ∨ c = '\x60' then none
    else some { s with mode := .paramFallback name (fallback ++ [c]) }
  | .comment =>
    if c = '\n' then some { s with tokens := s.tokens ++ [.op ['\n']], mode := .plain } else some s
  | .op text =>
    if text ++ [c] ∈ longOps then some { s with mode := .op (text ++ [c]) }
    else plain { s with tokens := s.tokens ++ [.op text], mode := .plain } c

/-- The tokens, when nothing is left open. -/
def finish (s : State) : Option (List Token) :=
  match s.mode with
  | .plain | .comment => some s.endWord.tokens
  | .op text => some (s.tokens ++ [.op text])
  | _ => none

end State

/-- What is read of a text. -/
def lex : State → List Char → Option State
  | s, [] => some s
  | s, c :: text => (s.step c).bind fun s => lex s text

/-- The tokens of a command line. -/
def tokenize (line : List Char) : Option (List Token) :=
  (lex .start line).bind State.finish

/-! ### Quoting -/

/-- A text in single quotes; a single quote in it is put between two quoted texts. -/
def quote (text : List Char) : List Char :=
  '\'' :: (text.flatMap fun c => if c = '\'' then ['\'', '\\', '\'', '\''] else [c]) ++ ['\'']

/-- A text that was quoted. -/
def quotedPieces (text : List Char) : List Piece :=
  text.map .quoted

variable {s s' : State} {text more : List Char}

/-- **Two texts are read one after the other.** -/
theorem lex_append (h : lex s text = some s') : lex s (text ++ more) = lex s' more := by
  induction text generalizing s with
  | nil =>
    obtain rfl := Option.some.inj h
    rfl
  | cons c text ih =>
    rw [lex] at h
    rw [List.cons_append, lex]
    cases hstep : s.step c with
    | none =>
      rw [hstep] at h
      cases h
    | some next =>
      rw [hstep] at h
      exact ih h

/-- **Between single quotes every character stands for itself.** -/
theorem lex_single (tokens : List Token) (pieces : List Piece) (text : List Char) :
    lex ⟨tokens, some pieces, .single⟩
        ((text.flatMap fun c => if c = '\'' then ['\'', '\\', '\'', '\''] else [c]) ++ ['\''])
      = some ⟨tokens, some (pieces ++ quotedPieces text), .plain⟩ := by
  induction text generalizing pieces with
  | nil =>
    rw [quotedPieces, List.map_nil, List.append_nil]
    rfl
  | cons c text ih =>
    have hnext : pieces ++ quotedPieces (c :: text)
        = pieces ++ [Piece.quoted c] ++ quotedPieces text := by
      rw [List.append_assoc]
      rfl
    rw [List.flatMap_cons, List.append_assoc, hnext, ← ih (pieces ++ [Piece.quoted c])]
    split_ifs with hquote
    · subst hquote
      rfl
    · have hstep : lex ⟨tokens, some pieces, .single⟩ [c]
          = some ⟨tokens, some (pieces ++ [.quoted c]), .single⟩ := by
        rw [lex, State.step]
        dsimp only
        rw [if_neg hquote]
        rfl
      exact lex_append hstep

/-- **A quoted text is read as a part of one word.** -/
theorem lex_quote (tokens : List Token) (word : Option (List Piece)) (text : List Char) :
    lex ⟨tokens, word, .plain⟩ (quote text)
      = some ⟨tokens, some (word.getD [] ++ quotedPieces text), .plain⟩ :=
  lex_single tokens (word.getD []) text

theorem lex_then {s'' : State} (h : lex s text = some s') (hmore : lex s' more = some s'') :
    lex s (text ++ more) = some s'' :=
  (lex_append h).trans hmore

theorem lex_then_quote {tokens : List Token} {word : Option (List Piece)}
    (h : lex s text = some ⟨tokens, word, .plain⟩) (quoted : List Char) :
    lex s (text ++ quote quoted)
      = some ⟨tokens, some (word.getD [] ++ quotedPieces quoted), .plain⟩ :=
  lex_then h (lex_quote tokens word quoted)

theorem tokenize_of_lex {tokens : List Token} {pieces : List Piece} {line : List Char}
    (h : lex .start line = some ⟨tokens, some pieces, .plain⟩) :
    tokenize line = some (tokens ++ [.word pieces]) := by
  rw [tokenize, h]
  rfl

/-- **A quoted text alone is one word.** -/
theorem tokenize_quote (text : List Char) :
    tokenize (quote text) = some [.word (quotedPieces text)] :=
  tokenize_of_lex (lex_quote [] none text)

/-! ### The text of a word -/

/-- The text of a word, when each of its characters stands for itself. -/
def literal : List Piece → Option (List Char)
  | [] => some []
  | .quoted c :: pieces => (literal pieces).map (c :: ·)
  | _ :: _ => none

/-- **A quoted text comes back as it is.** -/
@[simp] theorem literal_quotedPieces (text : List Char) :
    literal (quotedPieces text) = some text := by
  induction text with
  | nil => rfl
  | cons c text ih =>
    change (literal (quotedPieces text)).map (c :: ·) = _
    rw [ih]
    rfl

/-- A quoted text is never expanded, whatever is in it. -/
example : tokenize (quote "a $(b) 'c'\n\\".toList ++ " # d".toList)
    = some [.word (quotedPieces "a $(b) 'c'\n\\".toList)] := by decide

end ShellWords
