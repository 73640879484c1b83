/-
# How a Windows program cuts its command line into arguments

The rules of the C runtime for the arguments after the program's name, character by character.
Blanks between arguments are skipped, double quotes hold blanks together, and backslashes stand
for themselves unless a double quote follows them: then each two are one, and one that is left
over makes the quote a character of the argument.  Between double quotes, two double quotes are
one that stands for itself.  The command line ends at its first NUL.

* `read_slashes` — a run of backslashes is counted, whatever it will turn out to stand for.
* `Reads` — an argument that may end here: a blank or the end of the line ends it (`Reads.blank`,
  `Reads.finish`).
* `afterProgram` — what stands behind the program's name, where other rules hold.
-/

import Mathlib.Data.Nat.Notation
import Mathlib.Tactic.Common

namespace WindowsArguments

/-- Where the reader stands. -/
inductive Mode
  /-- Between two arguments. -/
  | between
  /-- In an argument, outside of double quotes. -/
  | plain
  /-- Between double quotes. -/
  | quoted
  /-- After the quote that ended them, unless it is the first of two. -/
  | closed
  deriving DecidableEq

/-- The mode after a character of an argument. -/
def Mode.inWord : Mode → Mode
  | .quoted => .quoted
  | _ => .plain

/-- What was read: the arguments, the one that is not ended, and the backslashes that stand last. -/
structure State where
  words : List (List Char)
  word : List Char
  mode : Mode
  slashes : ℕ
  deriving DecidableEq

/-- Between two arguments, after `words`. -/
def State.start (words : List (List Char)) : State :=
  ⟨words, [], .between, 0⟩

/-- The blanks that separate arguments. -/
def isBlank (c : Char) : Bool :=
  c = ' ' || c = '\t'

/-- The backslashes that stand for themselves. -/
def backslashes (n : ℕ) : List Char :=
  List.replicate n '\\'

/-- A double quote, after an even number of backslashes. -/
def State.quote (s : State) : State :=
  match s.mode with
  | .quoted => ⟨s.words, s.word ++ backslashes (s.slashes / 2), .closed, 0⟩
  | .closed => ⟨s.words, s.word ++ backslashes (s.slashes / 2) ++ ['"'], .quoted, 0⟩
  | _ => ⟨s.words, s.word ++ backslashes (s.slashes / 2), .quoted, 0⟩

/-- One more character. -/
def step (s : State) (c : Char) : State :=
  if c = '\\' then
    ⟨s.words, s.word, s.mode.inWord, s.slashes + 1⟩
  else if c = '"' then
    if s.slashes % 2 = 1 then
      ⟨s.words, s.word ++ backslashes (s.slashes / 2) ++ ['"'], s.mode.inWord, 0⟩
    else
      s.quote
  else if isBlank c && s.mode != .quoted then
    if s.mode = .between then s
    else .start (s.words ++ [s.word ++ backslashes s.slashes])
  else
    ⟨s.words, s.word ++ backslashes s.slashes ++ [c], s.mode.inWord, 0⟩

/-- The characters of a text, one after the other. -/
def readAll (s : State) (text : List Char) : State :=
  text.foldl step s

/-- The end of the command line. -/
def State.finish (s : State) : List (List Char) :=
  if s.mode = .between then s.words else s.words ++ [s.word ++ backslashes s.slashes]

/-- **The arguments of a command line** after the program's name. -/
def splitArguments (line : List Char) : List (List Char) :=
  (readAll (.start []) (line.takeWhile (· ≠ '\x00'))).finish

/-- What stands behind the program's name, which double quotes hold together and in which
backslashes mean nothing. -/
def afterProgram : Bool → List Char → List Char
  | _, [] => []
  | quoted, c :: text =>
    if c = '"' then afterProgram (!quoted) text
    else if isBlank c && !quoted then c :: text
    else afterProgram quoted text

@[simp] theorem readAll_nil (s : State) : readAll s [] = s :=
  rfl

@[simp] theorem readAll_cons (s : State) (c : Char) (text : List Char) :
    readAll s (c :: text) = readAll (step s c) text :=
  rfl

theorem readAll_append (s : State) (text rest : List Char) :
    readAll s (text ++ rest) = readAll (readAll s text) rest :=
  List.foldl_append ..

theorem slashes_succ (n : ℕ) : backslashes (n + 1) = backslashes n ++ ['\\'] :=
  List.replicate_succ'

/-! ### One character -/

theorem step_slash (s : State) :
    step s '\\' = ⟨s.words, s.word, s.mode.inWord, s.slashes + 1⟩ :=
  rfl

theorem step_quote_odd {s : State} {n : ℕ} (h : s.slashes = 2 * n + 1) :
    step s '"' = ⟨s.words, s.word ++ backslashes n ++ ['"'], s.mode.inWord, 0⟩ := by
  have hodd : s.slashes % 2 = 1 := by omega
  have hhalf : s.slashes / 2 = n := by omega
  unfold step
  rw [if_neg (by decide), if_pos rfl, if_pos hodd, hhalf]

theorem step_quote_even {s : State} (h : s.slashes % 2 = 0) : step s '"' = s.quote := by
  unfold step
  rw [if_neg (by decide), if_pos rfl, if_neg (by omega)]

/-- **A character that means nothing to the reader** is put after the backslashes before it, which
stand for themselves. -/
theorem step_plain {s : State} {c : Char} (hslash : c ≠ '\\') (hquote : c ≠ '"')
    (hblank : isBlank c = false ∨ s.mode = .quoted) :
    step s c = ⟨s.words, s.word ++ backslashes s.slashes ++ [c], s.mode.inWord, 0⟩ := by
  have hno : ¬ (isBlank c && s.mode != .quoted) = true := by
    rcases hblank with hblank | hmode
    · simp [hblank]
    · simp [hmode]
  unfold step
  rw [if_neg hslash, if_neg hquote, if_neg hno]

/-- **A run of backslashes is counted.** -/
theorem read_slashes (s : State) (hmode : s.mode = .quoted) (n : ℕ) :
    readAll s (backslashes n) = ⟨s.words, s.word, .quoted, s.slashes + n⟩ := by
  induction n with
  | zero =>
    rw [← hmode]
    rfl
  | succ n ih =>
    rw [slashes_succ, readAll_append, ih, readAll_cons, readAll_nil, step_slash]
    rfl

/-! ### The end of an argument -/

/-- **The argument `word` was read, and may end here**, after the arguments `words`. -/
structure Reads (s : State) (words : List (List Char)) (word : List Char) : Prop where
  words : s.words = words
  word : s.word ++ backslashes s.slashes = word
  began : s.mode ≠ .between
  unquoted : s.mode ≠ .quoted

variable {words : List (List Char)}

theorem Reads.blank {s : State} {word : List Char}
    (h : Reads s words word) : step s ' ' = .start (words ++ [word]) := by
  have hblank : (isBlank ' ' && s.mode != .quoted) = true := by
    simpa [isBlank] using h.unquoted
  unfold step
  rw [if_neg (by decide), if_neg (by decide), if_pos hblank, if_neg h.began, h.words, h.word]

theorem Reads.finish {s : State} {word : List Char}
    (h : Reads s words word) : s.finish = words ++ [word] := by
  rw [State.finish, if_neg h.began, h.words, h.word]

/-- A character that means nothing to the reader is one more of the argument. -/
theorem Reads.plain {s : State} {word : List Char}
    (h : Reads s words word) {c : Char} (hquote : c ≠ '"') (hblank : isBlank c = false) :
    Reads (step s c) words (word ++ [c]) := by
  have hmode : s.mode.inWord = .plain := by
    have := h.unquoted
    cases hcase : s.mode <;> simp_all [Mode.inWord]
  by_cases hslash : c = '\\'
  · subst hslash
    rw [step_slash, hmode]
    refine ⟨h.words, ?_, by simp, by simp⟩
    rw [slashes_succ, ← List.append_assoc, h.word]
  · rw [step_plain hslash hquote (Or.inl hblank), hmode]
    refine ⟨h.words, ?_, by simp, by simp⟩
    rw [h.word]
    exact List.append_nil _

/-- A text of such characters, after the argument has begun. -/
theorem Reads.plainText {s : State} {word : List Char} (h : Reads s words word) {text : List Char}
    (htext : ∀ c ∈ text, c ≠ '"' ∧ isBlank c = false) :
    Reads (readAll s text) words (word ++ text) := by
  induction text generalizing s word with
  | nil => simpa using h
  | cons c text ih =>
    obtain ⟨⟨hquote, hblank⟩, htext⟩ := List.forall_mem_cons.mp htext
    rw [readAll_cons, List.append_cons]
    exact ih (h.plain hquote hblank) htext

/-- **An argument without quotes**: a text that is not empty and has no blank and no double quote.
-/
theorem reads_plainText {text : List Char} (hne : text ≠ [])
    (htext : ∀ c ∈ text, c ≠ '"' ∧ isBlank c = false) :
    Reads (readAll (.start words) text) words text := by
  obtain ⟨c, text, rfl⟩ := List.exists_cons_of_ne_nil hne
  obtain ⟨⟨hquote, hblank⟩, htext⟩ := List.forall_mem_cons.mp htext
  rw [readAll_cons]
  show Reads _ words ([c] ++ text)
  refine Reads.plainText ?_ htext
  by_cases hslash : c = '\\'
  · subst hslash
    exact ⟨rfl, rfl, by simp [step_slash, State.start, Mode.inWord],
      by simp [step_slash, State.start, Mode.inWord]⟩
  · rw [step_plain hslash hquote (Or.inl hblank)]
    exact ⟨rfl, rfl, by simp [State.start, Mode.inWord], by simp [State.start, Mode.inWord]⟩

/-! ### The name of the program -/

theorem afterProgram_blank (text : List Char) : afterProgram false (' ' :: text) = ' ' :: text := by
  rw [afterProgram, if_neg (by decide), if_pos (by decide)]

/-- A part of it that has no blank and no double quote. -/
theorem afterProgram_plain {name text : List Char}
    (hname : ∀ c ∈ name, c ≠ '"' ∧ isBlank c = false) :
    afterProgram false (name ++ text) = afterProgram false text := by
  induction name with
  | nil => rfl
  | cons c name ih =>
    obtain ⟨⟨hquote, hblank⟩, hname⟩ := List.forall_mem_cons.mp hname
    rw [List.cons_append, afterProgram, if_neg hquote, if_neg (by simp [hblank]), ih hname]

theorem afterProgram_quoted {name : List Char} (hname : '"' ∉ name) (text : List Char) :
    afterProgram false ('"' :: (name ++ '"' :: text)) = afterProgram false text := by
  rw [afterProgram, if_pos rfl, Bool.not_false]
  induction name with
  | nil => rw [List.nil_append, afterProgram, if_pos rfl, Bool.not_true]
  | cons c name ih =>
    obtain ⟨hquote, hname⟩ := not_or.mp (fun h => hname (List.mem_cons.mpr h))
    rw [List.cons_append, afterProgram, if_neg (Ne.symm hquote), if_neg (by simp), ih hname]

end WindowsArguments
