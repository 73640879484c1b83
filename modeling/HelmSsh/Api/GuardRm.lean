/-
# Which recursive removals the guard sees

An invocation of `rm` in a shell command line is what stands before it, its name, its words
with the blanks before each, and what stands behind (`Invocation`).  It is dangerous when an
option makes it recursive and an operand is, without quotes and with `.`, `..` and `//`
resolved, one of the guard's targets (`Dangerous`).

`check_dangerous_command` (`src-tauri/src/api_server/guard.rs`) blocks such a line exactly when a
removal is in the words that it makes of the line (`ReadsRemoval`), or another rule applies
(`removal_blocked_iff`).  It is there when the guard sees the invocation as it is written (`Seen`):
the name is `rm` without a path, nothing but white space, a separator or `&&` touches it on either
side, and no word has a quoted blank or separator that matters.  The guard misses `/bin/rm`, a
single `&` that touches a word, a quoted separator, a word that goes on in the next line, an
abbreviated `--recursive` and the target `${HOME}` of its own list, whose braces it sets apart
(`missed_invocations`).
-/

import HelmSsh.Api.GuardText

namespace HelmSsh
namespace Api
namespace Guard

open Text (isWhitespace)

/-! ### Invocations -/

/-- The shell's state within a word. -/
inductive Quoting
  | plain
  | single
  | double
  deriving DecidableEq

/-- The characters that end a word of the shell where they are not quoted.  A redirection
that touches a word is read as part of it. -/
def endsWord (c : Char) : Bool :=
  c = ' ' || c = '\t' || c = '\n' || c = ';' || c = '&' || c = '|' || c = '(' || c = ')'

/-- The text is one word of the shell. -/
def isWord : Quoting → List Char → Bool
  | quoting, [] => quoting = .plain
  | .plain, '\\' :: _ :: rest => isWord .plain rest
  | .plain, c :: rest =>
    if c = '\'' then isWord .single rest
    else if c = '"' then isWord .double rest
    else !endsWord c && isWord .plain rest
  | .single, c :: rest => isWord (if c = '\'' then .plain else .single) rest
  | .double, '\\' :: _ :: rest => isWord .double rest
  | .double, c :: rest => isWord (if c = '"' then .plain else .double) rest

/-- The text is blanks and continued lines. -/
def isGap : List Char → Bool
  | [] => true
  | ' ' :: rest => isGap rest
  | '\t' :: rest => isGap rest
  | '\\' :: '\n' :: rest => isGap rest
  | _ => false

/-- A command can start behind the character: a blank, the end of a line, an operator or the
quote of a text that a shell is given. -/
def startsBehind (c : Char) : Bool :=
  c = ' ' || c = '\t' || c = '\n' || c = ';' || c = '&' || c = '|' || c = '(' || isQuote c

/-- The words of a command can end before the character. -/
def endsBefore (c : Char) : Bool :=
  c = ' ' || c = '\t' || c = '\n' || c = ';' || c = '&' || c = '|' || c = ')' || c = '<' ||
    c = '>' || isQuote c

/-- An `rm` in a command line.  The arguments are those that are looked at, as they are
spelled, each with the gap before it; the others are in `behind`. -/
structure Invocation where
  before : List Char
  name : List Char
  args : List (List Char × List Char)
  behind : List Char

/-- The arguments as they are written. -/
def argText (args : List (List Char × List Char)) : List Char :=
  args.flatMap fun arg => arg.1 ++ arg.2

/-- The command line. -/
def Invocation.text (i : Invocation) : List Char :=
  i.before ++ i.name ++ argText i.args ++ i.behind

/-- The words that are options and those that are operands: after a first `--` all are
operands. -/
def readArgs : Bool → List (List Char) → List (List Char) × List (List Char)
  | _, [] => ([], [])
  | parseOptions, word :: rest =>
    let value := stripped word
    if parseOptions ∧ value = "--".toList then
      readArgs false rest
    else if parseOptions ∧ value.head? = some '-' ∧ value ≠ "-".toList then
      let (options, operands) := readArgs parseOptions rest
      (word :: options, operands)
    else
      let (options, operands) := readArgs parseOptions rest
      (options, word :: operands)

/-- `--recursive`, or short options with `-r` or `-R` among them. -/
def isSpelledOut : List Char → Bool
  | '-' :: flags =>
    flags = "-recursive".toList ||
      (flags.all Char.isAlpha && (flags.contains 'r' || flags.contains 'R'))
  | _ => false

/-- `--recursive` may be cut off behind its first letter. -/
def isRecursive (value : List Char) : Bool :=
  isSpelledOut value || ("--r".toList <+: value && value <+: "--recursive".toList)

/-- The value leads out of a home directory, or is one of the targets of the guard. -/
def isTargetValue (value : List Char) : Bool :=
  (["~/..", "$home/..", "$\x7bhome\x7d/.."].any (startsWith value)) ||
    dangerousTargets.any fun dangerous =>
      normalizeDeleteTarget value = normalizeDeleteTarget dangerous.toList

/-- The operand is, without its quotes, one of the targets of the guard. -/
def isTarget (U : CaseTable) (word : List Char) : Bool :=
  isTargetValue (toLowercase U (stripped word))

/-- A word without the line breaks that a backslash takes away, which are those outside of single
quotes. -/
def unfolded : Quoting → List Char → List Char
  | _, [] => []
  | .single, c :: rest => c :: unfolded (if c = '\'' then .plain else .single) rest
  | quoting, ['\\'] => '\\' :: unfolded quoting []
  | quoting, '\\' :: c :: rest =>
    if c = '\n' then unfolded quoting rest else '\\' :: c :: unfolded quoting rest
  | .plain, c :: rest =>
    c :: unfolded (if c = '\'' then .single else if c = '"' then .double else .plain) rest
  | .double, c :: rest => c :: unfolded (if c = '"' then .plain else .double) rest

/-- The words of the arguments. -/
def Invocation.words (i : Invocation) : List (List Char) :=
  i.args.map fun arg => unfolded .plain arg.2

/-- **A recursive removal of a dangerous target.**  The name is `rm` or a path to it. -/
structure Dangerous (U : CaseTable) (i : Invocation) : Prop where
  start : ∀ c ∈ i.before.getLast?, startsBehind c = true
  name : stripped (unfolded .plain i.name) = "rm".toList ∨
    "/rm".toList <:+ stripped (unfolded .plain i.name)
  gaps : ∀ arg ∈ i.args, isGap arg.1 = true ∧ (' ' ∈ arg.1 ∨ '\t' ∈ arg.1)
  words : ∀ word ∈ i.name :: i.args.map Prod.snd, isWord .plain word = true
  stop : ∀ c ∈ i.behind.head?, endsBefore c = true
  recursive : ∃ option ∈ (readArgs true i.words).1, isRecursive (stripped option) = true
  target : ∃ operand ∈ (readArgs true i.words).2, isTarget U operand = true

/-- The guard makes no separator of a quoted part of the word, and a `--` only of itself. -/
def SeenWord (U : CaseTable) (word : List Char) : Prop :=
  (∀ part ∈ lineWords (bare U word), isSeparator part = false) ∧
    ("--".toList ∈ lineWords (bare U word) → stripped word = "--".toList)

/-- A dangerous operand without a quoted blank or separator. -/
def SeenTarget (U : CaseTable) (word : List Char) : Prop :=
  isTarget U word = true ∧ (∀ c ∈ bare U word, apart c = false) ∧
    amp (bare U word) = bare U word

/-- **The guard sees the invocation as it is written.** -/
structure Seen (U : CaseTable) (i : Invocation) : Prop where
  /-- The name has no path. -/
  name : stripped i.name = "rm".toList
  /-- No other text touches the name. -/
  start : EndsApart (bare U i.before)
  /-- No other text touches the last argument. -/
  stop : StartsApart (bare U i.behind)
  pair : ¬ ((bare U (i.name ++ argText i.args)).getLast? = some '&' ∧
    (bare U i.behind).head? = some '&')
  /-- No argument goes on in the next line. -/
  folds : ∀ arg ∈ i.args, unfolded .plain arg.2 = arg.2
  words : ∀ word ∈ i.words, SeenWord U word
  recursive : ∃ option ∈ (readArgs true i.words).1, isSpelledOut (stripped option) = true
  target : ∃ operand ∈ (readArgs true i.words).2, SeenTarget U operand

instance (U : CaseTable) (i : Invocation) : Decidable (Dangerous U i) :=
  decidable_of_iff
    ((∀ c ∈ i.before.getLast?, startsBehind c = true) ∧
      (stripped (unfolded .plain i.name) = "rm".toList ∨
        "/rm".toList <:+ stripped (unfolded .plain i.name)) ∧
      (∀ arg ∈ i.args, isGap arg.1 = true ∧ (' ' ∈ arg.1 ∨ '\t' ∈ arg.1)) ∧
      (∀ word ∈ i.name :: i.args.map Prod.snd, isWord .plain word = true) ∧
      (∀ c ∈ i.behind.head?, endsBefore c = true) ∧
      (∃ option ∈ (readArgs true i.words).1, isRecursive (stripped option) = true) ∧
      ∃ operand ∈ (readArgs true i.words).2, isTarget U operand = true)
    ⟨fun h => ⟨h.1, h.2.1, h.2.2.1, h.2.2.2.1, h.2.2.2.2.1, h.2.2.2.2.2.1, h.2.2.2.2.2.2⟩,
      fun h => ⟨h.start, h.name, h.gaps, h.words, h.stop, h.recursive, h.target⟩⟩

/-! ### The words of the invocation -/

section Words

variable {U : CaseTable}

theorem stripped_gap {g : List Char} (h : isGap g = true) :
    (∀ c ∈ stripped g, isWhitespace c = true) ∧
      ((' ' ∈ g ∨ '\t' ∈ g) → stripped g ≠ []) := by
  have hcons : ∀ (c : Char) (rest : List Char), isKept c = true → isWhitespace c = true →
      (∀ d ∈ rest.filter isKept, isWhitespace d = true) →
      (∀ d ∈ (c :: rest).filter isKept, isWhitespace d = true) ∧
        (c :: rest).filter isKept ≠ [] := by
    intro c rest hkept hwhite hrest
    rw [List.filter_cons_of_pos hkept]
    refine ⟨fun d hd => ?_, List.cons_ne_nil _ _⟩
    rcases List.mem_cons.mp hd with rfl | hd
    · exact hwhite
    · exact hrest d hd
  rw [stripped_eq]
  fun_induction isGap g with
  | case1 => exact ⟨fun c hc => absurd hc List.not_mem_nil, fun h => by simp at h⟩
  | case2 rest ih =>
    obtain ⟨hwhite, hne⟩ := hcons ' ' rest (by decide) (by decide) (ih h).1
    exact ⟨hwhite, fun _ => hne⟩
  | case3 rest ih =>
    obtain ⟨hwhite, hne⟩ := hcons '\t' rest (by decide) (by decide) (ih h).1
    exact ⟨hwhite, fun _ => hne⟩
  | case4 rest ih =>
    obtain ⟨hwhite, hne⟩ := hcons '\n' rest (by decide) (by decide) (ih h).1
    rw [List.filter_cons_of_neg (by decide)]
    exact ⟨hwhite, fun _ => hne⟩
  | case5 g hspace htab hline => exact absurd h Bool.false_ne_true

theorem bare_gap {g : List Char} (h : isGap g = true) : bare U g = stripped g := by
  have htwice : stripped (stripped g) = stripped g := by
    rw [stripped_eq, stripped_eq, List.filter_filter]
    simp only [Bool.and_self]
  rw [bare_eq, ← htwice, ← bare_eq, bare_blanks U (stripped_gap h).1, htwice]

/-- **A gap parts the words.** -/
theorem lineWords_gap {g : List Char} (x y : List Char) (hne : g ≠ [])
    (hblank : ∀ c ∈ g, isWhitespace c = true) :
    lineWords (x ++ (g ++ y)) = lineWords x ++ lineWords y := by
  have hamp : '&' ∉ g := fun hmem => absurd (hblank '&' hmem) (by decide)
  obtain ⟨hends, -, hlast, hhead⟩ := blanks_apart hblank
  have hstarts : StartsApart (g ++ y) := by
    intro c hc
    rw [amp_append fun h => hlast h.1, amp_eq_self hamp, List.head?_append_of_ne_nil _ hne] at hc
    rw [apart, hblank c (List.mem_of_mem_head? hc), Bool.true_or]
  have hfront : ¬ (x.getLast? = some '&' ∧ (g ++ y).head? = some '&') := by
    rw [List.head?_append_of_ne_nil _ hne]
    exact fun h => hhead h.2
  rw [lineWords_append_of_starts hstarts hfront, lineWords_append_of_ends hends fun h => hlast h.1,
    lineWords_blanks hblank, List.nil_append]

/-- The words that the guard makes of the arguments are those of each of them. -/
theorem lineWords_args {args : List (List Char × List Char)} (x : List Char)
    (hgaps : ∀ arg ∈ args, isGap arg.1 = true ∧ (' ' ∈ arg.1 ∨ '\t' ∈ arg.1)) :
    lineWords (x ++ bare U (argText args)) =
      lineWords x ++ (args.map Prod.snd).flatMap fun word => lineWords (bare U word) := by
  induction args generalizing x with
  | nil => rw [argText, List.flatMap_nil, bare, toLowercase, List.flatMap_nil]; simp [stripped]
  | cons arg args ih =>
    obtain ⟨hgap, hblank⟩ := hgaps arg List.mem_cons_self
    obtain ⟨hwhite, hne⟩ := stripped_gap hgap
    rw [argText, List.flatMap_cons, bare_append, bare_append, bare_gap hgap, List.append_assoc,
      lineWords_gap x _ (hne hblank) hwhite, List.map_cons, List.flatMap_cons]
    exact congrArg (lineWords x ++ ·) (ih _ fun a ha => hgaps a (List.mem_cons_of_mem arg ha))

end Words

/-! ### The options and the operands -/

section Read

variable {U : CaseTable} {words : List (List Char)}

/-- The words of the arguments, in the eyes of the guard. -/
def partsOf (U : CaseTable) (words : List (List Char)) : List (List Char) :=
  words.flatMap fun word => lineWords (bare U word)

theorem partsOf_cons (word : List Char) (words : List (List Char)) :
    partsOf U (word :: words) = lineWords (bare U word) ++ partsOf U words :=
  List.flatMap_cons

/-- A letter in lower case is neither blank nor a separator. -/
theorem toLower_alpha {c : Char} (h : c.isAlpha = true) :
    c.toNat < 128 ∧ apart c.toLower = false ∧ c.toLower ≠ '&' ∧ c.toLower ≠ '-' := by
  have hascii : c.toNat < 128 := by
    unfold Char.isAlpha Char.isUpper Char.isLower at h
    simp only [Bool.or_eq_true, Bool.and_eq_true, decide_eq_true_eq, ge_iff_le,
      UInt32.le_iff_toNat_le] at h
    have hval : c.val.toNat = c.toNat := rfl
    have hZ : 'Z'.val.toNat = 90 := rfl
    have hz : 'z'.val.toNat = 122 := rfl
    omega
  have hall : ∀ n : Fin 128, (Char.ofNat n).isAlpha = true →
      apart (Char.ofNat n).toLower = false ∧ (Char.ofNat n).toLower ≠ '&' ∧
        (Char.ofNat n).toLower ≠ '-' := by decide
  have hc := hall ⟨c.toNat, hascii⟩
  rw [Char.ofNat_toNat] at hc
  exact ⟨hascii, hc h⟩

/-- What the guard's reading of arguments asks of a recursive option. -/
structure ReadsRecursive (part : List Char) : Prop where
  word : lineWords part = [part]
  separator : isSeparator part = false
  dashes : part ≠ "--".toList
  dash : startsWith part "-" = true
  long : startsWith part "--" = true → part = "--recursive".toList
  short : (part.drop 1).contains 'r' = true

/-- **A recursive option is read as one**, in whatever case its letters are. -/
theorem readsRecursive {value : List Char} (h : isSpelledOut value = true) :
    ReadsRecursive (toLowercase U value) := by
  unfold isSpelledOut at h
  split at h
  · rename_i flags
    rw [Bool.or_eq_true, decide_eq_true_eq, Bool.and_eq_true, List.all_eq_true] at h
    rcases h with rfl | ⟨halpha, hr⟩
    · rw [toLowercase_ascii (by decide)]
      constructor <;> decide
    · have hlower : toLowercase U ('-' :: flags) = '-' :: flags.map Char.toLower := by
        refine toLowercase_ascii fun c hc => ?_
        rcases List.mem_cons.mp hc with rfl | hc
        · decide
        · exact (toLower_alpha (halpha c hc)).1
      have hflag : ∀ d ∈ flags.map Char.toLower, apart d = false ∧ d ≠ '&' ∧ d ≠ '-' := by
        intro d hd
        obtain ⟨c, hc, rfl⟩ := List.mem_map.mp hd
        exact (toLower_alpha (halpha c hc)).2
      have hdash : ¬ "--".toList <+: '-' :: flags.map Char.toLower := by
        rintro ⟨rest, hrest⟩
        have hmem : '-' ∈ flags.map Char.toLower :=
          (List.cons.inj hrest).2 ▸ List.mem_cons_self
        exact (hflag '-' hmem).2.2 rfl
      rw [hlower]
      refine ⟨lineWords_solid (List.cons_ne_nil _ _) (amp_eq_self ?_) ?_, ?_, ?_, ?_, ?_, ?_⟩
      · intro hmem
        rcases List.mem_cons.mp hmem with h | h
        · exact absurd h (by decide)
        · exact (hflag '&' h).2.1 rfl
      · intro d hd
        rcases List.mem_cons.mp hd with rfl | hd
        · decide
        · exact (hflag d hd).1
      · simp [isSeparator]
      · intro heq
        exact hdash (heq ▸ List.prefix_rfl)
      · exact decide_eq_true ⟨_, rfl⟩
      · intro hlong
        exact absurd (of_decide_eq_true hlong) hdash
      · rw [List.drop_one, List.tail_cons, List.contains_iff_mem]
        rw [Bool.or_eq_true, List.contains_iff_mem, List.contains_iff_mem] at hr
        rcases hr with hr | hr
        · exact List.mem_map.mpr ⟨'r', hr, by decide⟩
        · exact List.mem_map.mpr ⟨'R', hr, by decide⟩
  · exact absurd h Bool.false_ne_true

theorem bare_dashes {word : List Char} (h : stripped word = "--".toList) :
    lineWords (bare U word) = ["--".toList] := by
  rw [bare_eq, h, toLowercase_ascii (by decide)]
  decide

theorem target_ne {part : List Char} (h : isTargetValue part = true) :
    part ≠ [] ∧ part ≠ "--".toList ∧ part ≠ "-".toList := by
  refine ⟨?_, ?_, ?_⟩ <;> rintro rfl <;> revert h <;> decide

/-- A target without brackets is dangerous for the guard. -/
theorem isDangerous_of_isTargetValue {part : List Char} (h : isTargetValue part = true)
    (hbrackets : ∀ c ∈ part, isBracket c = false) :
    isDangerousRecursiveDeleteTarget part = true := by
  have hself : ∀ s : List Char, (∀ c ∈ s, isBracket c = false) → s.dropWhile isBracket = s := by
    intro s hs
    cases s with
    | nil => rfl
    | cons c s => rw [List.dropWhile_cons, if_neg (by rw [hs c List.mem_cons_self]; decide)]
  rw [isDangerousRecursiveDeleteTarget, hself part hbrackets,
    hself part.reverse fun c hc => hbrackets c (List.mem_reverse.mp hc), List.reverse_reverse]
  rw [isTargetValue, Bool.or_eq_true] at h
  dsimp only
  split_ifs with hhome
  · rfl
  · refine h.resolve_left fun hany => hhome ?_
    simpa only [List.any_cons, List.any_nil, Bool.or_false, Bool.or_assoc] using hany

/-- What is in lower case starts with a dash only if it did before. -/
theorem head_toLowercase {value : List Char} (h : (toLowercase U value).head? = some '-') :
    value.head? = some '-' := by
  cases value with
  | nil => cases h
  | cons c value =>
    have hne : U.lower c ≠ [] := by
      by_cases hascii : c.toNat < 128
      · rw [U.ascii c hascii]
        exact List.cons_ne_nil _ _
      · by_cases hblank : isWhitespace c = true
        · rw [U.blank c hblank]
          exact List.cons_ne_nil _ _
        · exact (U.other c (by omega) (Bool.not_eq_true _ ▸ hblank)).1
    rw [toLowercase, List.flatMap_cons, List.head?_append_of_ne_nil _ hne] at h
    rw [mem_lower U (List.mem_of_mem_head? h) (by decide) (by decide)]
    rfl

/-- Behind a first `--` all are operands. -/
theorem readArgs_false (words : List (List Char)) : readArgs false words = ([], words) := by
  induction words with
  | nil => rfl
  | cons word words ih => simp [readArgs, ih]

/-- What an operand is for the guard that is seen as a target. -/
theorem part_of_seenTarget {word : List Char} (h : SeenTarget U word) :
    lineWords (bare U word) = [bare U word] ∧ bare U word ≠ "--".toList ∧
      isDangerousRecursiveDeleteTarget (bare U word) = true ∧
      (startsWith (bare U word) "-" = true →
        (stripped word).head? = some '-' ∧ stripped word ≠ "-".toList) := by
  obtain ⟨htarget, hsolid, hpair⟩ := h
  rw [isTarget, ← bare_eq] at htarget
  obtain ⟨hne, hdd, hd⟩ := target_ne htarget
  refine ⟨lineWords_solid hne hpair hsolid, hdd,
    isDangerous_of_isTargetValue htarget fun c hc => ?_,
    fun hstarts => ⟨head_toLowercase (U := U) ?_, fun heq => hd ?_⟩⟩
  · have hc : apart c = false := hsolid c hc
    rw [apart, isSep, Bool.or_eq_false_iff, Bool.or_eq_false_iff] at hc
    exact hc.2.2
  · obtain ⟨tail, htail⟩ := of_decide_eq_true hstarts
    rw [← bare_eq, ← htail]
    rfl
  · rw [bare_eq, heq, toLowercase_ascii (by decide)]
    decide

theorem SeenWord.no_dashes {word part : List Char} (h : SeenWord U word)
    (hword : stripped word ≠ "--".toList) (hpart : part ∈ lineWords (bare U word)) :
    decide (part ≠ "--".toList) = true :=
  decide_eq_true fun heq => hword (h.2 (heq ▸ hpart))

/-- **The guard finds the recursive option.** -/
theorem option_of_seen {rest : List (List Char)} (hwords : ∀ word ∈ words, SeenWord U word)
    (h : ∃ option ∈ (readArgs true words).1, isSpelledOut (stripped option) = true) :
    ∃ option ∈ (partsOf U words ++ rest).takeWhile (· ≠ "--".toList),
      readsOption option = true := by
  induction words with
  | nil =>
    obtain ⟨option, hoption, -⟩ := h
    exact absurd hoption List.not_mem_nil
  | cons word words ih =>
    have hword : SeenWord U word := hwords word List.mem_cons_self
    have ih := ih fun w hw => hwords w (List.mem_cons_of_mem word hw)
    have hlater : stripped word ≠ "--".toList →
        (∃ option ∈ (readArgs true words).1, isSpelledOut (stripped option) = true) →
        ∃ option ∈ (partsOf U (word :: words) ++ rest).takeWhile (· ≠ "--".toList),
          readsOption option = true := by
      intro hdashes hoption
      obtain ⟨option, hmem, hopt⟩ := ih hoption
      rw [partsOf_cons, List.append_assoc,
        List.takeWhile_append_of_pos fun part hpart => hword.no_dashes hdashes hpart]
      exact ⟨option, List.mem_append_right _ hmem, hopt⟩
    rw [readArgs] at h
    dsimp only at h
    split_ifs at h with hdashes hoption
    · rw [readArgs_false] at h
      obtain ⟨option, hmem, -⟩ := h
      exact absurd hmem List.not_mem_nil
    · have hdashes : stripped word ≠ "--".toList := fun heq => hdashes ⟨rfl, heq⟩
      obtain ⟨option, hmem, hopt⟩ := h
      rcases List.mem_cons.mp hmem with rfl | hmem
      · have hread : ReadsRecursive (bare U option) := by
          rw [bare_eq]
          exact readsRecursive hopt
        rw [partsOf_cons, hread.word, List.append_assoc, List.singleton_append,
          List.takeWhile_cons_of_pos (by simpa using hread.dashes)]
        refine ⟨_, List.mem_cons_self, ?_⟩
        rw [readsOption]
        split_ifs with hlong
        · rw [hread.long hlong]
          rfl
        · rw [hread.dash, hread.short]
          rfl
      · exact hlater hdashes ⟨option, hmem, hopt⟩
    · exact hlater (fun heq => hdashes ⟨rfl, heq⟩) h

/-- **The guard finds the target.** -/
theorem target_of_seen {rest : List (List Char)} (hwords : ∀ word ∈ words, SeenWord U word)
    (h : ∃ operand ∈ (readArgs true words).2, SeenTarget U operand) :
    ∃ target ∈ operandsOf (partsOf U words ++ rest),
      isDangerousRecursiveDeleteTarget target = true := by
  induction words with
  | nil =>
    obtain ⟨operand, hoperand, -⟩ := h
    exact absurd hoperand List.not_mem_nil
  | cons word words ih =>
    have hword : SeenWord U word := hwords word List.mem_cons_self
    have ih := ih fun w hw => hwords w (List.mem_cons_of_mem word hw)
    have hlater : stripped word ≠ "--".toList →
        (∃ operand ∈ (readArgs true words).2, SeenTarget U operand) →
        ∃ target ∈ operandsOf (partsOf U (word :: words) ++ rest),
          isDangerousRecursiveDeleteTarget target = true := by
      intro hdashes hoperand
      obtain ⟨target, hmem, htarget⟩ := ih hoperand
      refine ⟨target, ?_, htarget⟩
      have hparts := fun part => @SeenWord.no_dashes U word part hword hdashes
      rw [operandsOf, List.mem_append] at hmem
      rw [partsOf_cons, List.append_assoc, operandsOf, List.takeWhile_append_of_pos hparts,
        List.dropWhile_append_of_pos hparts, List.filter_append, List.mem_append, List.mem_append]
      exact hmem.imp_left Or.inr
    rw [readArgs] at h
    dsimp only at h
    split_ifs at h with hdashes hoption
    · rw [readArgs_false] at h
      obtain ⟨operand, hmem, hseen⟩ := h
      obtain ⟨hone, hdd, htarget, -⟩ := part_of_seenTarget hseen
      have hpart : bare U operand ∈ partsOf U words :=
        List.mem_flatMap.mpr ⟨operand, hmem, hone ▸ List.mem_singleton_self _⟩
      rw [partsOf_cons, bare_dashes hdashes.2, List.append_assoc, List.singleton_append]
      refine ⟨_, List.mem_append_right _ ?_, htarget⟩
      rw [List.dropWhile_cons_of_neg (by simp)]
      exact List.mem_filter.mpr
        ⟨List.mem_cons_of_mem _ (List.mem_append_left _ hpart), decide_eq_true hdd⟩
    · exact hlater (fun heq => hdashes ⟨rfl, heq⟩) h
    · have hdashes : stripped word ≠ "--".toList := fun heq => hdashes ⟨rfl, heq⟩
      obtain ⟨operand, hmem, hseen⟩ := h
      rcases List.mem_cons.mp hmem with rfl | hmem
      · obtain ⟨hone, hdd, htarget, hdash⟩ := part_of_seenTarget hseen
        rw [partsOf_cons, hone, List.append_assoc, List.singleton_append, operandsOf,
          List.takeWhile_cons_of_pos (by simpa using hdd)]
        refine ⟨_, List.mem_append_left _ (List.mem_filter.mpr ⟨List.mem_cons_self, ?_⟩), htarget⟩
        rw [Bool.not_eq_true']
        by_contra hstarts
        exact hoption ⟨rfl, hdash (Bool.not_eq_false _ ▸ hstarts)⟩
      · exact hlater hdashes ⟨operand, hmem, hseen⟩

end Read

/-! ### The whole line -/

/-- The rules but for that of the recursive `rm`. -/
def otherRules (strict : Bool) : List ((Line → Bool) × String) :=
  (rules strict).eraseIdx 2

theorem any_eraseIdx {α : Type} {l : List α} {p : α → Bool} {i : ℕ} {a : α} (h : l[i]? = some a) :
    l.any p = (p a || (l.eraseIdx i).any p) := by
  induction l generalizing i with
  | nil => cases h
  | cons b l ih =>
    cases i with
    | zero =>
      obtain rfl := Option.some.inj h
      rw [List.eraseIdx_cons_zero, List.any_cons]
    | succ i =>
      rw [List.eraseIdx_cons_succ, List.any_cons, List.any_cons, ih h, Bool.or_left_comm]

/-- A removal that is seen as it is written is in the words of the line. -/
theorem reads_of_seen {U : CaseTable} {i : Invocation} (hdangerous : Dangerous U i)
    (hseen : Seen U i) : ReadsRemoval (lineWords (bare U i.text)) := by
  have hname : bare U i.name = "rm".toList := by
    rw [bare_eq, hseen.name, toLowercase_ascii (by decide)]
    decide
  have hline : bare U i.text =
      bare U i.before ++ ("rm".toList ++ bare U (argText i.args) ++ bare U i.behind) := by
    rw [Invocation.text, bare_append, bare_append, bare_append, hname]
    simp only [List.append_assoc]
  have hfront : ¬ ((bare U i.before).getLast? = some '&' ∧
      ("rm".toList ++ bare U (argText i.args) ++ bare U i.behind).head? = some '&') :=
    fun h => absurd h.2 (by simp)
  have hpair := hseen.pair
  rw [bare_append, hname] at hpair
  have hrm : lineWords "rm".toList = ["rm".toList] := by decide
  have hwords : i.args.map Prod.snd = i.words :=
    List.map_congr_left fun arg harg => (hseen.folds arg harg).symm
  have hparts : lineWords (bare U i.text) = lineWords (bare U i.before) ++
      "rm".toList :: (partsOf U i.words ++ lineWords (bare U i.behind)) := by
    rw [hline, lineWords_append_of_ends hseen.start hfront,
      lineWords_append_of_starts hseen.stop hpair, lineWords_args _ hdangerous.gaps, hrm, hwords]
    rfl
  have hseparators : ∀ part ∈ partsOf U i.words, (!isSeparator part) = true := by
    intro part hpart
    obtain ⟨word, hword, hin⟩ := List.mem_flatMap.mp hpart
    rw [(hseen.words word hword).1 part hin]
    rfl
  refine ⟨_, _, _, hparts, rfl, ?_⟩
  rw [List.takeWhile_append_of_pos hseparators]
  exact ⟨option_of_seen hseen.words hseen.recursive, target_of_seen hseen.words hseen.target⟩

/-- `sudo \rm --force -fR  -- '/tmp/..'//etc;ls`, with a tab. -/
def sudoRemoval : Invocation where
  before := "sudo ".toList
  name := "\\rm".toList
  args := [(" ".toList, "--force".toList), (" ".toList, "-fR".toList), (" \t".toList, "--".toList),
    (" ".toList, "'/tmp/..'//etc".toList)]
  behind := ";ls".toList

/-- An invocation with one blank before each word. -/
def Invocation.plain (before name : String) (words : List String) (behind : String) :
    Invocation where
  before := before.toList
  name := name.toList
  args := words.map fun word => ([' '], word.toList)
  behind := behind.toList

/-- Removals that the guard misses: by path, with a target that an `&` touches, behind an
`&`, of the braced target of its own list, with a quoted separator, with an abbreviated option, and
with an option that goes on in the next line. -/
def missed : List Invocation :=
  [.plain "" "/bin/rm" ["-rf", "/"] "", .plain "" "rm" ["-rf", "/"] "&",
    .plain "true&" "rm" ["-rf", "/"] "", .plain "" "rm" ["-rf", "$\x7bHOME\x7d"] "",
    .plain "" "rm" ["-rf", "'a;b'", "/"] "", .plain "" "rm" ["--recurs", "-f", "/etc"] "",
    .plain "" "rm" ["-f\\\nr", "/"] ""]

theorem missed_unblocked : ∀ i ∈ missed, Dangerous exampleTable i ∧
    ∀ strict, checkDangerousCommand exampleTable (String.ofList i.text) strict = none := by
  simp only [← Option.not_isSome_iff_eq_none, isSome_eq_any]
  decide +kernel

end Guard
end Api
end HelmSsh
