/-
# The words that the guard of the API commands sees

The guard sets `&&`, `||` and `;|(){}` apart and cuts the text at white space.  Where two
texts meet, the words are those of the two texts when white space, a separator or a whole
`&&` is between them (`lineWords_append_of_ends`, `lineWords_append_of_starts`); a single `&`
is no separator.  What is neither blank nor a separator and has no `&&` is one word
(`lineWords_solid`).
-/

import Mathlib.Data.List.TakeWhile
import HelmSsh.Api.Guard

namespace HelmSsh
namespace Api
namespace Guard

open Text (isWhitespace)

/-! ### Lower case and quotes -/

section Bare

variable (U : CaseTable)

theorem toLowercase_append (a b : List Char) :
    toLowercase U (a ++ b) = toLowercase U a ++ toLowercase U b :=
  List.flatMap_append

theorem stripped_append (a b : List Char) : stripped (a ++ b) = stripped a ++ stripped b := by
  rw [stripped, List.filter_append, List.filter_append]
  rfl

theorem bare_append (a b : List Char) : bare U (a ++ b) = bare U a ++ bare U b := by
  rw [bare, toLowercase_append, stripped_append]
  rfl

/-- The characters that are kept. -/
def isKept (c : Char) : Bool :=
  !isQuote c && c ≠ '\\'

theorem stripped_eq (s : List Char) : stripped s = s.filter isKept := by
  rw [stripped, List.filter_filter]
  refine List.filter_congr fun c _ => ?_
  rw [isKept, Bool.and_comm]

/-- Of the ASCII characters only letters have a letter as their lower case. -/
theorem eq_toLower {c : Char} (hc : c.toNat < 128)
    (hletter : c.toLower.toNat < 97 ∨ 122 < c.toLower.toNat) : c = c.toLower := by
  have hall : ∀ n : Fin 128, (Char.ofNat n).toLower.toNat < 97 ∨
    122 < (Char.ofNat n).toLower.toNat →
      Char.ofNat n = (Char.ofNat n).toLower := by decide
  have h := hall ⟨c.toNat, hc⟩
  rw [Char.ofNat_toNat] at h
  exact h hletter

/-- An ASCII character that is no letter is its own lower case, and no other's. -/
theorem mem_lower {c d : Char} (hd : d ∈ U.lower c) (hascii : d.toNat < 128)
    (hletter : d.toNat < 97 ∨ 122 < d.toNat) : c = d := by
  by_cases hc : c.toNat < 128
  · rw [U.ascii c hc, List.mem_singleton] at hd
    rw [hd] at hletter ⊢
    exact eq_toLower hc hletter
  · by_cases hblank : isWhitespace c = true
    · rw [U.blank c hblank, List.mem_singleton] at hd
      exact hd.symm
    · obtain ⟨-, hother⟩ := U.other c (by omega) (Bool.not_eq_true _ ▸ hblank)
      have hi : 'i'.toNat = 105 := rfl
      have hk : 'k'.toNat = 107 := rfl
      rcases (hother d hd).2 hascii with rfl | rfl <;> omega

theorem of_not_isKept {c : Char} (h : isKept c = false) :
    c.toNat < 128 ∧ c.toNat < 97 ∧ c.toLower = c := by
  simp only [isKept, isQuote, Bool.and_eq_false_imp, Bool.not_eq_true', Bool.or_eq_false_iff,
    decide_eq_false_iff_not, decide_not, Bool.not_eq_false', decide_eq_true_eq] at h
  by_cases h1 : c = '\''
  · subst h1
    decide
  · by_cases h2 : c = '"'
    · subst h2
      decide
    · by_cases h3 : c = '`'
      · subst h3
        decide
      · obtain rfl := h ⟨⟨h1, h2⟩, h3⟩
        decide

theorem bare_eq (s : List Char) : bare U s = toLowercase U (stripped s) := by
  have hchar : ∀ c, (U.lower c).filter isKept = if isKept c then U.lower c else [] := by
    intro c
    split_ifs with hc
    · refine List.filter_eq_self.mpr fun d hd => ?_
      by_contra hnot
      obtain ⟨hascii, hletter, -⟩ := of_not_isKept (Bool.not_eq_true _ ▸ hnot)
      rw [mem_lower U hd hascii (.inl hletter)] at hc
      exact hnot hc
    · have hnot : isKept c = false := Bool.not_eq_true _ ▸ hc
      obtain ⟨hascii, -, hlower⟩ := of_not_isKept hnot
      rw [U.ascii c hascii, hlower, List.filter_cons, if_neg hc, List.filter_nil]
  rw [bare, stripped_eq, stripped_eq, toLowercase, toLowercase, List.filter_flatMap]
  induction s with
  | nil => rfl
  | cons c s ih =>
    rw [List.flatMap_cons, ih, hchar, List.filter_cons]
    split_ifs with hc
    · rw [List.flatMap_cons]
    · rw [List.nil_append]

theorem bare_blanks {s : List Char} (h : ∀ c ∈ s, isWhitespace c = true) : bare U s = s := by
  induction s with
  | nil => rfl
  | cons c s ih =>
    have hc : isWhitespace c = true := h c List.mem_cons_self
    have hkept : isKept c = true := by
      by_contra hnot
      simp only [isKept, isQuote, Bool.and_eq_true, Bool.not_eq_true', Bool.or_eq_false_iff,
        decide_eq_false_iff_not, decide_not, not_and_or, not_not] at hnot
      rcases hnot with ((rfl | rfl) | rfl) | rfl <;> revert hc <;> decide
    have hone : bare U [c] = [c] := by
      rw [bare, toLowercase, List.flatMap_singleton, U.blank c hc, stripped_eq,
        List.filter_singleton, hkept]
      rfl
    rw [← List.singleton_append, bare_append, hone, ih fun d hd => h d (List.mem_cons_of_mem c hd)]

theorem toLowercase_ascii {U : CaseTable} {s : List Char} (h : ∀ c ∈ s, c.toNat < 128) :
    toLowercase U s = s.map Char.toLower := by
  rw [toLowercase, List.flatMap_congr fun c hc => U.ascii c (h c hc), List.map_eq_flatMap]

end Bare

/-! ### The separators -/

/-- The characters that are set apart one by one. -/
def isSep (c : Char) : Bool :=
  c = ';' || c = '|' || isBracket c

/-- `.replace("&&", " && ")`. -/
def amp (s : List Char) : List Char :=
  replacePair '&' " && ".toList s

/-- The replacements of single characters, at once. -/
def sepMap (s : List Char) : List Char :=
  s.flatMap fun c => if isSep c then [' ', c, ' '] else [c]

/-- The words of a text in the eyes of the guard. -/
def lineWords (s : List Char) : List (List Char) :=
  Words.words isWhitespace (spaced s)

theorem sepMap_append (a b : List Char) : sepMap (a ++ b) = sepMap a ++ sepMap b :=
  List.flatMap_append

theorem sepMap_cons (c : Char) (s : List Char) :
    sepMap (c :: s) = (if isSep c then [' ', c, ' '] else [c]) ++ sepMap s :=
  List.flatMap_cons

/-- One replacement after the other sets the same characters apart. -/
theorem replaceChars_eq (s : List Char) :
    replaceChar '\x7d' " \x7d ".toList (replaceChar '\x7b' " \x7b ".toList
      (replaceChar ')' " ) ".toList (replaceChar '(' " ( ".toList
        (replaceChar '|' " | ".toList (replaceChar ';' " ; ".toList s))))) = sepMap s := by
  have hchar : ∀ c, replaceChar '\x7d' " \x7d ".toList (replaceChar '\x7b' " \x7b ".toList
      (replaceChar ')' " ) ".toList (replaceChar '(' " ( ".toList
        (replaceChar '|' " | ".toList (replaceChar ';' " ; ".toList [c]))))) =
      if isSep c then [' ', c, ' '] else [c] := by
    intro c
    by_cases hsep : isSep c = true
    · rw [if_pos hsep]
      simp only [isSep, isBracket, Bool.or_eq_true, decide_eq_true_eq] at hsep
      rcases hsep with (rfl | rfl) | (((rfl | rfl) | rfl) | rfl) | rfl <;> decide
    · rw [if_neg hsep]
      simp only [isSep, isBracket, Bool.or_eq_true, decide_eq_true_eq, not_or] at hsep
      simp [replaceChar, hsep]
  have happend : ∀ (d : Char) (by' a b : List Char),
      replaceChar d by' (a ++ b) = replaceChar d by' a ++ replaceChar d by' b :=
    fun _ _ _ _ => List.flatMap_append
  induction s with
  | nil => rfl
  | cons c s ih =>
    rw [← List.singleton_append, happend, happend, happend, happend, happend, happend, ih, hchar,
      sepMap_append]
    simp [sepMap]

/-- The pairs of `|` are set apart whether they are seen as pairs or not. -/
theorem words_replacePair (u p : List Char) :
    Words.words isWhitespace (p ++ sepMap (replacePair '|' " || ".toList u)) =
      Words.words isWhitespace (p ++ sepMap u) := by
  have htwo : ∀ x p : List Char, Words.words isWhitespace (p ++ ' ' :: ' ' :: x) =
      Words.words isWhitespace (p ++ ' ' :: x) := by
    intro x p
    rw [Words.words_append_cons p _ (by decide), Words.words_append_cons p _ (by decide),
      Words.words_cons_blank x (by decide)]
  have hcongr : ∀ q x y : List Char,
      (∀ p, Words.words isWhitespace (p ++ x) = Words.words isWhitespace (p ++ y)) →
      ∀ p, Words.words isWhitespace (p ++ (q ++ x)) = Words.words isWhitespace (p ++ (q ++ y)) := by
    intro q x y h p
    rw [← List.append_assoc, ← List.append_assoc]
    exact h (p ++ q)
  fun_induction replacePair '|' " || ".toList u generalizing p with
  | case1 x y rest hpair ih =>
    obtain ⟨rfl, rfl⟩ := hpair
    have hleft : sepMap (" || ".toList ++ replacePair '|' " || ".toList rest) =
        ' ' :: ' ' :: (['|', ' '] ++ (' ' :: ([ '|', ' '] ++
          (' ' :: sepMap (replacePair '|' " || ".toList rest))))) := by
      rw [sepMap_append]
      rfl
    have hright : sepMap ('|' :: '|' :: rest) =
        ' ' :: (['|', ' '] ++ (' ' :: (['|'] ++ (' ' :: sepMap rest)))) := by
      rw [sepMap_cons, sepMap_cons]
      rfl
    rw [hleft, hright, htwo]
    refine hcongr [' ', '|', ' ', ' ', '|']
      (' ' :: ' ' :: sepMap (replacePair '|' " || ".toList rest))
      (' ' :: sepMap rest) (fun p => ?_) p
    rw [htwo]
    exact hcongr [' '] _ _ ih p
  | case2 x y rest hpair ih =>
    rw [sepMap_cons, sepMap_cons x]
    exact hcongr _ _ _ ih p
  | case3 rest hrest => rfl

theorem lineWords_eq (s : List Char) :
    lineWords s = Words.words isWhitespace (sepMap (amp s)) := by
  have h := words_replacePair (amp s) []
  rw [List.nil_append, List.nil_append, ← replaceChars_eq] at h
  exact h

/-- Two texts are searched for pairs one by one, unless a pair is half in each. -/
theorem amp_append {a b : List Char} (h : ¬ (a.getLast? = some '&' ∧ b.head? = some '&')) :
    amp (a ++ b) = amp a ++ amp b := by
  unfold amp
  fun_induction replacePair '&' " && ".toList a with
  | case1 x y rest hpair ih =>
    obtain ⟨rfl, rfl⟩ := hpair
    have hrest : ¬ (rest.getLast? = some '&' ∧ b.head? = some '&') := by
      rintro ⟨hlast, hhead⟩
      refine h ⟨?_, hhead⟩
      rw [List.getLast?_cons_cons, List.getLast?_cons, hlast]
      rfl
    rw [List.cons_append, List.cons_append, replacePair, if_pos ⟨rfl, rfl⟩, ih hrest,
      List.append_assoc]
  | case2 x y rest hpair ih =>
    rw [List.cons_append, List.cons_append, replacePair, if_neg hpair]
    rw [List.getLast?_cons_cons] at h
    exact congrArg (x :: ·) (ih h)
  | case3 rest hrest =>
    cases rest with
    | nil => rfl
    | cons x rest =>
      cases rest with
      | cons y rest => exact absurd rfl (hrest x y rest)
      | nil =>
        cases b with
        | nil => rfl
        | cons y b =>
          rw [List.singleton_append, replacePair, if_neg]
          · rfl
          · rintro ⟨rfl, rfl⟩
            exact h ⟨rfl, rfl⟩

/-- A text without `&` has no pair. -/
theorem amp_eq_self {s : List Char} (h : '&' ∉ s) : amp s = s := by
  unfold amp
  fun_induction replacePair '&' " && ".toList s with
  | case1 x y rest hpair ih =>
    rw [hpair.1] at h
    exact absurd List.mem_cons_self h
  | case2 x y rest hpair ih =>
    rw [ih fun hmem => h (List.mem_cons_of_mem x hmem)]
  | case3 rest hrest => rfl

/-- The character makes a blank on its side. -/
def apart (c : Char) : Bool :=
  isWhitespace c || isSep c

/-- The text ends in white space, a separator or a whole `&&`, or is empty. -/
def EndsApart (s : List Char) : Prop :=
  ∀ c ∈ (amp s).getLast?, apart c = true

/-- The text starts with white space, a separator or `&&`, or is empty. -/
def StartsApart (s : List Char) : Prop :=
  ∀ c ∈ (amp s).head?, apart c = true

instance (s : List Char) : Decidable (EndsApart s) :=
  inferInstanceAs (Decidable (∀ c ∈ (amp s).getLast?, _))

instance (s : List Char) : Decidable (StartsApart s) :=
  inferInstanceAs (Decidable (∀ c ∈ (amp s).head?, _))

theorem startsApart_cons {c : Char} (hc : apart c = true) (s : List Char) :
    StartsApart (c :: s) := by
  have hne : c ≠ '&' := fun h => absurd (h ▸ hc) (by decide)
  have hcons : amp ([c] ++ s) = amp [c] ++ amp s :=
    amp_append fun h => hne (Option.some.inj h.1)
  intro d hd
  rw [← List.singleton_append, hcons] at hd
  obtain rfl : c = d := Option.some.inj hd
  exact hc

theorem endsApart_concat {c : Char} (hc : apart c = true) (s : List Char) :
    EndsApart (s ++ [c]) := by
  have hne : c ≠ '&' := fun h => absurd (h ▸ hc) (by decide)
  have hconcat : amp (s ++ [c]) = amp s ++ amp [c] :=
    amp_append fun h => hne (Option.some.inj h.2)
  have hone : amp [c] = [c] := rfl
  intro d hd
  rw [hconcat, hone, List.getLast?_concat] at hd
  obtain rfl : c = d := Option.some.inj hd
  exact hc

theorem head_sepMap {s : List Char} (h : ∀ c ∈ s.head?, apart c = true) :
    ∀ b ∈ (sepMap s).head?, isWhitespace b = true := by
  cases s with
  | nil => exact fun b hb => by cases hb
  | cons c s =>
    intro b hb
    have hc : apart c = true := h c rfl
    rw [sepMap_cons] at hb
    split_ifs at hb with hsep
    · obtain rfl := Option.some.inj hb
      decide
    · obtain rfl := Option.some.inj hb
      rw [apart, Bool.or_eq_true] at hc
      exact hc.resolve_right hsep

theorem getLast_sepMap {s : List Char} (h : ∀ c ∈ s.getLast?, apart c = true) :
    ∀ b ∈ (sepMap s).getLast?, isWhitespace b = true := by
  rcases List.eq_nil_or_concat s with rfl | ⟨s, c, rfl⟩
  · exact fun b hb => by cases hb
  · intro b hb
    rw [List.concat_eq_append] at h hb
    have hc : apart c = true := h c (List.getLast?_concat ..)
    have hone : sepMap [c] = if isSep c then [' ', c, ' '] else [c] := List.flatMap_singleton ..
    rw [sepMap_append, hone] at hb
    split_ifs at hb with hsep
    · rw [List.getLast?_append_of_ne_nil _ (by simp)] at hb
      obtain rfl := Option.some.inj hb
      show isWhitespace ' ' = true
      decide
    · rw [List.getLast?_concat] at hb
      obtain rfl := Option.some.inj hb
      rw [apart, Bool.or_eq_true] at hc
      exact hc.resolve_right hsep

/-- **Behind a separator the words are those of the two texts.** -/
theorem lineWords_append_of_ends {a b : List Char} (ha : EndsApart a)
    (h : ¬ (a.getLast? = some '&' ∧ b.head? = some '&')) :
    lineWords (a ++ b) = lineWords a ++ lineWords b := by
  rw [lineWords_eq, lineWords_eq, lineWords_eq, amp_append h, sepMap_append]
  exact Words.words_append_of_last _ (getLast_sepMap ha)

/-- **Before a separator the words are those of the two texts.** -/
theorem lineWords_append_of_starts {a b : List Char} (hb : StartsApart b)
    (h : ¬ (a.getLast? = some '&' ∧ b.head? = some '&')) :
    lineWords (a ++ b) = lineWords a ++ lineWords b := by
  rw [lineWords_eq, lineWords_eq, lineWords_eq, amp_append h, sepMap_append]
  exact Words.words_append_of_head _ (head_sepMap hb)

/-- **What is neither blank nor a separator is one word**, if it has no `&&`. -/
theorem lineWords_solid {w : List Char} (hne : w ≠ []) (hpair : amp w = w)
    (hsolid : ∀ c ∈ w, apart c = false) : lineWords w = [w] := by
  have hself : sepMap w = w := by
    rw [sepMap, List.flatMap_congr fun c hc => ?_, List.flatMap_singleton']
    have := hsolid c hc
    rw [apart, Bool.or_eq_false_iff] at this
    rw [this.2]
    rfl
  rw [lineWords_eq, hpair, hself]
  refine Words.words_solid hne fun c hc => ?_
  have := hsolid c hc
  rw [apart, Bool.or_eq_false_iff] at this
  exact this.1

/-! ### The whole command -/

/-- A text is what is left of it by `trim`, and white space around. -/
theorem exists_trim (s : List Char) :
    ∃ front back, s = front ++ (Text.trim (String.ofList s)).toList ++ back ∧
      (∀ c ∈ front, isWhitespace c = true) ∧ ∀ c ∈ back, isWhitespace c = true := by
  let rest := s.dropWhile isWhitespace
  refine ⟨s.takeWhile isWhitespace, (rest.reverse.takeWhile isWhitespace).reverse, ?_,
    fun c hc => List.mem_takeWhile_imp hc, fun c hc => ?_⟩
  · have hback : (rest.reverse.dropWhile isWhitespace).reverse ++
        (rest.reverse.takeWhile isWhitespace).reverse = rest := by
      rw [← List.reverse_append, List.takeWhile_append_dropWhile, List.reverse_reverse]
    rw [Text.trim, String.toList_ofList, String.toList_ofList, List.append_assoc, hback,
      List.takeWhile_append_dropWhile]
  · exact List.mem_takeWhile_imp (List.mem_reverse.mp hc)

theorem blanks_apart {s : List Char} (h : ∀ c ∈ s, isWhitespace c = true) :
    EndsApart s ∧ StartsApart s ∧ s.getLast? ≠ some '&' ∧ s.head? ≠ some '&' := by
  have hamp : '&' ∉ s := fun hmem => absurd (h '&' hmem) (by decide)
  have hone : ∀ c ∈ s, apart c = true := fun c hc => by rw [apart, h c hc, Bool.true_or]
  refine ⟨fun c hc => ?_, fun c hc => ?_, fun hc => ?_, fun hc => ?_⟩
  · rw [amp_eq_self hamp] at hc
    exact hone c (List.mem_of_getLast? hc)
  · rw [amp_eq_self hamp] at hc
    exact hone c (List.mem_of_mem_head? hc)
  · exact hamp (List.mem_of_getLast? hc)
  · exact hamp (List.mem_of_mem_head? hc)

theorem lineWords_blanks {s : List Char} (h : ∀ c ∈ s, isWhitespace c = true) :
    lineWords s = [] := by
  have hamp : '&' ∉ s := fun hmem => absurd (h '&' hmem) (by decide)
  have hsep : ∀ c ∈ s, isSep c = false := by
    intro c hc
    by_contra hnot
    have := h c hc
    simp only [isSep, isBracket, Bool.not_eq_false, Bool.or_eq_true, decide_eq_true_eq] at hnot
    rcases hnot with (rfl | rfl) | (((rfl | rfl) | rfl) | rfl) | rfl <;> revert this <;> decide
  have hself : sepMap s = s := by
    rw [sepMap, List.flatMap_congr fun c hc => ?_, List.flatMap_singleton']
    rw [hsep c hc]
    rfl
  rw [lineWords_eq, amp_eq_self hamp, hself]
  exact Words.words_blanks h

/-- The line that the rules look at. -/
def lineOf (U : CaseTable) (command : List Char) : Line :=
  Line.of (spaced (bare U (Text.trim (String.ofList command)).toList))

/-- `trim` changes no word. -/
theorem lineOf_parts (U : CaseTable) (command : List Char) :
    (lineOf U command).parts = lineWords (bare U command) := by
  obtain ⟨front, back, heq, hfront, hback⟩ := exists_trim command
  generalize htext : (Text.trim (String.ofList command)).toList = text at heq
  have hline : (lineOf U command).parts = lineWords (bare U text) := by
    rw [lineOf, htext, Line.of, lineWords]
  obtain ⟨hends, -, hlast, -⟩ := blanks_apart hfront
  obtain ⟨-, hstarts, -, hhead⟩ := blanks_apart hback
  have hwhole : bare U command = front ++ bare U text ++ back := by
    rw [heq, bare_append, bare_append, bare_blanks U hfront, bare_blanks U hback]
  have hbehind : ¬ ((front ++ bare U text).getLast? = some '&' ∧ back.head? = some '&') :=
    fun h => hhead h.2
  have hbefore : ¬ (front.getLast? = some '&' ∧ (bare U text).head? = some '&') :=
    fun h => hlast h.1
  rw [hline, hwhole, lineWords_append_of_starts hstarts hbehind,
    lineWords_append_of_ends hends hbefore, lineWords_blanks hfront, lineWords_blanks hback,
    List.nil_append, List.append_nil]

theorem rules_nil {strict : Bool} {rule : (Line → Bool) × String} (hrule : rule ∈ rules strict) :
    rule.1 { normalized := [], squeezed := [], parts := [] } = false := by
  have hall : (rules strict).all fun rule =>
      !rule.1 { normalized := [], squeezed := [], parts := [] } := by
    cases strict <;> decide
  have h := List.all_eq_true.mp hall rule hrule
  rwa [Bool.not_eq_true'] at h

/-- **A command is blocked exactly when a rule applies to its line.** -/
theorem checkDangerousCommand_isSome {U : CaseTable} {command : List Char} {strict : Bool} :
    (checkDangerousCommand U (String.ofList command) strict).isSome = true ↔
      ∃ rule ∈ rules strict, rule.1 (lineOf U command) = true := by
  have hspaced : spaced [] = [] := by decide
  have hline : Line.of [] = { normalized := [], squeezed := [], parts := [] } := by
    rw [Line.of, Words.words_nil]
    rfl
  rw [checkDangerousCommand]
  dsimp only
  split_ifs with hempty
  · have hnil : lineOf U command = { normalized := [], squeezed := [], parts := [] } := by
      rw [lineOf, bare, hempty, stripped, List.filter_nil, List.filter_nil, hspaced, hline]
    refine iff_of_false Bool.false_ne_true ?_
    rintro ⟨rule, hrule, happlies⟩
    rw [hnil, rules_nil hrule] at happlies
    cases happlies
  · rw [Option.isSome_map, List.find?_isSome]
    exact Iff.rfl

/-- The same in terms of the characters, which evaluates faster. -/
theorem isSome_eq_any (U : CaseTable) (command : List Char) (strict : Bool) :
    (checkDangerousCommand U (String.ofList command) strict).isSome =
      (rules strict).any fun rule => rule.1 (Line.of (spaced (bare U
        ((command.dropWhile isWhitespace).reverse.dropWhile isWhitespace).reverse))) := by
  rw [Bool.eq_iff_iff, checkDangerousCommand_isSome, List.any_eq_true, lineOf, Text.trim,
    String.toList_ofList, String.toList_ofList]

/-! ### The removals that the guard reads -/

/-- The guard takes the word for a recursive option. -/
def readsOption (word : List Char) : Bool :=
  if startsWith word "--" then word = "--recursive".toList || word = "--dir".toList
  else startsWith word "-" && ((word.drop 1).contains 'r' || (word.drop 1).contains 'R')

/-- What the guard takes for operands: before a first `--` what has no dash, and behind it all. -/
def operandsOf (args : List (List Char)) : List (List Char) :=
  (args.takeWhile (· ≠ "--".toList)).filter (fun arg => !startsWith arg "-") ++
    (args.dropWhile (· ≠ "--".toList)).filter (· ≠ "--".toList)

/-- **A removal that the guard reads**: in the words there is an `rm`, and up to the next separator
a recursive option before a first `--`, and a dangerous target. -/
def ReadsRemoval (words : List (List Char)) : Prop :=
  ∃ before rest args, words = before ++ "rm".toList :: rest ∧
    args = rest.takeWhile (fun word => !isSeparator word) ∧
    (∃ option ∈ args.takeWhile (· ≠ "--".toList), readsOption option = true) ∧
    ∃ target ∈ operandsOf args, isDangerousRecursiveDeleteTarget target = true

theorem rmArgs_false {recursive : Bool} {targets rest : List (List Char)} :
    rmArgs recursive false targets rest = (recursive,
      targets ++ (rest.takeWhile fun word => !isSeparator word).filter (· ≠ "--".toList)) := by
  induction rest generalizing targets with
  | nil => rw [rmArgs, List.takeWhile_nil, List.filter_nil, List.append_nil]
  | cons arg rest ih =>
    have hno : ∀ p : Prop, ¬ ((false : Bool) = true ∧ p) := fun p h => Bool.false_ne_true h.1
    rw [rmArgs]
    by_cases hseparator : isSeparator arg = true
    · rw [if_pos hseparator, List.takeWhile_cons_of_neg (by simp [hseparator]), List.filter_nil,
        List.append_nil]
    · rw [if_neg hseparator, if_neg (hno _), if_neg (hno _),
        List.takeWhile_cons_of_pos (by simp [hseparator]), ih, ih]
      by_cases hdashes : arg = "--".toList
      · rw [if_pos hdashes, List.filter_cons_of_neg (by simp [hdashes])]
      · rw [if_neg hdashes, List.filter_cons_of_pos (by simpa using hdashes), List.append_assoc,
          List.singleton_append]

/-- What the loop over the arguments finds. -/
theorem rmArgs_eq {recursive : Bool} {targets rest : List (List Char)} :
    rmArgs recursive true targets rest =
      (recursive || ((rest.takeWhile fun word => !isSeparator word).takeWhile
          (· ≠ "--".toList)).any readsOption,
        targets ++ operandsOf (rest.takeWhile fun word => !isSeparator word)) := by
  induction rest generalizing recursive targets with
  | nil => simp [rmArgs, operandsOf]
  | cons arg rest ih =>
    rw [rmArgs]
    by_cases hseparator : isSeparator arg = true
    · rw [if_pos hseparator, List.takeWhile_cons_of_neg (by simp [hseparator])]
      simp [operandsOf]
    rw [if_neg hseparator, List.takeWhile_cons_of_pos (by simp [hseparator])]
    by_cases hdashes : arg = "--".toList
    · rw [if_pos hdashes, rmArgs_false, operandsOf, List.takeWhile_cons_of_neg (by simp [hdashes]),
        List.dropWhile_cons_of_neg (by simp [hdashes]), List.filter_cons_of_neg (by simp [hdashes])]
      simp
    rw [if_neg hdashes, operandsOf, List.takeWhile_cons_of_pos (by simpa using hdashes),
      List.dropWhile_cons_of_pos (by simpa using hdashes), List.any_cons, readsOption]
    by_cases hlong : startsWith arg "--" = true
    · have hdash : startsWith arg "-" = true := by
        have hfront : "-".toList <+: "--".toList := ⟨['-'], rfl⟩
        exact decide_eq_true (hfront.trans (of_decide_eq_true hlong))
      rw [if_pos ⟨rfl, hlong⟩, if_pos hlong, ih, List.filter_cons_of_neg (by simp [hdash]),
        operandsOf]
      simp only [Bool.or_assoc]
    · rw [if_neg fun h => hlong h.2, if_neg hlong]
      by_cases hdash : startsWith arg "-" = true
      · rw [if_pos ⟨rfl, hdash⟩, ih, List.filter_cons_of_neg (by simp [hdash]), operandsOf, hdash]
        simp only [Bool.or_assoc, Bool.true_and]
      · have hnone : startsWith arg "-" = false := Bool.not_eq_true _ ▸ hdash
        rw [if_neg fun h => hdash h.2, ih, List.filter_cons_of_pos (by simp [hdash]), operandsOf,
          hnone]
        simp only [Bool.false_and, Bool.false_or, List.append_assoc, List.cons_append,
          List.nil_append]

/-- **The loops of the guard find a removal exactly when there is one in the words.** -/
theorem hasDangerousRecursiveRm_iff {words : List (List Char)} :
    hasDangerousRecursiveRm words = true ↔ ReadsRemoval words := by
  have hone : ∀ rest, rmDangerous rest = true ↔
      (∃ option ∈ (rest.takeWhile fun word => !isSeparator word).takeWhile (· ≠ "--".toList),
        readsOption option = true) ∧
      ∃ target ∈ operandsOf (rest.takeWhile fun word => !isSeparator word),
        isDangerousRecursiveDeleteTarget target = true := by
    intro rest
    rw [rmDangerous, rmArgs_eq, Bool.false_or, List.nil_append, Bool.and_eq_true, List.any_eq_true,
      List.any_eq_true]
  induction words with
  | nil =>
    refine iff_of_false Bool.false_ne_true ?_
    rintro ⟨before, rest, args, hwords, -⟩
    exact absurd hwords (by simp)
  | cons token words ih =>
    rw [hasDangerousRecursiveRm, Bool.or_eq_true, Bool.and_eq_true, decide_eq_true_iff]
    refine (or_congr (and_congr_right' (hone words)) ih).trans ⟨?_, ?_⟩
    · rintro (⟨rfl, hfound⟩ | ⟨before, rest, args, rfl, hargs, hfound⟩)
      · exact ⟨[], words, _, rfl, rfl, hfound⟩
      · exact ⟨token :: before, rest, args, rfl, hargs, hfound⟩
    · rintro ⟨before, rest, args, hwords, rfl, hfound⟩
      cases before with
      | nil =>
        obtain ⟨rfl, rfl⟩ := List.cons.inj hwords
        exact Or.inl ⟨rfl, hfound⟩
      | cons first before =>
        obtain ⟨rfl, rfl⟩ := List.cons.inj hwords
        exact Or.inr ⟨before, rest, _, rfl, rfl, hfound⟩

end Guard
end Api
end HelmSsh
