/-
# The responses of the API log

`formatApiLogResponse` of `src/lib/apiLogEntries.ts`, which lays a recorded response out over
several lines.  It takes a valid JSON text apart with a regular expression and joins the tokens
again, with line breaks and blanks between them; what is no JSON text, what is too long and what
is nested too deeply stays as it is.

* `findTokens_eq` — the expression finds the tokens of a JSON text, and only these.
* `formatFrom_eq` — the loop gives up, or its result is the tokens with white space between them.
* `lexes_spread` — which is a text of the same tokens.
* `formatApiLogResponse_faithful` — every response is returned, as it is or with the same tokens.
-/

import HelmSsh.JsonText
import Mathlib.Data.Int.Notation
import Mathlib.Data.Int.Order.Basic

namespace HelmSsh
namespace Frontend
namespace ApiLogEntries

open JsonText

/-! ### The regular expression -/

/-- What `\s` matches. -/
def regexSpaces : List UInt16 :=
  [0x09, 0x0A, 0x0B, 0x0C, 0x0D, 0x20, 0xA0, 0x1680, 0x2000, 0x2001, 0x2002, 0x2003, 0x2004,
    0x2005, 0x2006, 0x2007, 0x2008, 0x2009, 0x200A, 0x2028, 0x2029, 0x202F, 0x205F, 0x3000, 0xFEFF]

/-- What `.` does not match. -/
def lineTerminators : List UInt16 := [0x0A, 0x0D, 0x2028, 0x2029]

/-- The class `[{}\[\],:]`. -/
def isDelimiter (c : UInt16) : Bool :=
  (ascii "\x7b\x7d[],:").contains c

/-- The class `[^\s{}\[\],:]`. -/
def isOther (c : UInt16) : Bool :=
  !regexSpaces.contains c && !isDelimiter c

/-- `(?:\\.|[^"\\])*"`, from behind the first quote: what is between the quotes, and the rest. -/
def matchString : CodeUnits → Option (CodeUnits × CodeUnits)
  | [] => none
  | c :: rest =>
    if c = quote then some ([], rest)
    else if c = backslash then
      match rest with
      | [] => none
      | e :: rest =>
        if lineTerminators.contains e then none
        else (matchString rest).map fun found => (c :: e :: found.1, found.2)
    else (matchString rest).map fun found => (c :: found.1, found.2)

/-- The alternatives of the expression at a place: the match, and the rest. -/
def matchAt (c : UInt16) (rest : CodeUnits) : Option (CodeUnits × CodeUnits) :=
  match if c = quote then matchString rest else none with
  | some (body, rest) => some (quote :: (body ++ [quote]), rest)
  | none =>
    if isDelimiter c then some ([c], rest)
    else if isOther c then
      some ((c :: rest).takeWhile isOther, (c :: rest).dropWhile isOther)
    else none

/-- `response.match(…)` with the flag `g`: the matches from the left, with at most that many code
units to read. -/
def matchesFrom : ℕ → CodeUnits → List CodeUnits
  | _, [] => []
  | 0, _ :: _ => []
  | fuel + 1, c :: rest =>
    match matchAt c rest with
    | some (found, rest) => found :: matchesFrom fuel rest
    | none => matchesFrom fuel rest

/-- The tokens that the expression finds. -/
def findTokens (response : CodeUnits) : List CodeUnits :=
  matchesFrom response.length response

/-! ### The layout -/

/-- `MAX_RESPONSE_LENGTH`. -/
def maxResponseLength : ℕ := 2 * 1024 * 1024

/-- `newline`: a line break and two blanks for each level; `repeat` throws on a negative count. -/
def newline (depth : ℤ) : Option CodeUnits :=
  if depth < 0 then none
  else some (unit '\n' :: (List.replicate depth.toNat (ascii "  ")).flatten)

/-- The token is `{` or `[`. -/
def isOpen (token : CodeUnits) : Bool :=
  token = [Mark.beginObject.unit] || token = [Mark.beginArray.unit]

/-- The token is `}` or `]`. -/
def isClose (token : CodeUnits) : Bool :=
  token = [Mark.endObject.unit] || token = [Mark.endArray.unit]

/-- The loop over the tokens: those ahead, the one before them, the depth and the text so far. -/
def formatFrom (response : CodeUnits) :
    List CodeUnits → Option CodeUnits → ℤ → CodeUnits → Option CodeUnits
  | [], _, _, formatted => some formatted
  | token :: rest, previous, depth, formatted =>
    let next := fun depth formatted =>
      if formatted.length > 2 * maxResponseLength then some response
      else formatFrom response rest (some token) depth formatted
    if isOpen token then
      if depth + 1 > 64 then some response
      else if rest.head?.any isClose then next (depth + 1) (formatted ++ token)
      else (newline (depth + 1)).bind fun line => next (depth + 1) (formatted ++ token ++ line)
    else if isClose token then
      if previous.any isOpen then next (depth - 1) (formatted ++ token)
      else (newline (depth - 1)).bind fun line => next (depth - 1) (formatted ++ line ++ token)
    else if token = [Mark.comma.unit] then
      (newline depth).bind fun line => next depth (formatted ++ token ++ line)
    else
      next depth (formatted ++ if token = [Mark.colon.unit] then ascii ": " else token)

/-- `formatApiLogResponse`; `none` would be an exception. -/
def formatApiLogResponse (response : CodeUnits) : Option CodeUnits :=
  if response.length > maxResponseLength then some response
  else if (parse response).isNone then some response
  else formatFrom response (findTokens response) none 0 []

/-! ### The tokens that are found -/

theorem isDelimiter_mark (mark : Mark) : isDelimiter mark.unit = true := by
  cases mark <;> decide

/-- What belongs to a literal is no delimiter and no white space. -/
theorem isOther_of_literalUnit {c : UInt16} (h : isLiteralUnit c = true) :
    isDelimiter c = false ∧ isOther c = true := by
  have hspaces : ∀ d ∈ regexSpaces, isLiteralUnit d = false :=
    @of_decide_eq_true _ (List.decidableBAll _ _) rfl
  have hdelimiters : ∀ d ∈ ascii "\x7b\x7d[],:", isLiteralUnit d = false :=
    @of_decide_eq_true _ (List.decidableBAll _ _) rfl
  have hdelimiter : isDelimiter c = false := by
    by_contra hin
    rw [Bool.not_eq_false, isDelimiter, List.contains_iff_mem] at hin
    rw [hdelimiters c hin] at h
    cases h
  have hspace : regexSpaces.contains c = false := by
    by_contra hin
    rw [Bool.not_eq_false, List.contains_iff_mem] at hin
    rw [hspaces c hin] at h
    cases h
  rw [isOther, hdelimiter, hspace]
  exact ⟨rfl, rfl⟩

theorem matchAt_space {c : UInt16} (h : isSpace c = true) (rest : CodeUnits) :
    matchAt c rest = none := by
  rcases isSpace_iff.mp h with rfl | rfl | rfl | rfl <;> rfl

theorem matchString_body {body : CodeUnits} (h : Body body) (rest : CodeUnits) :
    matchString (body ++ quote :: rest) = some (body, rest) := by
  have hne : backslash ≠ quote := by decide
  have hescapes : ∀ e ∈ ascii "\"\\/bfnrt", lineTerminators.contains e = false :=
    @of_decide_eq_true _ (List.decidableBAll _ _) rfl
  have hunicode : lineTerminators.contains (unit 'u') = false := by decide
  induction h with
  | nil => simp [matchString.eq_def]
  | plain hquote hbackslash _ _ ih =>
    rw [List.cons_append, matchString.eq_def]
    simp [hquote, hbackslash, ih]
  | @escape e body he _ ih =>
    rw [isEscape, List.contains_iff_mem] at he
    have hterminator := hescapes e he
    rw [List.cons_append, List.cons_append, matchString.eq_def]
    simp only [if_neg hne, if_true, hterminator, ih]
    rfl
  | hex _ _ ih =>
    rw [List.cons_append, List.cons_append, matchString.eq_def]
    simp only [if_neg hne, if_true, hunicode, ih]
    rfl

variable {tokens : List Token}

/-- Behind a token that is no mark, the text goes on with white space or with a mark. -/
theorem ends_of_lexes {rest : CodeUnits} (h : Lexes rest tokens)
    (hnext : ∀ next ∈ tokens.head?, next.isAtom = false) :
    ∀ c ∈ rest.head?, isOther c = false := by
  intro c hc
  cases h with
  | nil => cases hc
  | space hspace _ =>
    obtain rfl := Option.some.inj hc
    rcases isSpace_iff.mp hspace with rfl | rfl | rfl | rfl <;> rfl
  | @token first rest tokens _ _ _ =>
    cases first with
    | mark m =>
      obtain rfl := Option.some.inj hc
      rw [isOther, isDelimiter_mark, Bool.not_true, Bool.and_false]
    | string body => exact absurd (hnext _ rfl) (Bool.noConfusion : ¬ true = false)
    | literal text => exact absurd (hnext _ rfl) (Bool.noConfusion : ¬ true = false)

theorem matchAt_token {first : Token} {c : UInt16} {text rest : CodeUnits}
    (hvalid : first.Valid) (htext : first.text = c :: text)
    (hends : first.isAtom = true → ∀ d ∈ rest.head?, isOther d = false) :
    matchAt c (text ++ rest) = some (first.text, rest) := by
  cases first with
  | mark m =>
    obtain ⟨rfl, rfl⟩ := List.cons.inj htext
    rw [matchAt, if_neg m.unit_other.2.1]
    dsimp only
    rw [if_pos (isDelimiter_mark m)]
    rfl
  | string body =>
    obtain ⟨rfl, rfl⟩ := List.cons.inj htext
    rw [matchAt, if_pos rfl, List.append_assoc, List.singleton_append, matchString_body hvalid]
    rfl
  | literal literal =>
    have htext : literal = c :: text := htext
    have hother : ∀ d ∈ literal, isOther d = true :=
      fun d hd => (isOther_of_literalUnit (hvalid.2 d hd)).2
    have hc := isOther_of_literalUnit (hvalid.2 c (htext ▸ List.mem_cons_self))
    have hquote : c ≠ quote := by
      rintro rfl
      exact absurd (hvalid.2 quote (htext ▸ List.mem_cons_self)) (by decide)
    obtain ⟨htake, hdrop⟩ := span_of_ends hother (hends rfl)
    rw [matchAt, if_neg hquote]
    dsimp only
    rw [if_neg (by rw [hc.1]; exact Bool.false_ne_true), if_pos hc.2, ← List.cons_append, ← htext,
      htake, hdrop]
    rfl

theorem matchesFrom_of_lexes {text : CodeUnits} (h : Lexes text tokens)
    {s s' : State} (hrun : run s tokens = some s') {fuel : ℕ} (hfuel : text.length ≤ fuel) :
    matchesFrom fuel text = tokens.map Token.text := by
  induction h generalizing s fuel with
  | nil => cases fuel <;> rfl
  | @space c rest tokens hc _ ih =>
    cases fuel with
    | zero => exact absurd hfuel (Nat.not_succ_le_zero _)
    | succ fuel =>
      rw [matchesFrom, matchAt_space hc]
      exact ih hrun (Nat.le_of_succ_le_succ hfuel)
  | @token first rest tokens hvalid _ hrest ih =>
    obtain ⟨c, text, htext⟩ := List.exists_cons_of_ne_nil (Token.text_ne_nil hvalid)
    obtain ⟨m, -, hnext⟩ := run_cons_eq_some hrun
    have hfound : matchAt c (text ++ rest) = some (first.text, rest) :=
      matchAt_token hvalid htext fun hatom => ends_of_lexes hrest (run_atom hrun hatom)
    have hlength : (c :: (text ++ rest)).length ≤ fuel := by
      rw [← List.cons_append, ← htext]
      exact hfuel
    rw [htext, List.cons_append]
    cases fuel with
    | zero => exact absurd hlength (Nat.not_succ_le_zero _)
    | succ fuel =>
      have hless := Nat.le_of_succ_le_succ hlength
      rw [List.length_append] at hless
      rw [matchesFrom, hfound]
      dsimp only
      rw [ih hnext (Nat.le_trans (Nat.le_add_left _ _) hless)]
      rfl

/-- **The expression finds the tokens of a JSON text**, and only these. -/
theorem findTokens_eq {response : CodeUnits} {s : State}
    (hlex : lex response = some tokens) (hrun : run (.value []) tokens = some s) :
    findTokens response = tokens.map Token.text :=
  matchesFrom_of_lexes (lex_eq_some_iff.mp hlex) hrun le_rfl

/-! ### The text that is put together -/

/-- A line break, and the blanks of a level that is not negative. -/
def line (depth : ℕ) : CodeUnits :=
  unit '\n' :: (List.replicate depth (ascii "  ")).flatten

/-- What is put before a token. -/
def before (previous : Option Token) (depth : ℕ) (token : Token) : CodeUnits :=
  if token.closes && !previous.any Token.opens then line (depth - 1) else []

/-- What is put behind a token. -/
def after (depth : ℕ) (token : Token) (next : Option Token) : CodeUnits :=
  if token.opens then if next.any Token.closes then [] else line (depth + 1)
  else if token = .mark .comma then line depth
  else if token = .mark .colon then ascii " "
  else []

/-- The tokens with line breaks and blanks between them. -/
def spread : Option Token → ℕ → List Token → CodeUnits
  | _, _, [] => []
  | previous, depth, token :: rest =>
    before previous depth token ++ (token.text ++ (after depth token rest.head? ++
      spread (some token) (depth + token.opens.toNat - token.closes.toNat) rest))

theorem newline_eq {depth : ℤ} {level : ℕ} (h : depth = level) :
    newline depth = some (line level) := by
  subst h
  rw [newline, if_neg (Int.not_lt.mpr (Int.natCast_nonneg level)), Int.toNat_natCast]
  rfl

/-- The comparisons of the loop tell the tokens apart. -/
theorem isOpen_text {token : Token} (h : token.Valid) :
    isOpen token.text = token.opens ∧ isClose token.text = token.closes := by
  have hmark (mark : Mark) :
      decide (token.text = [mark.unit]) = decide (token = .mark mark) :=
    decide_eq_decide.mpr (h.text_eq_iff mark)
  rw [isOpen, isClose, hmark, hmark, hmark, hmark]
  exact ⟨rfl, rfl⟩

theorem any_text {neighbour : Option Token} (h : ∀ token ∈ neighbour, token.Valid) :
    (neighbour.map Token.text).any isOpen = neighbour.any Token.opens ∧
      (neighbour.map Token.text).any isClose = neighbour.any Token.closes := by
  cases neighbour with
  | none => exact ⟨rfl, rfl⟩
  | some token => exact isOpen_text (h token rfl)

theorem closes_of_opens {token : Token} (h : token.opens = true) : token.closes = false := by
  rw [Token.opens, Bool.or_eq_true, decide_eq_true_iff, decide_eq_true_iff] at h
  rcases h with rfl | rfl <;> rfl

theorem not_comma_of_closes {token : Token} (h : token.closes = true) :
    token ≠ .mark .comma ∧ token ≠ .mark .colon := by
  rw [Token.closes, Bool.or_eq_true, decide_eq_true_iff, decide_eq_true_iff] at h
  rcases h with rfl | rfl <;> decide

/-- One token of the loop: it gives up, or it adds the token with what is put around it. -/
theorem formatFrom_cons (response : CodeUnits) {token : Token} {rest : List Token} {s m : State}
    (hm : step s token = some m) (hvalid : ∀ t ∈ token :: rest, t.Valid)
    {previous : Option Token} (hprevious : ∀ t ∈ previous, t.Valid) (formatted : CodeUnits) :
    formatFrom response ((token :: rest).map Token.text) (previous.map Token.text) s.depth
        formatted = some response ∨
      ∃ formatted', formatted' = formatted ++
          (before previous s.depth token ++ (token.text ++ after s.depth token rest.head?)) ∧
        formatFrom response ((token :: rest).map Token.text) (previous.map Token.text) s.depth
          formatted =
        if formatted'.length > 2 * maxResponseLength then some response
        else formatFrom response (rest.map Token.text) (some token.text) m.depth formatted' := by
  obtain ⟨hfirst, hvalid⟩ := List.forall_mem_cons.mp hvalid
  have hhead : ∀ next ∈ rest.head?, next.Valid :=
    fun next hin => hvalid next (List.mem_of_mem_head? hin)
  have hdepth := step_depth hm
  obtain ⟨hopen, hclose⟩ := isOpen_text hfirst
  rw [List.map_cons, formatFrom]
  dsimp only
  rw [hopen, hclose, List.head?_map, (any_text hhead).2, (any_text hprevious).1]
  simp only [hfirst.text_eq_iff .comma, hfirst.text_eq_iff .colon]
  by_cases hopens : token.opens = true
  · have hcloses : token.closes = false := closes_of_opens hopens
    rw [hopens, hcloses] at hdepth
    have hlevel : (s.depth : ℤ) + 1 = m.depth := by
      have hdepth : m.depth = s.depth + 1 := hdepth
      omega
    rw [if_pos hopens, before, hcloses, Bool.false_and, if_neg Bool.false_ne_true,
      List.nil_append, after, if_pos hopens]
    by_cases hdeep : (s.depth : ℤ) + 1 > 64
    · exact .inl (if_pos hdeep)
    · rw [if_neg hdeep, hlevel]
      refine .inr ⟨_, rfl, ?_⟩
      by_cases hempty : rest.head?.any Token.closes = true
      · rw [if_pos hempty, if_pos hempty, List.append_nil]
      · rw [if_neg hempty, if_neg hempty, newline_eq (hlevel.symm.trans rfl), Option.bind_some,
          ← List.append_assoc]
  rw [if_neg hopens, after, if_neg hopens, before]
  rw [Bool.not_eq_true] at hopens
  rw [hopens] at hdepth
  have hdepth : m.depth + token.closes.toNat = s.depth := hdepth
  by_cases hcloses : token.closes = true
  · obtain ⟨hnot_comma, hnot_colon⟩ := not_comma_of_closes hcloses
    rw [hcloses] at hdepth
    have hlevel : (s.depth : ℤ) - 1 = m.depth := by
      have hdepth : m.depth + 1 = s.depth := hdepth
      omega
    rw [if_pos hcloses, if_neg hnot_comma, if_neg hnot_colon, List.append_nil, hcloses,
      Bool.true_and, hlevel]
    refine .inr ⟨_, rfl, ?_⟩
    by_cases hempty : previous.any Token.opens = true
    · rw [if_pos hempty, hempty, Bool.not_true, if_neg Bool.false_ne_true, List.nil_append]
    · have hline : newline m.depth = some (line (s.depth - 1)) := newline_eq (by omega)
      rw [if_neg hempty, Bool.eq_false_iff.mpr hempty, Bool.not_false, if_pos rfl, hline,
        Option.bind_some, ← List.append_assoc]
  rw [if_neg hcloses]
  rw [Bool.not_eq_true] at hcloses
  rw [hcloses] at hdepth
  have hlevel : (s.depth : ℤ) = m.depth := by
    have hdepth : m.depth = s.depth := hdepth
    omega
  rw [hcloses, Bool.false_and, if_neg Bool.false_ne_true, List.nil_append]
  refine .inr ⟨_, rfl, ?_⟩
  by_cases hcomma : token = .mark .comma
  · rw [if_pos hcomma, if_pos hcomma, newline_eq rfl, Option.bind_some, hlevel,
      ← List.append_assoc]
  · rw [if_neg hcomma, if_neg hcomma, hlevel]
    by_cases hcolon : token = .mark .colon
    · rw [if_pos hcolon, if_pos hcolon, hcolon]
      rfl
    · rw [if_neg hcolon, if_neg hcolon, List.append_nil]

/-- **The loop gives up, or it puts the tokens together.**  In particular it never throws. -/
theorem formatFrom_eq (response : CodeUnits) {s s' : State}
    (hrun : run s tokens = some s') (hvalid : ∀ token ∈ tokens, token.Valid)
    (previous : Option Token) (hprevious : ∀ token ∈ previous, token.Valid)
    (formatted : CodeUnits) :
    formatFrom response (tokens.map Token.text) (previous.map Token.text) s.depth formatted =
        some response ∨
      formatFrom response (tokens.map Token.text) (previous.map Token.text) s.depth formatted =
        some (formatted ++ spread previous s.depth tokens) := by
  induction tokens generalizing s previous formatted with
  | nil => exact .inr (by rw [spread, List.append_nil]; rfl)
  | cons token rest ih =>
    obtain ⟨m, hm, hrest⟩ := run_cons_eq_some hrun
    rcases formatFrom_cons response hm hvalid hprevious formatted with h | ⟨formatted', heq, h⟩
    · exact .inl h
    · rw [h]
      split_ifs
      · exact .inl rfl
      · obtain ⟨hfirst, hvalid⟩ := List.forall_mem_cons.mp hvalid
        have hdepth := step_depth hm
        have hspread : formatted' ++ spread (some token) m.depth rest =
            formatted ++ spread previous s.depth (token :: rest) := by
          have hm_depth : s.depth + token.opens.toNat - token.closes.toNat = m.depth := by omega
          rw [heq, spread, hm_depth]
          simp only [List.append_assoc]
        rw [← hspread]
        exact ih hrest hvalid (some token)
          (fun t ht => Option.some.inj ht ▸ hfirst) formatted'

/-! ### The result has the same tokens -/

theorem line_spaces (depth : ℕ) : ∀ c ∈ line depth, isSpace c = true := by
  intro c hc
  rcases List.mem_cons.mp hc with rfl | hc
  · rfl
  · obtain ⟨blanks, hblanks, hin⟩ := List.mem_flatten.mp hc
    rw [List.eq_of_mem_replicate hblanks] at hin
    have hall : ∀ d ∈ ascii "  ", isSpace d = true := List.all_eq_true.mp rfl
    exact hall c hin

/-- What is put before and behind a token is white space. -/
theorem around_spaces (previous next : Option Token) (depth : ℕ) (token : Token) :
    (∀ c ∈ before previous depth token, isSpace c = true) ∧
      ∀ c ∈ after depth token next, isSpace c = true := by
  have hnil : ∀ c ∈ ([] : CodeUnits), isSpace c = true := fun _ h => absurd h List.not_mem_nil
  constructor
  · unfold before
    split_ifs
    · exact line_spaces _
    · exact hnil
  · unfold after
    split_ifs
    · exact hnil
    · exact line_spaces _
    · exact line_spaces _
    · exact List.all_eq_true.mp rfl
    · exact hnil

theorem after_atom {token : Token} (h : token.isAtom = true) (depth : ℕ) (next : Option Token) :
    after depth token next = [] := by
  cases token with
  | mark m => cases h
  | string body => rfl
  | literal text => rfl

/-- What comes before a mark does not belong to a literal. -/
theorem spread_ends (previous : Option Token) (depth : ℕ)
    (h : ∀ next ∈ tokens.head?, next.isAtom = false) :
    ∀ c ∈ (spread previous depth tokens).head?, isLiteralUnit c = false := by
  intro c hc
  cases tokens with
  | nil => cases hc
  | cons token rest =>
    rw [spread] at hc
    cases hbefore : before previous depth token with
    | nil =>
      rw [hbefore] at hc
      cases token with
      | mark m =>
        obtain rfl := Option.some.inj hc
        exact m.unit_other.2.2
      | string body => exact absurd (h _ rfl) (Bool.noConfusion : ¬ true = false)
      | literal text => exact absurd (h _ rfl) (Bool.noConfusion : ¬ true = false)
    | cons d spaces =>
      rw [hbefore] at hc
      obtain rfl := Option.some.inj hc
      have hspace := (around_spaces previous none depth token).1 d (hbefore ▸ List.mem_cons_self)
      rcases isSpace_iff.mp hspace with rfl | rfl | rfl | rfl <;> rfl

/-- **The text that is put together has the same tokens.** -/
theorem lexes_spread {s s' : State} (hrun : run s tokens = some s')
    (hvalid : ∀ token ∈ tokens, token.Valid) (previous : Option Token) (depth : ℕ) :
    Lexes (spread previous depth tokens) tokens := by
  induction tokens generalizing s previous depth with
  | nil => exact .nil
  | cons token rest ih =>
    obtain ⟨m, -, hrest⟩ := run_cons_eq_some hrun
    obtain ⟨hfirst, hvalid⟩ := List.forall_mem_cons.mp hvalid
    obtain ⟨hbefore, hafter⟩ := around_spaces previous rest.head? depth token
    rw [spread]
    refine Lexes.spaces hbefore (.token hfirst ?_ (Lexes.spaces hafter (ih hrest hvalid _ _)))
    cases token with
    | mark m => trivial
    | string body => trivial
    | literal text =>
      rw [after_atom rfl, List.nil_append]
      exact spread_ends _ _ (run_atom hrun rfl)

/-! ### Every response -/

/-- What the formatting of a response promises: it comes to a result, which is the response itself
when that is no JSON text; which always has the same tokens, as they were written, and so is read
as the same document; and which is its own formatting. -/
structure Formats (response result : CodeUnits) : Prop where
  returned : formatApiLogResponse response = some result
  unchanged : parse response = none → result = response
  tokens : lex result = lex response
  document : parse result = parse response
  idempotent : formatApiLogResponse result = some result

/-- **Every response is formatted faithfully.** -/
theorem formatApiLogResponse_faithful (response : CodeUnits) :
    ∃ result, Formats response result := by
  have hsame (h : formatApiLogResponse response = some response) :
      ∃ result, Formats response result :=
    ⟨response, h, fun _ => rfl, rfl, rfl, h⟩
  by_cases hlong : response.length > maxResponseLength
  · exact hsame (if_pos hlong)
  cases hparse : parse response with
  | none =>
    refine hsame ?_
    rw [formatApiLogResponse, if_neg hlong, hparse]
    rfl
  | some doc =>
    obtain ⟨tokens, hlex, htokens⟩ := Option.bind_eq_some_iff.mp hparse
    obtain ⟨s, hrun, -⟩ := Option.bind_eq_some_iff.mp htokens
    have hvalid := (lex_eq_some_iff.mp hlex).valid
    -- the outcome for any text of these tokens
    have hformat (text : CodeUnits) (hshort : ¬ text.length > maxResponseLength)
        (hlex : lex text = some tokens) :
        formatApiLogResponse text = some text ∨
          formatApiLogResponse text = some (spread none 0 tokens) := by
      have hsome : parse text = some doc := Option.bind_eq_some_iff.mpr ⟨tokens, hlex, htokens⟩
      rw [formatApiLogResponse, if_neg hshort, hsome, Option.isNone_some, if_neg Bool.false_ne_true,
        findTokens_eq hlex hrun]
      exact formatFrom_eq text hrun hvalid none
        (fun _ h => absurd h (Option.not_mem_none _)) []
    rcases hformat response hlong hlex with heq | heq
    · exact hsame heq
    · have hresult : lex (spread none 0 tokens) = some tokens :=
        lex_eq_some_iff.mpr (lexes_spread hrun hvalid none 0)
      refine ⟨spread none 0 tokens, heq, fun h => ?_, hresult.trans hlex.symm, ?_, ?_⟩
      · rw [hparse] at h
        cases h
      · rw [parse, hresult, parse, hlex]
      · by_cases hlong' : (spread none 0 tokens).length > maxResponseLength
        · exact if_pos hlong'
        · exact (hformat _ hlong' hresult).elim id id

example : formatApiLogResponse (ascii "[1, \x7b\x7d]") = some (ascii "[\n  1,\n  \x7b\x7d\n]") := by
  decide

end ApiLogEntries
end Frontend
end HelmSsh
