/-
# JSON texts

A text is a list of UTF-16 code units.  ECMA-404 says what a JSON text is in two steps: a sequence
of tokens with white space around them, and what sequences of tokens are a value.  The first step
is `Lexes`, which `lex` decides (`lex_eq_some_iff`); strings and numbers stay as they are written.
The second one is a machine over the tokens with a stack of what is open (`step`), and `parse` is
both.

Two facts about documents tell how much of their white space may change: a token counts what is
open up and down (`step_depth`), and behind a token that is not a mark comes a mark (`run_atom`),
so that two numbers never come to stand next to each other.
-/

import Mathlib.Data.Nat.Notation
import Mathlib.Data.List.TakeWhile
import Mathlib.Tactic.Common

/-- A text of UTF-16 code units. -/
abbrev CodeUnits := List UInt16

namespace JsonText

/-- The code unit of a character of the basic plane. -/
def unit (c : Char) : UInt16 := c.toNat.toUInt16

/-- The code units of an ASCII text. -/
def ascii (text : String) : CodeUnits := text.toList.map unit

/-- The mark around strings. -/
def quote : UInt16 := unit '"'

/-- The mark before an escaped character. -/
def backslash : UInt16 := unit '\\'

/-- White space: tabulation, line feed, carriage return and space. -/
def isSpace (c : UInt16) : Bool :=
  [0x09, 0x0A, 0x0D, 0x20].contains c

/-! ### Tokens -/

/-- The six structural tokens. -/
inductive Mark where
  | beginObject
  | endObject
  | beginArray
  | endArray
  | comma
  | colon
  deriving DecidableEq

/-- How a mark is written. -/
def Mark.unit : Mark → UInt16
  | .beginObject => JsonText.unit '\x7b'
  | .endObject => JsonText.unit '\x7d'
  | .beginArray => JsonText.unit '['
  | .endArray => JsonText.unit ']'
  | .comma => JsonText.unit ','
  | .colon => JsonText.unit ':'

/-- All the marks. -/
def Mark.all : List Mark :=
  [.beginObject, .endObject, .beginArray, .endArray, .comma, .colon]

/-- The mark that a code unit is. -/
def Mark.ofUnit (c : UInt16) : Option Mark :=
  Mark.all.find? fun mark => mark.unit = c

/-- A token: a mark, a string by what is written between its quotes, or a number or one of the names
`true`, `false` and `null` as it is written. -/
inductive Token where
  | mark (mark : Mark)
  | string (body : CodeUnits)
  | literal (text : CodeUnits)
  deriving DecidableEq

/-- How a token is written. -/
def Token.text : Token → CodeUnits
  | .mark m => [m.unit]
  | .string body => quote :: (body ++ [quote])
  | .literal text => text

/-- A token that is not a mark. -/
def Token.isAtom : Token → Bool
  | .mark _ => false
  | .string _ => true
  | .literal _ => true

/-- The code units `/^[0-9]$/`. -/
def isDigit (c : UInt16) : Bool :=
  unit '0' ≤ c && c ≤ unit '9'

/-- The hexadecimal digits. -/
def isHex (c : UInt16) : Bool :=
  isDigit c || unit 'a' ≤ c && c ≤ unit 'f' || unit 'A' ≤ c && c ≤ unit 'F'

/-- The code units that stand for a character behind a backslash. -/
def isEscape (c : UInt16) : Bool :=
  (ascii "\"\\/bfnrt").contains c

/-- Four hexadecimal digits come first. -/
def startsHex (text : CodeUnits) : Bool :=
  (text.take 4).length = 4 && (text.take 4).all isHex

/-- What is written between the quotes of a string, from behind the first one, and what comes behind
the second one. -/
def stringBody : CodeUnits → Option (CodeUnits × CodeUnits)
  | [] => none
  | c :: rest =>
    if c = quote then some ([], rest)
    else if c = backslash then
      match rest with
      | [] => none
      | e :: rest =>
        if isEscape e || e = unit 'u' && startsHex rest then
          (stringBody rest).map fun found => (c :: e :: found.1, found.2)
        else none
    else if c < 0x20 then none
    else (stringBody rest).map fun found => (c :: found.1, found.2)

/-- Behind the integer part of a number: its fraction. -/
def fraction (text : CodeUnits) : Option CodeUnits :=
  match text with
  | c :: rest =>
    if c = unit '.' then
      if (rest.takeWhile isDigit).isEmpty then none else some (rest.dropWhile isDigit)
    else some text
  | [] => some []

/-- Behind its fraction: the exponent, up to the end of the number. -/
def isExponent (text : CodeUnits) : Bool :=
  match text with
  | [] => true
  | c :: rest =>
    let digits := match rest with
      | sign :: digits => if sign = unit '+' || sign = unit '-' then digits else rest
      | [] => []
    (c = unit 'e' || c = unit 'E') && !digits.isEmpty && digits.all isDigit

/-- A number: a sign, an integer part without leading zeros, a fraction and an exponent. -/
def isNumber (text : CodeUnits) : Bool :=
  let magnitude := match text with
    | c :: rest => if c = unit '-' then rest else text
    | [] => []
  let integer := magnitude.takeWhile isDigit
  (integer = [unit '0'] || !integer.isEmpty && integer.head? ≠ some (unit '0')) &&
    (fraction (magnitude.dropWhile isDigit)).any isExponent

/-- A number or a name. -/
def isLiteral (text : CodeUnits) : Bool :=
  text = ascii "true" || text = ascii "false" || text = ascii "null" || isNumber text

/-- What numbers and names are made of: letters, digits, signs and points. -/
def isLiteralUnit (c : UInt16) : Bool :=
  isDigit c || unit 'a' ≤ c && c ≤ unit 'z' || unit 'A' ≤ c && c ≤ unit 'Z' ||
    c = unit '+' || c = unit '-' || c = unit '.'

/-- The token that a text begins with, and the rest. -/
def token (c : UInt16) (rest : CodeUnits) : Option (Token × CodeUnits) :=
  match Mark.ofUnit c with
  | some mark => some (.mark mark, rest)
  | none =>
    if c = quote then (stringBody rest).map fun found => (.string found.1, found.2)
    else
      let text := (c :: rest).takeWhile isLiteralUnit
      if isLiteral text then some (.literal text, (c :: rest).dropWhile isLiteralUnit) else none

/-- The tokens of a text, with at most that many code units to read. -/
def lexFrom : ℕ → CodeUnits → Option (List Token)
  | _, [] => some []
  | 0, _ :: _ => none
  | fuel + 1, c :: rest =>
    if isSpace c then lexFrom fuel rest
    else (token c rest).bind fun found => (lexFrom fuel found.2).map (found.1 :: ·)

/-- The tokens of a text. -/
def lex (text : CodeUnits) : Option (List Token) :=
  lexFrom text.length text

/-! ### Documents -/

/-- A document: numbers, names and strings as they are written, and the members of an object in
their order. -/
inductive Doc where
  | string (body : CodeUnits)
  | literal (text : CodeUnits)
  | array (elements : List Doc)
  | object (members : List (CodeUnits × Doc))

/-- An array or an object that is open: what it has so far, and the key whose value is due. -/
inductive Frame where
  | array (before : List Doc)
  | object (before : List (CodeUnits × Doc)) (key : CodeUnits)

/-- What may come next, in what is open, the innermost first: a value; a value or the end of an
array that has just begun; a key or the end of an object that has just begun; a key; the colon
behind a key; or what comes behind a value. -/
inductive State where
  | value (stack : List Frame)
  | firstElement (stack : List Frame)
  | firstMember (stack : List Frame)
  | member (before : List (CodeUnits × Doc)) (stack : List Frame)
  | colon (before : List (CodeUnits × Doc)) (key : CodeUnits) (stack : List Frame)
  | after (doc : Doc) (stack : List Frame)

/-- The first token of a value. -/
def beginValue (stack : List Frame) : Token → Option State
  | .string body => some (.after (.string body) stack)
  | .literal text => some (.after (.literal text) stack)
  | .mark .beginArray => some (.firstElement stack)
  | .mark .beginObject => some (.firstMember stack)
  | .mark _ => none

/-- One token of a document. -/
def step : State → Token → Option State
  | .value stack, token => beginValue stack token
  | .firstElement stack, .mark .endArray => some (.after (.array []) stack)
  | .firstElement stack, token => beginValue (.array [] :: stack) token
  | .firstMember stack, .mark .endObject => some (.after (.object []) stack)
  | .firstMember stack, .string key => some (.colon [] key stack)
  | .member before stack, .string key => some (.colon before key stack)
  | .colon before key stack, .mark .colon => some (.value (.object before key :: stack))
  | .after doc (.array before :: stack), .mark .comma =>
    some (.value (.array (before ++ [doc]) :: stack))
  | .after doc (.array before :: stack), .mark .endArray =>
    some (.after (.array (before ++ [doc])) stack)
  | .after doc (.object before key :: stack), .mark .comma =>
    some (.member (before ++ [(key, doc)]) stack)
  | .after doc (.object before key :: stack), .mark .endObject =>
    some (.after (.object (before ++ [(key, doc)])) stack)
  | _, _ => none

/-- All the tokens of a text, from a state on. -/
def run (s : State) : List Token → Option State
  | [] => some s
  | token :: rest => (step s token).bind fun s' => run s' rest

/-- The document when nothing is open. -/
def State.doc : State → Option Doc
  | .after doc [] => some doc
  | _ => none

/-- The document of a sequence of tokens. -/
def parseTokens (tokens : List Token) : Option Doc :=
  (run (.value []) tokens).bind State.doc

/-- The document of a text. -/
def parse (text : CodeUnits) : Option Doc :=
  (lex text).bind parseTokens

/-! ### What the tokens of a text are -/

/-- What may stand between the quotes of a string. -/
inductive Body : CodeUnits → Prop where
  | nil : Body []
  | plain {c : UInt16} {body : CodeUnits} (hquote : c ≠ quote) (hbackslash : c ≠ backslash)
    (hcontrol : 0x20 ≤ c) (hbody : Body body) : Body (c :: body)
  | escape {e : UInt16} {body : CodeUnits} (he : isEscape e = true) (hbody : Body body) :
    Body (backslash :: e :: body)
  | hex {body : CodeUnits} (hhex : startsHex body = true) (hbody : Body body) :
    Body (backslash :: unit 'u' :: body)

/-- A token of ECMA-404. -/
def Token.Valid : Token → Prop
  | .mark _ => True
  | .string body => Body body
  | .literal text => isLiteral text = true ∧ ∀ c ∈ text, isLiteralUnit c = true

/-- What comes behind a token does not belong to it. -/
def Token.Ends (rest : CodeUnits) : Token → Prop
  | .literal _ => ∀ c ∈ rest.head?, isLiteralUnit c = false
  | .mark _ => True
  | .string _ => True

/-- **A text is these tokens**, with white space around them. -/
inductive Lexes : CodeUnits → List Token → Prop where
  | nil : Lexes [] []
  | space {c : UInt16} {rest : CodeUnits} {tokens : List Token} (hc : isSpace c = true)
    (hrest : Lexes rest tokens) : Lexes (c :: rest) tokens
  | token {first : Token} {rest : CodeUnits} {tokens : List Token} (hvalid : first.Valid)
    (hends : first.Ends rest) (hrest : Lexes rest tokens) :
    Lexes (first.text ++ rest) (first :: tokens)

theorem isSpace_iff {c : UInt16} :
    isSpace c = true ↔ c = 0x09 ∨ c = 0x0A ∨ c = 0x0D ∨ c = 0x20 := by
  simp [isSpace]

theorem startsHex_append_quote (body rest : CodeUnits) :
    startsHex (body ++ quote :: rest) = startsHex body := by
  have hquote : isHex quote = false := by decide
  rcases body with _ | ⟨a, _ | ⟨b, _ | ⟨c, _ | ⟨d, body⟩⟩⟩⟩ <;>
    simp [startsHex, hquote]

theorem stringBody_eq_some_iff {text body rest : CodeUnits} :
    stringBody text = some (body, rest) ↔ Body body ∧ text = body ++ quote :: rest := by
  constructor
  · fun_induction stringBody text generalizing body rest with
    | case1 =>
      intro h
      cases h
    | case2 rest' =>
      intro h
      obtain ⟨rfl, rfl⟩ := Prod.mk.inj (Option.some.inj h)
      exact ⟨.nil, rfl⟩
    | case3 =>
      intro h
      cases h
    | case4 e rest' he _ ih =>
      intro h
      obtain ⟨⟨body', rest''⟩, hfound, heq⟩ := Option.map_eq_some_iff.mp h
      obtain ⟨rfl, rfl⟩ := Prod.mk.inj heq
      obtain ⟨hbody, rfl⟩ := ih hfound
      refine ⟨?_, rfl⟩
      rw [Bool.or_eq_true, Bool.and_eq_true, decide_eq_true_iff] at he
      rcases he with he | ⟨rfl, hhex⟩
      · exact .escape he hbody
      · exact .hex (startsHex_append_quote body' rest'' ▸ hhex) hbody
    | case5 =>
      intro h
      cases h
    | case6 =>
      intro h
      cases h
    | case7 c rest' hquote hbackslash hcontrol ih =>
      intro h
      obtain ⟨⟨body', rest''⟩, hfound, heq⟩ := Option.map_eq_some_iff.mp h
      obtain ⟨rfl, rfl⟩ := Prod.mk.inj heq
      obtain ⟨hbody, rfl⟩ := ih hfound
      exact ⟨.plain hquote hbackslash (UInt16.not_lt.mp hcontrol) hbody, rfl⟩
  · rintro ⟨hbody, rfl⟩
    have hne : backslash ≠ quote := by decide
    induction hbody with
    | nil => simp [stringBody.eq_def]
    | plain hquote hbackslash hcontrol _ ih =>
      rw [List.cons_append, stringBody.eq_def]
      simp [hquote, hbackslash, UInt16.not_lt.mpr hcontrol, ih]
    | escape he _ ih =>
      rw [List.cons_append, List.cons_append, stringBody.eq_def]
      simp [hne, he, ih]
    | @hex body' hhex _ ih =>
      rw [List.cons_append, List.cons_append, stringBody.eq_def]
      simp [hne, startsHex_append_quote, hhex, ih]

theorem Mark.ofUnit_eq_some_iff {c : UInt16} {mark : Mark} :
    Mark.ofUnit c = some mark ↔ c = mark.unit := by
  constructor
  · intro h
    have hfound := List.find?_some h
    rw [decide_eq_true_iff] at hfound
    exact hfound.symm
  · rintro rfl
    cases mark <;> decide

theorem Token.text_ne_nil {token : Token} (h : token.Valid) : token.text ≠ [] := by
  cases token with
  | mark m => exact List.cons_ne_nil _ _
  | string body => exact List.cons_ne_nil _ _
  | literal text =>
    rintro rfl
    exact absurd h.1 (by decide)

theorem Mark.unit_other (mark : Mark) :
    isSpace mark.unit = false ∧ mark.unit ≠ quote ∧ isLiteralUnit mark.unit = false := by
  cases mark <;> decide

theorem span_of_ends {p : UInt16 → Bool} {text rest : CodeUnits} (htext : ∀ c ∈ text, p c = true)
    (hrest : ∀ c ∈ rest.head?, p c = false) :
    (text ++ rest).takeWhile p = text ∧ (text ++ rest).dropWhile p = rest := by
  rw [List.takeWhile_append_of_pos htext, List.dropWhile_append_of_pos htext]
  cases rest with
  | nil => simp
  | cons c rest => simp [hrest c rfl]

/-- What `token` finds is the token that the text begins with. -/
theorem token_eq_some_iff {c : UInt16} {rest rest' : CodeUnits} {found : Token} :
    token c rest = some (found, rest') ↔
      found.Valid ∧ found.Ends rest' ∧ c :: rest = found.text ++ rest' := by
  constructor
  · unfold token
    cases hmark : Mark.ofUnit c with
    | some mark =>
      intro h
      obtain ⟨rfl, rfl⟩ := Prod.mk.inj (Option.some.inj h)
      rw [Mark.ofUnit_eq_some_iff] at hmark
      exact ⟨trivial, trivial, by rw [hmark]; rfl⟩
    | none =>
      dsimp only
      split_ifs with hquote hliteral
      · intro h
        obtain ⟨⟨body, rest''⟩, hbody, heq⟩ := Option.map_eq_some_iff.mp h
        obtain ⟨rfl, rfl⟩ := Prod.mk.inj heq
        obtain ⟨hvalid, rfl⟩ := stringBody_eq_some_iff.mp hbody
        refine ⟨hvalid, trivial, ?_⟩
        rw [hquote]
        simp [Token.text]
      · intro h
        obtain ⟨rfl, rfl⟩ := Prod.mk.inj (Option.some.inj h)
        refine ⟨⟨hliteral, fun d hd => List.mem_takeWhile_imp hd⟩, fun d hd => ?_, ?_⟩
        · have hnot := List.head?_dropWhile_not isLiteralUnit (c :: rest)
          rw [Option.mem_def.mp hd] at hnot
          exact hnot
        · exact List.takeWhile_append_dropWhile.symm
      · intro h
        cases h
  · rintro ⟨hvalid, hends, heq⟩
    cases found with
    | mark m =>
      obtain ⟨rfl, rfl⟩ := List.cons.inj heq
      rw [token, Mark.ofUnit_eq_some_iff.mpr rfl]
    | string body =>
      have hquote : Mark.ofUnit quote = none := by decide
      simp only [Token.text, List.cons_append, List.append_assoc] at heq
      obtain ⟨rfl, rfl⟩ := List.cons.inj heq
      rw [token, hquote]
      dsimp only
      rw [if_pos rfl, stringBody_eq_some_iff.mpr ⟨hvalid, rfl⟩]
      rfl
    | literal text =>
      obtain ⟨hliteral, hunits⟩ := hvalid
      have heq : c :: rest = text ++ rest' := heq
      have hc : isLiteralUnit c = true := by
        cases text with
        | nil => exact absurd hliteral (by decide)
        | cons d text =>
          obtain ⟨rfl, -⟩ := List.cons.inj heq
          exact hunits c List.mem_cons_self
      have hmark : Mark.ofUnit c = none := by
        cases hmark : Mark.ofUnit c with
        | none => rfl
        | some mark =>
          rw [Mark.ofUnit_eq_some_iff.mp hmark, mark.unit_other.2.2] at hc
          cases hc
      have hquote : c ≠ quote := by
        rintro rfl
        exact absurd hc (by decide)
      obtain ⟨htake, hdrop⟩ := span_of_ends hunits hends
      rw [token, hmark]
      dsimp only
      rw [if_neg hquote, heq, htake, hdrop, if_pos hliteral]

theorem Token.Valid.not_space {token : Token} (h : token.Valid) :
    ∀ c ∈ token.text.head?, isSpace c = false := by
  intro c hc
  cases token with
  | mark m =>
    obtain rfl := Option.some.inj hc
    exact m.unit_other.1
  | string body =>
    obtain rfl := Option.some.inj hc
    decide
  | literal text =>
    have hunit : isLiteralUnit c = true := h.2 c (List.mem_of_mem_head? hc)
    by_contra hspace
    rw [Bool.not_eq_false, isSpace_iff] at hspace
    rcases hspace with rfl | rfl | rfl | rfl <;> exact absurd hunit (by decide)

theorem Lexes.spaces {spaces rest : CodeUnits} {tokens : List Token}
    (hspaces : ∀ c ∈ spaces, isSpace c = true) (h : Lexes rest tokens) :
    Lexes (spaces ++ rest) tokens := by
  induction spaces with
  | nil => exact h
  | cons c spaces ih =>
    exact .space (hspaces c List.mem_cons_self)
      (ih fun d hd => hspaces d (List.mem_cons_of_mem c hd))

theorem lexes_of_lexFrom {fuel : ℕ} {text : CodeUnits} {tokens : List Token}
    (h : lexFrom fuel text = some tokens) : Lexes text tokens := by
  induction fuel generalizing text tokens with
  | zero =>
    cases text with
    | nil =>
      obtain rfl := Option.some.inj h
      exact .nil
    | cons c rest => cases h
  | succ fuel ih =>
    cases text with
    | nil =>
      obtain rfl := Option.some.inj h
      exact .nil
    | cons c rest =>
      rw [lexFrom] at h
      split_ifs at h with hspace
      · exact .space hspace (ih h)
      · obtain ⟨⟨first, rest'⟩, htoken, hrest⟩ := Option.bind_eq_some_iff.mp h
        obtain ⟨tokens', htokens, rfl⟩ := Option.map_eq_some_iff.mp hrest
        obtain ⟨hvalid, hends, heq⟩ := token_eq_some_iff.mp htoken
        rw [heq]
        exact .token hvalid hends (ih htokens)

theorem Lexes.lexFrom_eq {text : CodeUnits} {tokens : List Token} (h : Lexes text tokens)
    {fuel : ℕ} (hfuel : text.length ≤ fuel) : lexFrom fuel text = some tokens := by
  induction h generalizing fuel with
  | nil => cases fuel <;> rfl
  | @space c rest tokens hc _ ih =>
    cases fuel with
    | zero => exact absurd hfuel (Nat.not_succ_le_zero _)
    | succ fuel =>
      rw [lexFrom, if_pos hc]
      exact ih (Nat.le_of_succ_le_succ hfuel)
  | @token first rest tokens hvalid hends _ ih =>
    obtain ⟨c, text, htext⟩ := List.exists_cons_of_ne_nil (Token.text_ne_nil hvalid)
    have hspace : isSpace c = false := hvalid.not_space c (by rw [htext]; rfl)
    rw [htext, List.cons_append] at hfuel ⊢
    cases fuel with
    | zero => exact absurd hfuel (Nat.not_succ_le_zero _)
    | succ fuel =>
      have hfound : JsonText.token c (text ++ rest) = some (first, rest) :=
        token_eq_some_iff.mpr ⟨hvalid, hends, by rw [htext, List.cons_append]⟩
      have hlength := Nat.le_of_succ_le_succ hfuel
      rw [List.length_append] at hlength
      rw [lexFrom, if_neg (by rw [hspace]; exact Bool.false_ne_true), hfound, Option.bind_some,
        ih (Nat.le_trans (Nat.le_add_left _ _) hlength)]
      rfl

/-- **`lex` finds the tokens of a text.** -/
theorem lex_eq_some_iff {text : CodeUnits} {tokens : List Token} :
    lex text = some tokens ↔ Lexes text tokens :=
  ⟨lexes_of_lexFrom, fun h => h.lexFrom_eq le_rfl⟩

theorem Lexes.valid {text : CodeUnits} {tokens : List Token} (h : Lexes text tokens) :
    ∀ token ∈ tokens, token.Valid := by
  induction h with
  | nil => exact fun _ h => absurd h List.not_mem_nil
  | space _ _ ih => exact ih
  | token hvalid _ _ ih => exact List.forall_mem_cons.mpr ⟨hvalid, ih⟩

/-- A token is written as a mark when it is that mark. -/
theorem Token.Valid.text_eq_iff {token : Token} (h : token.Valid) (mark : Mark) :
    token.text = [mark.unit] ↔ token = .mark mark := by
  constructor
  · intro heq
    cases token with
    | mark m =>
      have hunit : mark.unit = m.unit := (List.cons.inj heq).1.symm
      have hsome := Mark.ofUnit_eq_some_iff.mpr hunit
      rw [Mark.ofUnit_eq_some_iff.mpr rfl] at hsome
      rw [Option.some.inj hsome]
    | string body => exact absurd (List.cons.inj heq).1.symm mark.unit_other.2.1
    | literal text =>
      have hunit := h.2 mark.unit (by
        have heq : text = [mark.unit] := heq
        rw [heq]
        exact List.mem_singleton.mpr rfl)
      rw [mark.unit_other.2.2] at hunit
      cases hunit
  · rintro rfl
    rfl

/-! ### What is open -/

/-- The token opens an array or an object. -/
def Token.opens (token : Token) : Bool :=
  token = .mark .beginObject || token = .mark .beginArray

/-- The token closes an array or an object. -/
def Token.closes (token : Token) : Bool :=
  token = .mark .endObject || token = .mark .endArray

/-- How many arrays and objects are open. -/
def State.depth : State → ℕ
  | .value stack => stack.length
  | .firstElement stack => stack.length + 1
  | .firstMember stack => stack.length + 1
  | .member _ stack => stack.length + 1
  | .colon _ _ stack => stack.length + 1
  | .after _ stack => stack.length

/-- The depth behind the first token of a value, and what is due there. -/
theorem beginValue_depth {stack : List Frame} {token : Token} {s : State}
    (h : beginValue stack token = some s) :
    token.closes = false ∧ s.depth = stack.length + token.opens.toNat ∧
      (token.isAtom = true → ∃ doc, s = .after doc stack) := by
  unfold beginValue at h
  split at h
  · obtain rfl := Option.some.inj h
    exact ⟨rfl, rfl, fun _ => ⟨_, rfl⟩⟩
  · obtain rfl := Option.some.inj h
    exact ⟨rfl, rfl, fun _ => ⟨_, rfl⟩⟩
  · obtain rfl := Option.some.inj h
    exact ⟨rfl, rfl, fun h => absurd h Bool.false_ne_true⟩
  · obtain rfl := Option.some.inj h
    exact ⟨rfl, rfl, fun h => absurd h Bool.false_ne_true⟩
  · cases h

/-- **The depth behind a token.** -/
theorem step_depth {s s' : State} {token : Token} (h : step s token = some s') :
    s'.depth + token.closes.toNat = s.depth + token.opens.toNat := by
  have hbegin {stack : List Frame} (h : beginValue stack token = some s') :
      s'.depth + token.closes.toNat = stack.length + token.opens.toNat := by
    obtain ⟨hcloses, hdepth, -⟩ := beginValue_depth h
    rw [hcloses, hdepth]
    rfl
  unfold step at h
  split at h
  case h_1 => exact hbegin h
  case h_3 => exact hbegin h
  all_goals first
    | cases h
      done
    | obtain rfl := Option.some.inj h
      rfl

theorem step_atom {s s' s'' : State} {token next : Token} (h : step s token = some s')
    (hatom : token.isAtom = true) (hnext : step s' next = some s'') : next.isAtom = false := by
  have hafter {doc : Doc} {stack : List Frame} (h : step (.after doc stack) next = some s'') :
      next.isAtom = false := by
    cases next with
    | mark m => rfl
    | string body => rcases stack with _ | ⟨_ | _, stack⟩ <;> cases h
    | literal text => rcases stack with _ | ⟨_ | _, stack⟩ <;> cases h
  have hcolon {before : List (CodeUnits × Doc)} {key : CodeUnits} {stack : List Frame}
      (h : step (.colon before key stack) next = some s'') : next.isAtom = false := by
    cases next with
    | mark m => rfl
    | string body => cases h
    | literal text => cases h
  have hbegin {stack : List Frame} (h : beginValue stack token = some s') :
      next.isAtom = false := by
    obtain ⟨-, -, hdoc⟩ := beginValue_depth h
    obtain ⟨doc, rfl⟩ := hdoc hatom
    exact hafter hnext
  unfold step at h
  split at h
  case h_1 => exact hbegin h
  case h_3 => exact hbegin h
  all_goals first
    | cases h
      done
    | cases hatom
      done
    | obtain rfl := Option.some.inj h
      exact hcolon hnext

theorem run_cons_eq_some {s s' : State} {token : Token} {rest : List Token}
    (h : run s (token :: rest) = some s') :
    ∃ m, step s token = some m ∧ run m rest = some s' :=
  Option.bind_eq_some_iff.mp h

/-- In a document, a token that is not a mark stands before a mark or at the end. -/
theorem run_atom {s s' : State} {token : Token} {rest : List Token}
    (h : run s (token :: rest) = some s') (hatom : token.isAtom = true) :
    ∀ next ∈ rest.head?, next.isAtom = false := by
  intro next hnext
  obtain ⟨m, hm, hrest⟩ := run_cons_eq_some h
  cases rest with
  | nil => cases hnext
  | cons first rest =>
    obtain rfl := Option.some.inj hnext
    obtain ⟨m', hm', -⟩ := run_cons_eq_some hrest
    exact step_atom hm hatom hm'

end JsonText
