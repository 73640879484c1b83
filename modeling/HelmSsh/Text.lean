/-
# String functions of the Rust standard library

The string functions that the back end calls, on the characters of a string:
`str::trim` over the Unicode property `White_Space` (`char::is_whitespace`),
`trim_start_matches`, `split` at one character and `join`.
-/

import Mathlib.Data.Nat.Notation
import Mathlib.Tactic.Common

namespace HelmSsh
namespace Text

/-- `char::is_whitespace`: the characters of the Unicode property `White_Space`. -/
def isWhitespace (c : Char) : Bool :=
  let n := c.toNat
  (9 ≤ n && n ≤ 13) || n = 0x20 || n = 0x85 || n = 0xa0 || n = 0x1680 ||
    (0x2000 ≤ n && n ≤ 0x200a) || n = 0x2028 || n = 0x2029 || n = 0x202f || n = 0x205f ||
    n = 0x3000

/-- `str::trim_start_matches`. -/
def trimStartMatches (s : String) (p : Char → Bool) : String :=
  String.ofList (s.toList.dropWhile p)

/-- `str::trim`. -/
def trim (s : String) : String :=
  String.ofList ((s.toList.dropWhile isWhitespace).reverse.dropWhile isWhitespace).reverse

/-- `s.trim().is_empty()`. -/
def isBlank (s : String) : Bool :=
  trim s = ""

/-- `s.chars().count()`. -/
def charCount (s : String) : ℕ :=
  s.toList.length

/-- `str::split` at a character. -/
def split (s : String) (c : Char) : List String :=
  (s.toList.splitOn c).map String.ofList

/-- `[String]::join`. -/
def join (parts : List String) (sep : String) : String :=
  String.ofList (sep.toList.intercalate (parts.map String.toList))

/-! ### Deciding for the characters of a text

A property of the characters of a text is decided on these, where an instance of the
libraries would go through all characters. -/

instance decidableForallChar (s : List Char) (p : Char → Prop) [DecidablePred p] :
    Decidable (∀ c ∈ s, p c) :=
  List.decidableBAll p s

instance decidableExistsChar (s : List Char) (p : Char → Prop) [DecidablePred p] :
    Decidable (∃ c ∈ s, p c) :=
  List.decidableBEx p s

instance decidableForallFirst (o : Option Char) (p : Char → Prop) [DecidablePred p] :
    Decidable (∀ c ∈ o, p c) :=
  Option.decidableForallMem o

example : trim "　a b\t" = "a b" := by decide

example : join (split "/srv//logs" '/') "|" = "|srv||logs" := by decide

end Text
end HelmSsh
