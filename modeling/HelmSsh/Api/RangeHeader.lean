/-
# The range of a download

`parse_range_header` of `src-tauri/src/api_server/handlers_remote.rs`, and what the download
handler makes of its answer.

The reference is the grammar of HTTP for one range of bytes: the unit `bytes` in letters of either
case, `=`, and two numbers with a dash between them, of which the last may be left out, or a dash
and the length of a suffix.  A number is any sequence of digits; the last position is not below
the first.  What such a range selects of a file is a set of positions (`Spec.selects`).

* `parseSpec_answers` — what the parser says of a range of the grammar.
* `reads_iff` — what the parser takes for a range.
* `parseRangeHeader_exact` — the parser agrees with the grammar exactly for the headers of
  `Accords`.
* `plus_sign_read` — a header that no grammar accepts is answered with a part of the file.
-/

import Mathlib.Algebra.GroupWithZero.Nat
import Mathlib.Data.Nat.Notation
import Mathlib.Tactic.Common
import HelmSsh.Text
import HelmSsh.Trim

namespace HelmSsh
namespace Api
namespace RangeHeader

/-! ### The parser -/

/-- `ParsedRange`. -/
inductive ParsedRange
  | full
  | satisfiable (start stop : ℕ)
  | unsatisfiable
  | multiple
  | invalid
  deriving DecidableEq

/-- `char::is_ascii_digit`. -/
def isDigit (c : Char) : Bool :=
  48 ≤ c.toNat && c.toNat ≤ 57

/-- The number that some digits write. -/
def valueOf (digits : List Char) : ℕ :=
  digits.foldl (fun n c => 10 * n + (c.toNat - 48)) 0

/-- `str::parse::<u64>`: it takes a plus sign before the digits. -/
def parseU64 (text : List Char) : Option ℕ :=
  let digits := if text.head? = some '+' then text.tail else text
  if digits ≠ [] ∧ digits.all isDigit ∧ valueOf digits < 2 ^ 64 then some (valueOf digits)
  else none

/-- `str::trim`. -/
def trim (text : List Char) : List Char :=
  Trim.trim Text.isWhitespace text

/-- `str::split_once` at a character. -/
def splitOnce (sep : Char) (text : List Char) : Option (List Char × List Char) :=
  if sep ∈ text then some (text.takeWhile (· ≠ sep), (text.dropWhile (· ≠ sep)).tail) else none

/-- The characters of a header value. -/
def chars (value : List UInt8) : List Char :=
  value.map fun b => Char.ofNat b.toNat

/-- `HeaderValue::to_str`: visible ASCII characters, spaces and tabs. -/
def toStr (value : List UInt8) : Option (List Char) :=
  if value.all fun b => (32 ≤ b.toNat && b.toNat < 127) || b.toNat = 9 then some (chars value)
  else none

/-- `"bytes="`. -/
def bytesPrefix : List Char := ['b', 'y', 't', 'e', 's', '=']

/-- The first and the last position that are read, before they are compared with the size. -/
def positions (startS endS : List Char) (total : ℕ) : Option (ℕ × ℕ) :=
  if startS = [] then
    match parseU64 endS with
    | some suffix =>
      if 0 < suffix then some (total - min suffix total, total - 1) else none
    | none => none
  else
    match parseU64 startS with
    | some start =>
      if endS = [] then some (start, total - 1)
      else (parseU64 endS).map fun stop => (start, min stop (total - 1))
    | none => none

/-- `parse_range_header`, from `split_once` on. -/
def parseSpec (first : List Char) (total : ℕ) : ParsedRange :=
  match splitOnce '-' first with
  | none => .invalid
  | some (startS, endS) =>
    if total = 0 then .unsatisfiable
    else
      match positions startS endS total with
      | none => .invalid
      | some (start, stop) =>
        if total ≤ start ∨ stop < start then .unsatisfiable else .satisfiable start stop

/-- `parse_range_header`. -/
def parseRangeHeader (headerValue : Option (List UInt8)) (total : ℕ) : ParsedRange :=
  match headerValue with
  | none => .full
  | some value =>
    match toStr value with
    | none => .invalid
    | some raw =>
      let raw := trim raw
      if bytesPrefix <+: raw then
        let spec := raw.drop bytesPrefix.length
        if ',' ∈ spec then .multiple else parseSpec (trim spec) total
      else .invalid

/-- The head of a download. -/
structure DownloadHead where
  status : ℕ
  startOffset : ℕ
  endOffset : ℕ
  sendLen : ℕ
  contentRange : Option String
  deriving DecidableEq

/-- What the handler sends, or nothing where it answers with an error. -/
def downloadHead (range : ParsedRange) (total : ℕ) : Option DownloadHead :=
  match range with
  | .full => some ⟨200, 0, total - 1, if total = 0 then 0 else total - 1 - 0 + 1, none⟩
  | .satisfiable start stop =>
    some ⟨206, start, stop, if total = 0 then 0 else stop - start + 1,
      some ("bytes " ++ toString start ++ "-" ++ toString stop ++ "/" ++ toString total)⟩
  | .unsatisfiable | .multiple | .invalid => none

/-! ### The grammar -/

/-- A range of bytes. -/
inductive Spec
  | int (first : ℕ) (last : Option ℕ)
  | suffix (length : ℕ)
  deriving DecidableEq

/-- The text writes a number: one or more digits. -/
structure Number (text : List Char) (n : ℕ) : Prop where
  ne_nil : text ≠ []
  digits : ∀ c ∈ text, isDigit c = true
  value : valueOf text = n

/-- The text writes one range. -/
inductive RangeSpec : List Char → Spec → Prop
  | bounded {f l : List Char} {a b : ℕ} (hf : Number f a) (hl : Number l b) (h : a ≤ b) :
    RangeSpec (f ++ '-' :: l) (.int a (some b))
  | unbounded {f : List Char} {a : ℕ} (hf : Number f a) : RangeSpec (f ++ ['-']) (.int a none)
  | suffix {s : List Char} {n : ℕ} (hs : Number s n) : RangeSpec ('-' :: s) (.suffix n)

/-- A letter in lower case. -/
def lower (c : Char) : Char :=
  if 65 ≤ c.toNat ∧ c.toNat ≤ 90 then Char.ofNat (c.toNat + 32) else c

/-- The blanks around a field value. -/
def isOws (c : Char) : Bool :=
  c = ' ' || c = '\t'

/-- The header asks for this range. -/
def Requests (value : List UInt8) (spec : Spec) : Prop :=
  ∃ unit text, Trim.trim isOws (chars value) = unit ++ '=' :: text ∧
    unit.map lower = ['b', 'y', 't', 'e', 's'] ∧ RangeSpec text spec

/-- The positions of a file that a range asks for. -/
def Spec.selects (spec : Spec) (total i : ℕ) : Prop :=
  i < total ∧
    match spec with
    | .int first last => first ≤ i ∧ ∀ b ∈ last, i ≤ b
    | .suffix length => total ≤ i + length

/-- The answer for a range: the positions that it selects, if there are any. -/
def Answers (spec : Spec) (total : ℕ) : ParsedRange → Prop
  | .satisfiable start stop =>
    start ≤ stop ∧ stop < total ∧ ∀ i, spec.selects total i ↔ start ≤ i ∧ i ≤ stop
  | .unsatisfiable => ∀ i, ¬ spec.selects total i
  | .full | .multiple | .invalid => False

/-- The answer for a header. -/
def Agrees (headerValue : Option (List UInt8)) (total : ℕ) (answer : ParsedRange) : Prop :=
  match headerValue with
  | none => answer = .full
  | some value =>
    (∃ spec, Requests value spec ∧ Answers spec total answer) ∨
      ((∀ spec, ¬ Requests value spec) ∧ (answer = .multiple ∨ answer = .invalid))

/-! ### Numbers -/

section Numbers

variable {text s e f l : List Char} {n a total : ℕ} {spec : Spec}

theorem Number.not_mem (h : Number text n) {c : Char} (hc : isDigit c = false) : c ∉ text :=
  fun hmem => Bool.false_ne_true (hc.symm.trans (h.digits c hmem))

theorem number_valueOf (hnil : text ≠ []) (hdigits : text.all isDigit = true) :
    Number text (valueOf text) :=
  ⟨hnil, List.all_eq_true.mp hdigits, rfl⟩

/-- **A number is read when it is below `2 ^ 64`.** -/
theorem Number.parseU64 (h : Number text n) :
    parseU64 text = if n < 2 ^ 64 then some n else none := by
  have hplus : text.head? ≠ some '+' := fun hhead =>
    h.not_mem (c := '+') rfl (List.mem_of_mem_head? hhead)
  unfold RangeHeader.parseU64
  dsimp only
  rw [if_neg hplus, h.value]
  by_cases hfits : n < 2 ^ 64
  · rw [if_pos hfits, if_pos ⟨h.ne_nil, List.all_eq_true.mpr h.digits, hfits⟩]
  · rw [if_neg hfits, if_neg fun hall => hfits hall.2.2]

theorem number_of_parseU64 (h : parseU64 text = some n) (hplus : '+' ∉ text) : Number text n := by
  have hhead : text.head? ≠ some '+' := fun hhead => hplus (List.mem_of_mem_head? hhead)
  unfold RangeHeader.parseU64 at h
  dsimp only at h
  rw [if_neg hhead] at h
  split_ifs at h with hall
  obtain rfl := Option.some.inj h
  exact number_valueOf hall.1 hall.2.1

theorem splitOnce_append (h : '-' ∉ s) : splitOnce '-' (s ++ '-' :: e) = some (s, e) := by
  have hgo : ∀ c ∈ s, decide (c ≠ '-') = true := fun c hc => decide_eq_true fun heq => h (heq ▸ hc)
  unfold splitOnce
  rw [if_pos (List.mem_append_right _ (List.mem_cons_self ..)), List.takeWhile_append_of_pos hgo,
    List.dropWhile_append_of_pos hgo]
  simp

theorem of_splitOnce (h : splitOnce '-' text = some (s, e)) :
    text = s ++ '-' :: e ∧ '-' ∉ s := by
  unfold splitOnce at h
  split_ifs at h with hmem
  obtain ⟨front, rest, rfl, hfront⟩ := List.eq_append_cons_of_mem hmem
  have hsplit := splitOnce_append (e := rest) hfront
  unfold splitOnce at hsplit
  rw [if_pos hmem, h] at hsplit
  obtain ⟨rfl, rfl⟩ := Prod.mk.inj (Option.some.inj hsplit)
  exact ⟨rfl, hfront⟩

/-- **A range of the grammar, cut at its dash.** -/
theorem rangeSpec_iff : RangeSpec text spec ↔ ∃ s e, splitOnce '-' text = some (s, e) ∧
    ((s = [] ∧ ∃ n, Number e n ∧ spec = .suffix n) ∨
      ∃ a, Number s a ∧ ((e = [] ∧ spec = .int a none) ∨
        ∃ b, Number e b ∧ a ≤ b ∧ spec = .int a (some b))) := by
  constructor
  · intro h
    cases h with
    | @bounded f l a b hf hl h =>
      exact ⟨f, l, splitOnce_append (hf.not_mem rfl), Or.inr ⟨a, hf, Or.inr ⟨b, hl, h, rfl⟩⟩⟩
    | @unbounded f a hf =>
      exact ⟨f, [], splitOnce_append (hf.not_mem rfl), Or.inr ⟨a, hf, Or.inl ⟨rfl, rfl⟩⟩⟩
    | @suffix s n hs =>
      exact ⟨[], s, splitOnce_append List.not_mem_nil, Or.inl ⟨rfl, n, hs, rfl⟩⟩
  · rintro ⟨s, e, hsplit, h⟩
    obtain ⟨rfl, -⟩ := of_splitOnce hsplit
    rcases h with ⟨rfl, n, hn, rfl⟩ | ⟨a, ha, ⟨rfl, rfl⟩ | ⟨b, hb, hle, rfl⟩⟩
    · exact .suffix hn
    · exact .unbounded ha
    · exact .bounded ha hb hle

end Numbers

/-! ### What the parser reads -/

/-- The parser can read the numbers of a range, and does not look for an empty suffix. -/
def Spec.Readable : Spec → Prop
  | .int first last => first < 2 ^ 64 ∧ ∀ b ∈ last, b < 2 ^ 64
  | .suffix length => length < 2 ^ 64 ∧ length ≠ 0

/-- The parser reads a range: of an empty file, there is a dash; otherwise, what stands before and
after the dash is read as numbers. -/
def Reads (first : List Char) (total : ℕ) : Prop :=
  ∃ s e, splitOnce '-' first = some (s, e) ∧
    (total = 0 ∨ (s = [] ∧ ∃ n, parseU64 e = some n ∧ 0 < n) ∨
      (s ≠ [] ∧ (∃ a, parseU64 s = some a) ∧ (e = [] ∨ ∃ b, parseU64 e = some b)))

section Parser

variable {text s e : List Char} {total : ℕ} {spec : Spec}

/-- **A range of the grammar is answered with what it selects**, if its numbers are read. -/
theorem parseSpec_answers (h : RangeSpec text spec) (hread : total = 0 ∨ spec.Readable) :
    Answers spec total (parseSpec text total) := by
  obtain ⟨s, e, hsplit, hspec⟩ := rangeSpec_iff.mp h
  unfold parseSpec
  rw [hsplit]
  dsimp only
  by_cases hzero : total = 0
  · rw [if_pos hzero]
    rintro i ⟨hi, -⟩
    omega
  · rw [if_neg hzero]
    have hread := hread.resolve_left hzero
    rcases hspec with ⟨rfl, n, hn, rfl⟩ | ⟨a, ha, hlast⟩
    · have hpos : 0 < n := Nat.pos_of_ne_zero hread.2
      have hpositions : positions [] e total = some (total - min n total, total - 1) := by
        rw [positions, if_pos rfl, hn.parseU64, if_pos hread.1]
        exact if_pos hpos
      rw [hpositions]
      dsimp only
      rw [if_neg (by omega)]
      refine ⟨by omega, by omega, fun i => ?_⟩
      change i < total ∧ total ≤ i + n ↔ _
      omega
    · rcases hlast with ⟨rfl, rfl⟩ | ⟨b, hb, hle, rfl⟩
      · have hpositions : positions s [] total = some (a, total - 1) := by
          rw [positions, if_neg ha.ne_nil, ha.parseU64, if_pos hread.1]
          exact if_pos rfl
        rw [hpositions]
        dsimp only
        split_ifs with hout
        · rintro i ⟨hi, hfirst, -⟩
          omega
        · refine ⟨by omega, by omega, fun i => ?_⟩
          constructor
          · rintro ⟨hi, hfirst, -⟩
            omega
          · rintro ⟨hfirst, hi⟩
            exact ⟨by omega, hfirst, fun _ hb => absurd hb (Option.not_mem_none _)⟩
      · have hpositions : positions s e total = some (a, min b (total - 1)) := by
          rw [positions, if_neg ha.ne_nil, ha.parseU64, if_pos hread.1, hb.parseU64,
            if_pos (hread.2 b rfl)]
          exact if_neg hb.ne_nil
        rw [hpositions]
        dsimp only
        split_ifs with hout
        · rintro i ⟨hi, hfirst, hlast⟩
          have := hlast b rfl
          omega
        · refine ⟨by omega, by omega, fun i => ?_⟩
          constructor
          · rintro ⟨hi, hfirst, hlast⟩
            have := hlast b rfl
            omega
          · rintro ⟨hfirst, hi⟩
            refine ⟨by omega, hfirst, fun b' hb' => ?_⟩
            obtain rfl := Option.some.inj hb'
            omega

/-- Of a file that is not empty, a range whose numbers are not read is refused. -/
theorem parseSpec_of_not_readable (h : RangeSpec text spec) (hzero : total ≠ 0)
    (hread : ¬ spec.Readable) : parseSpec text total = .invalid := by
  obtain ⟨s, e, hsplit, hspec⟩ := rangeSpec_iff.mp h
  have hnone : positions s e total = none := by
    rcases hspec with ⟨rfl, n, hn, rfl⟩ | ⟨a, ha, hlast⟩
    · rw [positions, if_pos rfl, hn.parseU64]
      by_cases hfits : n < 2 ^ 64
      · have hpos : ¬ 0 < n := fun hpos => hread ⟨hfits, Nat.ne_of_gt hpos⟩
        rw [if_pos hfits]
        exact if_neg hpos
      · rw [if_neg hfits]
    · rw [positions, if_neg ha.ne_nil, ha.parseU64]
      by_cases hfits : a < 2 ^ 64
      · rcases hlast with ⟨rfl, rfl⟩ | ⟨b, hb, -, rfl⟩
        · exact absurd ⟨hfits, fun _ hb => absurd hb (Option.not_mem_none _)⟩ hread
        · have hlong : ¬ b < 2 ^ 64 := fun hb => hread ⟨hfits, fun b' hb' => by
            obtain rfl := Option.some.inj hb'
            exact hb⟩
          rw [if_pos hfits, hb.parseU64, if_neg hlong]
          exact if_neg hb.ne_nil
      · rw [if_neg hfits]
  unfold parseSpec
  rw [hsplit]
  dsimp only
  rw [if_neg hzero, hnone]

theorem positions_isSome (s e : List Char) (total : ℕ) : positions s e total ≠ none ↔
    (s = [] ∧ ∃ n, parseU64 e = some n ∧ 0 < n) ∨
      (s ≠ [] ∧ (∃ a, parseU64 s = some a) ∧ (e = [] ∨ ∃ b, parseU64 e = some b)) := by
  unfold positions
  by_cases hs : s = []
  · rw [if_pos hs]
    cases hn : parseU64 e with
    | none => simp [hs]
    | some n => by_cases hpos : 0 < n <;> simp [hs, hpos]
  · rw [if_neg hs]
    cases ha : parseU64 s with
    | none => simp [hs]
    | some a => by_cases he : e = [] <;> cases hb : parseU64 e <;> simp [hs, he]

/-- **What the parser takes for a range**; it answers every other text as invalid. -/
theorem reads_iff (first : List Char) (total : ℕ) : Reads first total ↔
    parseSpec first total = .unsatisfiable ∨ ∃ start stop,
      parseSpec first total = .satisfiable start stop := by
  unfold Reads parseSpec
  cases hsplit : splitOnce '-' first with
  | none =>
    refine iff_of_false ?_ ?_
    · rintro ⟨s, e, h, -⟩
      cases h
    · rintro (h | ⟨start, stop, h⟩)
      · cases h
      · cases h
  | some cut =>
    obtain ⟨s, e⟩ := cut
    dsimp only
    by_cases hzero : total = 0
    · rw [if_pos hzero]
      exact iff_of_true ⟨s, e, rfl, Or.inl hzero⟩ (Or.inl rfl)
    · rw [if_neg hzero]
      have hsome := positions_isSome s e total
      cases hpositions : positions s e total with
      | none =>
        rw [hpositions] at hsome
        refine iff_of_false ?_ ?_
        · rintro ⟨s', e', h, hread⟩
          obtain ⟨rfl, rfl⟩ := Prod.mk.inj (Option.some.inj h)
          exact hsome.mpr (hread.resolve_left hzero) rfl
        · rintro (h | ⟨start, stop, h⟩)
          · cases h
          · cases h
      | some found =>
        obtain ⟨start, stop⟩ := found
        rw [hpositions] at hsome
        refine iff_of_true ⟨s, e, rfl, Or.inr (hsome.mp (Option.some_ne_none _))⟩ ?_
        dsimp only
        split_ifs
        · exact Or.inl rfl
        · exact Or.inr ⟨start, stop, rfl⟩

theorem parseSpec_eq_invalid (h : ¬ Reads text total) : parseSpec text total = .invalid := by
  unfold Reads at h
  unfold parseSpec
  cases hsplit : splitOnce '-' text with
  | none => rfl
  | some cut =>
    obtain ⟨s, e⟩ := cut
    have hzero : total ≠ 0 := fun hzero => h ⟨s, e, hsplit, Or.inl hzero⟩
    have hnone : positions s e total = none := by
      by_contra hsome
      exact h ⟨s, e, hsplit, Or.inr ((positions_isSome s e total).mp hsome)⟩
    dsimp only
    rw [if_neg hzero, hnone]

theorem positions_stop_le {start stop : ℕ} (h : positions s e total = some (start, stop)) :
    stop ≤ total - 1 := by
  unfold positions at h
  by_cases hs : s = []
  · rw [if_pos hs] at h
    cases hn : parseU64 e with
    | none =>
      rw [hn] at h
      cases h
    | some n =>
      rw [hn] at h
      dsimp only at h
      split_ifs at h
      obtain ⟨-, rfl⟩ := Prod.mk.inj (Option.some.inj h)
      exact Nat.le_refl _
  · rw [if_neg hs] at h
    cases ha : parseU64 s with
    | none =>
      rw [ha] at h
      cases h
    | some a =>
      rw [ha] at h
      dsimp only at h
      split_ifs at h
      · obtain ⟨-, rfl⟩ := Prod.mk.inj (Option.some.inj h)
        exact Nat.le_refl _
      · obtain ⟨b, -, hb⟩ := Option.map_eq_some_iff.mp h
        obtain ⟨-, rfl⟩ := Prod.mk.inj hb
        exact Nat.min_le_right _ _

theorem parseSpec_within {start stop : ℕ} (h : parseSpec text total = .satisfiable start stop) :
    start ≤ stop ∧ stop < total := by
  unfold parseSpec at h
  cases hsplit : splitOnce '-' text with
  | none =>
    rw [hsplit] at h
    cases h
  | some cut =>
    obtain ⟨s, e⟩ := cut
    rw [hsplit] at h
    dsimp only at h
    split_ifs at h with hzero
    cases hpositions : positions s e total with
    | none =>
      rw [hpositions] at h
      cases h
    | some found =>
      obtain ⟨start', stop'⟩ := found
      rw [hpositions] at h
      dsimp only at h
      split_ifs at h with hout
      obtain ⟨rfl, rfl⟩ := ParsedRange.satisfiable.inj h
      refine ⟨by omega, ?_⟩
      have hstop := positions_stop_le hpositions
      omega

end Parser

/-! ### The characters of a range -/

/-- A visible ASCII character, a space or a tab. -/
def IsVisible (c : Char) : Prop :=
  (32 ≤ c.toNat ∧ c.toNat < 127) ∨ c.toNat = 9

section Chars

variable {text : List Char} {spec : Spec} {value : List UInt8} {c : Char}

theorem RangeSpec.mem (h : RangeSpec text spec) (hc : c ∈ text) : isDigit c = true ∨ c = '-' := by
  cases h with
  | bounded hf hl h =>
    rcases List.mem_append.mp hc with hc | hc
    · exact Or.inl (hf.digits c hc)
    · rcases List.mem_cons.mp hc with rfl | hc
      · exact Or.inr rfl
      · exact Or.inl (hl.digits c hc)
  | unbounded hf =>
    rcases List.mem_append.mp hc with hc | hc
    · exact Or.inl (hf.digits c hc)
    · exact Or.inr (List.mem_singleton.mp hc)
  | suffix hs =>
    rcases List.mem_cons.mp hc with rfl | hc
    · exact Or.inr rfl
    · exact Or.inl (hs.digits c hc)

theorem RangeSpec.toNat_mem (h : RangeSpec text spec) (hc : c ∈ text) :
    c.toNat = 45 ∨ (48 ≤ c.toNat ∧ c.toNat ≤ 57) := by
  rcases h.mem hc with hdigit | rfl
  · rw [isDigit, Bool.and_eq_true, decide_eq_true_iff, decide_eq_true_iff] at hdigit
    exact Or.inr hdigit
  · exact Or.inl rfl

theorem RangeSpec.not_mem (h : RangeSpec text spec) (hdigit : isDigit c = false) (hdash : c ≠ '-') :
    c ∉ text :=
  fun hc => (h.mem hc).elim (fun htrue => Bool.false_ne_true (hdigit.symm.trans htrue)) hdash

theorem RangeSpec.trim_eq (h : RangeSpec text spec) : trim text = text := by
  have hblank : ∀ c ∈ text, Text.isWhitespace c = false := by
    intro c hc
    have hnat := h.toNat_mem hc
    unfold Text.isWhitespace
    simp only [Bool.or_eq_false_iff, Bool.and_eq_false_iff, decide_eq_false_iff_not]
    omega
  exact Trim.trim_eq_self (fun c hc => hblank c (List.mem_of_mem_head? hc))
    (fun c hc => hblank c (List.mem_of_getLast? hc))

theorem isVisible_of_lower (h : IsVisible (lower c)) : IsVisible c := by
  unfold lower at h
  split_ifs at h with hupper
  · exact Or.inl (by omega)
  · exact h

/-- Every character of a header that asks for a range is visible. -/
theorem Requests.isVisible (h : Requests value spec) (hc : c ∈ chars value) : IsVisible c := by
  obtain ⟨unit, text, htrim, hunit, hspec⟩ := h
  have hor : c ∈ Trim.trim isOws (chars value) ∨ isOws c = true := Trim.mem_trim hc
  rcases hor with hmem | hblank
  · rw [htrim] at hmem
    rcases List.mem_append.mp hmem with hmem | hmem
    · have hlower : lower c ∈ ['b', 'y', 't', 'e', 's'] := hunit ▸ List.mem_map_of_mem hmem
      refine isVisible_of_lower ?_
      have hall : ∀ c ∈ ['b', 'y', 't', 'e', 's'], 32 ≤ c.toNat ∧ c.toNat < 127 := by decide
      exact Or.inl (hall _ hlower)
    · rcases List.mem_cons.mp hmem with rfl | hmem
      · exact Or.inl (by decide)
      · have hnat := hspec.toNat_mem hmem
        exact Or.inl (by omega)
  · rw [isOws, Bool.or_eq_true, decide_eq_true_iff, decide_eq_true_iff] at hblank
    rcases hblank with rfl | rfl
    · exact Or.inl (by decide)
    · exact Or.inr (by decide)

theorem toNat_ofNat_byte (b : UInt8) : (Char.ofNat b.toNat).toNat = b.toNat := by
  have hb := b.toNat_lt
  have hvalid : b.toNat.isValidChar := Or.inl (by omega)
  rw [Char.ofNat, dif_pos hvalid]
  rfl

/-- The characters that `to_str` gives. -/
theorem toStr_eq_some {raw : List Char} (h : toStr value = some raw) :
    raw = chars value ∧ ∀ c ∈ chars value, IsVisible c := by
  unfold toStr at h
  split_ifs at h with hall
  refine ⟨(Option.some.inj h).symm, fun c hc => ?_⟩
  obtain ⟨b, hb, rfl⟩ := List.mem_map.mp hc
  have hvisible := List.all_eq_true.mp hall b hb
  rw [Bool.or_eq_true, Bool.and_eq_true, decide_eq_true_iff, decide_eq_true_iff,
    decide_eq_true_iff] at hvisible
  rw [IsVisible, toNat_ofNat_byte]
  exact hvisible

theorem Requests.toStr (h : Requests value spec) : toStr value = some (chars value) := by
  refine if_pos (List.all_eq_true.mpr fun b hb => ?_)
  have hvisible := h.isVisible (List.mem_map_of_mem hb)
  rw [IsVisible, toNat_ofNat_byte] at hvisible
  rw [Bool.or_eq_true, Bool.and_eq_true, decide_eq_true_iff, decide_eq_true_iff,
    decide_eq_true_iff]
  exact hvisible

theorem isWhitespace_eq_isOws (h : IsVisible c) : Text.isWhitespace c = isOws c := by
  have hspace : c = ' ' ↔ c.toNat = 32 := ⟨fun h => h ▸ rfl, fun h => Char.toNat_inj.mp h⟩
  have htab : c = '\t' ↔ c.toNat = 9 := ⟨fun h => h ▸ rfl, fun h => Char.toNat_inj.mp h⟩
  unfold Text.isWhitespace isOws
  rw [IsVisible] at h
  rw [Bool.eq_iff_iff]
  simp only [Bool.or_eq_true, Bool.and_eq_true, decide_eq_true_iff, hspace, htab]
  omega

theorem trim_chars (h : ∀ c ∈ chars value, IsVisible c) :
    trim (chars value) = Trim.trim isOws (chars value) :=
  Trim.trim_congr fun c hc => isWhitespace_eq_isOws (h c hc)

theorem requests_iff (h : Trim.trim isOws (chars value) = bytesPrefix ++ text) :
    Requests value spec ↔ RangeSpec text spec := by
  constructor
  · rintro ⟨unit, text', htrim, hunit, hspec⟩
    have hlen : unit.length = 5 := by
      have := congrArg List.length hunit
      rwa [List.length_map] at this
    have hsplit : unit ++ '=' :: text' = ['b', 'y', 't', 'e', 's'] ++ '=' :: text :=
      htrim.symm.trans h
    obtain ⟨-, htext⟩ := List.append_inj hsplit hlen
    rwa [← (List.cons.inj htext).2]
  · exact fun hspec => ⟨['b', 'y', 't', 'e', 's'], text, h, by decide, hspec⟩

end Chars

/-! ### The headers on which both agree -/

/-- What a text that the parser reads has to be: of an empty file, a range; otherwise, without
blanks before it or a plus sign, and with its first position not after its last one. -/
def Plain (text : List Char) (total : ℕ) : Prop :=
  if total = 0 then ∃ spec, RangeSpec text spec
  else trim text = text ∧ '+' ∉ text ∧
    ∀ s e a b, splitOnce '-' text = some (s, e) → parseU64 s = some a → parseU64 e = some b → a ≤ b

/-- The headers on which the parser agrees with the grammar. -/
structure Accords (value : List UInt8) (total : ℕ) : Prop where
  /-- A range is written with `bytes` in lower case, and its numbers are read. -/
  written : ∀ spec, Requests value spec →
    bytesPrefix <+: Trim.trim isOws (chars value) ∧ (total = 0 ∨ spec.Readable)
  /-- What is read is a range. -/
  read : ∀ raw text, toStr value = some raw → trim raw = bytesPrefix ++ text → ',' ∉ text →
    Reads (trim text) total → Plain text total

section Main

variable {text : List Char} {spec : Spec} {value : List UInt8} {total : ℕ}

/-- **A text that is read is a range when it is plain.** -/
theorem plain_iff (h : Reads (trim text) total) :
    Plain text total ↔ ∃ spec, RangeSpec text spec := by
  unfold Plain
  split_ifs with hzero
  · rfl
  constructor
  · rintro ⟨htrim, hplus, hle⟩
    rw [htrim] at h
    obtain ⟨s, e, hsplit, hread⟩ := h
    obtain ⟨rfl, -⟩ := of_splitOnce hsplit
    have hs : '+' ∉ s := fun hmem => hplus (List.mem_append_left _ hmem)
    have he : '+' ∉ e := fun hmem =>
      hplus (List.mem_append_right _ (List.mem_cons_of_mem _ hmem))
    rcases hread.resolve_left hzero with ⟨rfl, n, hn, -⟩ | ⟨-, ⟨a, ha⟩, rfl | ⟨b, hb⟩⟩
    · exact ⟨_, .suffix (number_of_parseU64 hn he)⟩
    · exact ⟨_, .unbounded (number_of_parseU64 ha hs)⟩
    · exact ⟨_, .bounded (number_of_parseU64 ha hs) (number_of_parseU64 hb he)
        (hle s e a b hsplit ha hb)⟩
  · rintro ⟨spec, hspec⟩
    refine ⟨hspec.trim_eq, hspec.not_mem rfl (by decide), fun s e a b hsplit ha hb => ?_⟩
    obtain ⟨s', e', hsplit', hcases⟩ := rangeSpec_iff.mp hspec
    rw [hsplit] at hsplit'
    obtain ⟨rfl, rfl⟩ := Prod.mk.inj (Option.some.inj hsplit')
    rcases hcases with ⟨rfl, -⟩ | ⟨a', ha', ⟨rfl, -⟩ | ⟨b', hb', hle, -⟩⟩
    · cases ha
    · cases hb
    · rw [ha'.parseU64] at ha
      rw [hb'.parseU64] at hb
      split_ifs at ha hb
      obtain rfl := Option.some.inj ha
      obtain rfl := Option.some.inj hb
      exact hle

theorem parseRangeHeader_of_unit (hvisible : toStr value = some (chars value))
    (htrim : trim (chars value) = bytesPrefix ++ text) :
    parseRangeHeader (some value) total
      = if ',' ∈ text then .multiple else parseSpec (trim text) total := by
  unfold parseRangeHeader
  dsimp only
  rw [hvisible]
  dsimp only
  rw [htrim, if_pos (List.prefix_append _ _), List.drop_left]

theorem parseRangeHeader_of_not_unit
    (h : ∀ text, toStr value = some (chars value) → trim (chars value) ≠ bytesPrefix ++ text) :
    parseRangeHeader (some value) total = .invalid := by
  unfold parseRangeHeader
  dsimp only
  cases hstr : toStr value with
  | none => rfl
  | some raw =>
    obtain ⟨rfl, -⟩ := toStr_eq_some hstr
    dsimp only
    rw [if_neg]
    rintro ⟨text, htext⟩
    exact h text hstr htext.symm

/-- **The parser agrees with the grammar on the headers of `Accords`, and only on these.** -/
theorem agrees_iff (value : List UInt8) (total : ℕ) :
    Agrees (some value) total (parseRangeHeader (some value) total) ↔ Accords value total := by
  by_cases hstarts : ∃ text, toStr value = some (chars value) ∧
      trim (chars value) = bytesPrefix ++ text
  · obtain ⟨text, hstr, htrim⟩ := hstarts
    obtain ⟨-, hvisible⟩ := toStr_eq_some hstr
    have hows : Trim.trim isOws (chars value) = bytesPrefix ++ text := trim_chars hvisible ▸ htrim
    have hrequests : ∀ spec, Requests value spec ↔ RangeSpec text spec := fun spec =>
      requests_iff hows
    rw [parseRangeHeader_of_unit hstr htrim]
    constructor
    · intro hagrees
      refine ⟨fun spec hspec => ⟨hows ▸ List.prefix_append _ _, ?_⟩,
        fun raw text' hraw htext' hcomma hread => ?_⟩
      · have hrange := (hrequests spec).mp hspec
        by_contra hnot
        obtain ⟨hzero, hread⟩ := not_or.mp hnot
        have hcomma : ',' ∉ text := hrange.not_mem rfl (by decide)
        have hinvalid := parseSpec_of_not_readable hrange hzero hread
        rw [if_neg hcomma, hrange.trim_eq, hinvalid] at hagrees
        rcases hagrees with ⟨_, -, hanswers⟩ | ⟨hnone, -⟩
        · exact hanswers
        · exact hnone spec hspec
      · obtain ⟨rfl, -⟩ := toStr_eq_some hraw
        obtain rfl : text' = text := List.append_cancel_left (htext'.symm.trans htrim)
        rw [plain_iff hread]
        rw [if_neg hcomma] at hagrees
        rcases hagrees with ⟨spec, hspec, -⟩ | ⟨-, hother⟩
        · exact ⟨spec, (hrequests spec).mp hspec⟩
        · rcases (reads_iff _ _).mp hread with hanswer | ⟨start, stop, hanswer⟩
          · rw [hanswer] at hother
            rcases hother with h | h <;> cases h
          · rw [hanswer] at hother
            rcases hother with h | h <;> cases h
    · rintro ⟨hwritten, hread⟩
      by_cases hcomma : ',' ∈ text
      · rw [if_pos hcomma]
        refine Or.inr ⟨fun spec hspec => ?_, Or.inl rfl⟩
        exact ((hrequests spec).mp hspec).not_mem rfl (by decide) hcomma
      · rw [if_neg hcomma]
        by_cases hrange : ∃ spec, RangeSpec text spec
        · obtain ⟨spec, hspec⟩ := hrange
          have hasked := (hrequests spec).mpr hspec
          rw [hspec.trim_eq]
          exact Or.inl ⟨spec, hasked, parseSpec_answers hspec (hwritten spec hasked).2⟩
        · have hnot : ¬ Reads (trim text) total := fun hreads =>
            hrange ((plain_iff hreads).mp (hread _ text hstr htrim hcomma hreads))
          refine Or.inr ⟨fun spec hspec => hrange ⟨spec, (hrequests spec).mp hspec⟩, Or.inr ?_⟩
          exact parseSpec_eq_invalid hnot
  · have hnot : ∀ text, toStr value = some (chars value) →
        trim (chars value) ≠ bytesPrefix ++ text := fun text hstr htrim =>
      hstarts ⟨text, hstr, htrim⟩
    rw [parseRangeHeader_of_not_unit hnot]
    constructor
    · rintro (⟨_, -, hanswers⟩ | ⟨hnone, -⟩)
      · exact hanswers.elim
      · refine ⟨fun spec hspec => absurd hspec (hnone spec), fun raw text hraw htrim => ?_⟩
        obtain ⟨rfl, -⟩ := toStr_eq_some hraw
        exact absurd htrim (hnot text hraw)
    · rintro ⟨hwritten, -⟩
      refine Or.inr ⟨fun spec hspec => ?_, Or.inr rfl⟩
      obtain ⟨⟨text, htext⟩, -⟩ := hwritten spec hspec
      refine hnot text hspec.toStr ?_
      rw [trim_chars fun c hc => hspec.isVisible hc, htext]

end Main

/-! ### The download -/

/-- What is sent lies in the file, and its length is that of the range in its head. -/
structure DownloadHead.Sound (head : DownloadHead) (total : ℕ) : Prop where
  empty : total = 0 → head.sendLen = 0
  length : total ≠ 0 → head.startOffset ≤ head.endOffset ∧ head.endOffset < total ∧
    head.sendLen = head.endOffset - head.startOffset + 1 ∧ head.sendLen ≤ total
  contentRange : ∀ text ∈ head.contentRange, total ≠ 0 ∧
    text = "bytes " ++ toString head.startOffset ++ "-" ++ toString head.endOffset ++ "/" ++
      toString total

theorem parseRangeHeader_within {headerValue : Option (List UInt8)} {total start stop : ℕ}
    (h : parseRangeHeader headerValue total = .satisfiable start stop) :
    start ≤ stop ∧ stop < total := by
  unfold parseRangeHeader at h
  cases headerValue with
  | none => cases h
  | some value =>
    dsimp only at h
    cases hstr : toStr value with
    | none =>
      rw [hstr] at h
      cases h
    | some raw =>
      rw [hstr] at h
      dsimp only at h
      split_ifs at h
      exact parseSpec_within h

/-- **No length under- or overflows.** -/
theorem downloadHead_sound (headerValue : Option (List UInt8)) (total : ℕ) :
    ∀ head ∈ downloadHead (parseRangeHeader headerValue total) total, head.Sound total := by
  intro head hhead
  cases hrange : parseRangeHeader headerValue total with
  | full =>
    rw [hrange] at hhead
    obtain rfl := Option.some.inj hhead
    refine ⟨fun hzero => if_pos hzero, fun hzero => ?_, fun _ h => absurd h (Option.not_mem_none _)⟩
    dsimp only
    rw [if_neg hzero]
    omega
  | satisfiable start stop =>
    obtain ⟨hle, hlt⟩ := parseRangeHeader_within hrange
    rw [hrange] at hhead
    obtain rfl := Option.some.inj hhead
    refine ⟨fun hzero => if_pos hzero, fun hzero => ?_, fun text htext => ⟨by omega, ?_⟩⟩
    · dsimp only
      rw [if_neg hzero]
      omega
    · exact (Option.some.inj htext).symm
  | unsatisfiable =>
    rw [hrange] at hhead
    cases hhead
  | multiple =>
    rw [hrange] at hhead
    cases hhead
  | invalid =>
    rw [hrange] at hhead
    cases hhead

/-- The parser agrees with the grammar, and what is sent with what it answers. -/
def Exact (headerValue : Option (List UInt8)) (total : ℕ) : Prop :=
  Agrees headerValue total (parseRangeHeader headerValue total) ∧
    ∀ head ∈ downloadHead (parseRangeHeader headerValue total) total, head.Sound total

/-- **The parser agrees with the grammar exactly on the headers of `Accords`**: those without a
plus sign, a blank after the unit, a unit in capitals, a number from `2 ^ 64` on, an empty suffix or
a last position before the first one, and of an empty file those that are ranges.  What is sent is
sound for every header. -/
theorem parseRangeHeader_exact (headerValue : Option (List UInt8)) (total : ℕ) :
    Exact headerValue total ↔ ∀ value ∈ headerValue, Accords value total := by
  rw [Exact, and_iff_left (downloadHead_sound headerValue total)]
  cases headerValue with
  | none => exact iff_of_true rfl fun _ h => absurd h (Option.not_mem_none _)
  | some value =>
    rw [agrees_iff]
    exact ⟨fun h value' hvalue => Option.some.inj hvalue ▸ h, fun h => h value rfl⟩

/-- `bytes=+5-`. -/
def plusSign : List UInt8 := [98, 121, 116, 101, 115, 61, 43, 53, 45]

/-- **A position with a plus sign is read**, and a part of the file is sent for a header that asks
for no range. -/
theorem plus_sign_read : ¬ Exact (some plusSign) 10 := by
  have hanswer : parseRangeHeader (some plusSign) 10 = .satisfiable 5 9 := by decide
  rintro ⟨hagrees, -⟩
  rw [hanswer] at hagrees
  rcases hagrees with ⟨spec, hspec, -⟩ | ⟨-, h | h⟩
  · have hows : Trim.trim isOws (chars plusSign) = bytesPrefix ++ ['+', '5', '-'] := by decide
    have hrange := (requests_iff hows).mp hspec
    exact hrange.not_mem (c := '+') rfl (by decide) (by decide)
  · cases h
  · cases h

end RangeHeader
end Api
end HelmSsh
