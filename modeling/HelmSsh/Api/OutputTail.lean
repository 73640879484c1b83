/-
# The tails of a job's output

`BoundedTextTail` and the part of `JobRecord::append_output` past its checks, of
`src-tauri/src/api_server/jobs.rs`: a job keeps the end of its standard output and of its
standard error, counts their bytes, and remembers whether something was cut off.

* `append_output_exact` — what is kept of a stream is the longest tail of everything appended to
  it within the limit; and the mark of truncation is exact unless a text of exactly the limit
  was appended while nothing has been cut off.
* `full_text_marked` — a job whose first text fills the limit is marked although nothing is lost.
-/

import HelmSsh.Api.JobEvents
import HelmSsh.Utf8.Tails
import Mathlib.Data.List.Induction

namespace HelmSsh
namespace Api
namespace OutputTail

open Utf8

/-- `MAX_JOB_OUTPUT_BYTES`. -/
def maxJobOutputBytes : ℕ := 1024 * 1024

/-- `BoundedTextTail`. -/
structure BoundedTextTail where
  bytes : List UInt8
  maxBytes : ℕ
  deriving DecidableEq

/-- `BoundedTextTail::new`. -/
def BoundedTextTail.new (maxBytes : ℕ) : BoundedTextTail :=
  ⟨[], max maxBytes 1⟩

/-- `BoundedTextTail::push`, with whether it reports a truncation. -/
def BoundedTextTail.push (tail : BoundedTextTail) (text : Str) : BoundedTextTail × Bool :=
  if tail.maxBytes ≤ text.len then
    let keepFrom := text.boundaryFrom text.len (text.len - tail.maxBytes)
    ({ tail with bytes := text.bytes.drop keepFrom }, true)
  else
    let bytes := tail.bytes ++ text.bytes
    let overflow := bytes.length - tail.maxBytes
    if overflow = 0 then ({ tail with bytes := bytes }, false)
    else ({ tail with bytes := (bytes.drop overflow).dropWhile isContinuation }, true)

/-- `BoundedTextTail::as_string`. -/
def BoundedTextTail.asString (tail : BoundedTextTail) : Str :=
  match fromUtf8 tail.bytes with
  | .ok text => text
  | .error _ => fromUtf8Lossy tail.bytes

/-- The stream a text is appended to. -/
inductive Stream
  | stdout
  | stderr
  deriving DecidableEq

/-- What a job record keeps of its output. -/
structure JobOutput where
  stdoutBytes : ℕ
  stderrBytes : ℕ
  outputTruncated : Bool
  stdout : BoundedTextTail
  stderr : BoundedTextTail
  deriving DecidableEq

/-- The output of a new job. -/
def JobOutput.new (maxBytes : ℕ) : JobOutput :=
  ⟨0, 0, false, .new maxBytes, .new maxBytes⟩

/-- `append_output`, past the checks of the status. -/
def JobOutput.append (s : JobOutput) (kind : Stream) (text : Str) : JobOutput :=
  if text.isEmpty then s
  else
    match kind with
    | .stdout =>
      { s with
        stdoutBytes := min (s.stdoutBytes + text.len) u64Max
        stdout := (s.stdout.push text).1
        outputTruncated := s.outputTruncated || (s.stdout.push text).2 }
    | .stderr =>
      { s with
        stderrBytes := min (s.stderrBytes + text.len) u64Max
        stderr := (s.stderr.push text).1
        outputTruncated := s.outputTruncated || (s.stderr.push text).2 }

/-- The output after some texts were appended. -/
def JobOutput.appendAll (s : JobOutput) (appended : List (Stream × Str)) : JobOutput :=
  appended.foldl (fun s a => s.append a.1 a.2) s

/-- The tail of a stream. -/
def JobOutput.tail (s : JobOutput) : Stream → BoundedTextTail
  | .stdout => s.stdout
  | .stderr => s.stderr

/-- Everything that was appended to a stream. -/
def whole (kind : Stream) (appended : List (Stream × Str)) : Str :=
  Str.concat ((appended.filter (·.1 = kind)).map (·.2))

/-! ### One push -/

/-- A tail holds what the limit leaves of a text. -/
structure Holds (limit : ℕ) (text : Str) (tail : BoundedTextTail) : Prop where
  max : tail.maxBytes = limit
  isTail : text.IsTail limit tail.bytes

variable {limit : ℕ} {text more : Str} {tail : BoundedTextTail}

theorem holds_new (maxBytes : ℕ) : Holds (max maxBytes 1) .empty (.new maxBytes) :=
  ⟨rfl, Str.isTail_self (Nat.zero_le _)⟩

/-- **A push keeps the tail of everything pushed.** -/
theorem Holds.push (h : Holds limit text tail) (more : Str) :
    Holds limit (text ++ more) (tail.push more).1 := by
  have hmax := h.max
  unfold BoundedTextTail.push
  dsimp only
  split_ifs with hlong hfits
  · refine ⟨h.max, ?_⟩
    have hm := Str.leastBoundary_boundaryFrom (s := more) more.len (more.len - tail.maxBytes)
      (Nat.sub_le _ _) (by omega)
    rw [hmax] at hm hlong ⊢
    exact Str.isTail_of_long text hlong hm
  · refine ⟨h.max, h.isTail.extend ?_⟩
    rw [List.length_append, hmax] at hfits
    change tail.bytes.length + more.bytes.length ≤ limit
    omega
  · refine ⟨h.max, ?_⟩
    rw [List.length_append, hmax] at hfits ⊢
    refine h.isTail.push ?_
    change limit ≤ tail.bytes.length + more.bytes.length
    omega

theorem push_reports (more : Str) : (tail.push more).2 = true ↔
    tail.maxBytes ≤ more.len ∨ tail.maxBytes < tail.bytes.length + more.len := by
  unfold BoundedTextTail.push
  dsimp only
  split_ifs with hlong hfits
  · exact iff_of_true rfl (Or.inl hlong)
  · rw [List.length_append] at hfits
    change _ ↔ _ ∨ tail.maxBytes < tail.bytes.length + more.bytes.length
    refine iff_of_false id ?_
    omega
  · rw [List.length_append] at hfits
    change _ ↔ _ ∨ tail.maxBytes < tail.bytes.length + more.bytes.length
    refine iff_of_true rfl ?_
    omega

/-! ### A run of appends -/

variable {s : JobOutput} {appended : List (Stream × Str)} {maxBytes : ℕ}

theorem whole_append_self (appended : List (Stream × Str)) (kind : Stream) (text : Str) :
    whole kind (appended ++ [(kind, text)]) = whole kind appended ++ text := by
  ext1
  rw [whole, whole, List.filter_append, List.map_append, Str.append_bytes, Str.concat_bytes,
    Str.concat_bytes, List.flatMap_append, List.filter_cons_of_pos (by simp)]
  exact congrArg _ (List.append_nil _)

theorem whole_append_other (appended : List (Stream × Str)) {kind other : Stream} (text : Str)
    (h : kind ≠ other) : whole other (appended ++ [(kind, text)]) = whole other appended := by
  rw [whole, whole, List.filter_append, List.filter_cons_of_neg (by simpa using h),
    List.filter_nil, List.append_nil]

/-- What is kept after some texts were appended. -/
structure Inv (limit : ℕ) (appended : List (Stream × Str)) (s : JobOutput) : Prop where
  holds : ∀ kind, Holds limit (whole kind appended) (s.tail kind)
  marked : s.outputTruncated = true ↔
    (∃ kind, limit < (whole kind appended).len) ∨ ∃ a ∈ appended, a.2.len = limit

theorem append_of_nonempty (s : JobOutput) (kind : Stream) (h : ¬ text.isEmpty = true) :
    (s.append kind text).tail kind = ((s.tail kind).push text).1 ∧
      (∀ other, kind ≠ other → (s.append kind text).tail other = s.tail other) ∧
      (s.append kind text).outputTruncated
        = (s.outputTruncated || ((s.tail kind).push text).2) := by
  unfold JobOutput.append
  rw [if_neg h]
  cases kind with
  | stdout =>
    refine ⟨rfl, fun other hne => ?_, rfl⟩
    cases other with
    | stdout => exact absurd rfl hne
    | stderr => rfl
  | stderr =>
    refine ⟨rfl, fun other hne => ?_, rfl⟩
    cases other with
    | stdout => rfl
    | stderr => exact absurd rfl hne

theorem len_eq_zero (h : text.isEmpty = true) : text = .empty ∧ text.len = 0 := by
  have hnil : text.bytes = [] := List.isEmpty_iff.mp h
  exact ⟨Str.ext hnil, congrArg List.length hnil⟩

/-- **An append keeps the tails**, and marks what it should and a text that fills the limit. -/
theorem Inv.append (h : Inv limit appended s) (hlimit : 0 < limit) (kind : Stream) (text : Str) :
    Inv limit (appended ++ [(kind, text)]) (s.append kind text) := by
  have hother : ∀ other, kind ≠ other →
      whole other (appended ++ [(kind, text)]) = whole other appended :=
    fun other hne => whole_append_other appended text hne
  have hself := whole_append_self appended kind text
  have hlen : (whole kind appended ++ text).len = (whole kind appended).len + text.len :=
    List.length_append
  have hlonger : (∃ k, limit < (whole k (appended ++ [(kind, text)])).len) ↔
      (∃ k, limit < (whole k appended).len) ∨
        limit < (whole kind appended).len + text.len := by
    constructor
    · rintro ⟨k, hk⟩
      by_cases hne : kind = k
      · subst hne
        rw [hself, hlen] at hk
        exact Or.inr hk
      · rw [hother k hne] at hk
        exact Or.inl ⟨k, hk⟩
    · rintro (⟨k, hk⟩ | hk)
      · by_cases hne : kind = k
        · subst hne
          exact ⟨kind, by rw [hself, hlen]; omega⟩
        · exact ⟨k, by rwa [hother k hne]⟩
      · exact ⟨kind, by rwa [hself, hlen]⟩
  have hfull : (∃ a ∈ appended ++ [(kind, text)], a.2.len = limit) ↔
      (∃ a ∈ appended, a.2.len = limit) ∨ text.len = limit := by
    simp only [List.mem_append, List.mem_singleton, or_and_right, exists_or, exists_eq_left]
  by_cases hempty : text.isEmpty = true
  · obtain ⟨hnil, hzero⟩ := len_eq_zero hempty
    have hsame : s.append kind text = s := by
      unfold JobOutput.append
      exact if_pos hempty
    rw [hsame]
    refine ⟨fun k => ?_, ?_⟩
    · by_cases hne : kind = k
      · subst hne
        have hsame : whole kind appended ++ text = whole kind appended := by
          rw [hnil]
          exact Str.ext (List.append_nil _)
        rw [hself, hsame]
        exact h.holds kind
      · rw [hother k hne]
        exact h.holds k
    · rw [h.marked, hlonger, hfull, hzero]
      constructor
      · exact Or.imp Or.inl Or.inl
      · rintro ((hlong | hlong) | (hfills | hfills))
        · exact Or.inl hlong
        · exact Or.inl ⟨kind, hlong⟩
        · exact Or.inr hfills
        · omega
  · obtain ⟨htail, hrest, htruncated⟩ := append_of_nonempty s kind hempty
    refine ⟨fun k => ?_, ?_⟩
    · by_cases hne : kind = k
      · subst hne
        rw [htail, hself]
        exact (h.holds kind).push text
      · rw [hrest k hne, hother k hne]
        exact h.holds k
    · have hkept := (h.holds kind).isTail
      have hle : (s.tail kind).bytes.length ≤ (whole kind appended).len := by
        obtain ⟨index, -, hdrop, -, -⟩ := hkept
        rw [hdrop, List.length_drop]
        exact Nat.sub_le _ _
      have hall : (whole kind appended).len ≤ limit →
          (s.tail kind).bytes.length = (whole kind appended).len :=
        fun hfits => congrArg List.length (hkept.eq_iff.mpr hfits)
      rw [htruncated, Bool.or_eq_true, h.marked, push_reports, (h.holds kind).max, hlonger, hfull]
      constructor
      · rintro ((hlong | hfills) | hpush)
        · exact Or.inl (Or.inl hlong)
        · exact Or.inr (Or.inl hfills)
        · by_cases hexact : text.len = limit
          · exact Or.inr (Or.inr hexact)
          · exact Or.inl (Or.inr (by omega))
      · rintro ((hlong | hlong) | (hfills | hfills))
        · exact Or.inl (Or.inl hlong)
        · by_cases hfits : (whole kind appended).len ≤ limit
          · have := hall hfits
            exact Or.inr (Or.inr (by omega))
          · exact Or.inl (Or.inl ⟨kind, by omega⟩)
        · exact Or.inl (Or.inr hfills)
        · exact Or.inr (Or.inl (by omega))

/-- **However many texts are appended.** -/
theorem inv_appendAll (maxBytes : ℕ) (appended : List (Stream × Str)) :
    Inv (max maxBytes 1) appended ((JobOutput.new maxBytes).appendAll appended) := by
  induction appended using List.reverseRecOn with
  | nil =>
    refine ⟨fun kind => ?_, ?_⟩
    · cases kind with
      | stdout => exact holds_new maxBytes
      | stderr => exact holds_new maxBytes
    · refine iff_of_false (fun h => Bool.false_ne_true h) ?_
      rintro (⟨kind, hlong⟩ | ⟨a, ha, -⟩)
      · exact absurd hlong (Nat.not_lt_zero _)
      · cases ha
  | append_singleton appended a ih =>
    rw [JobOutput.appendAll, List.foldl_append]
    exact ih.append (by omega) a.1 a.2

theorem Holds.asString (h : Holds limit text tail) : tail.asString.bytes = tail.bytes := by
  rw [BoundedTextTail.asString, fromUtf8_of_wellformed h.isTail.wellformed]

/-- The kept output of both streams is the longest tail within the limit, and the mark says
whether something is missing. -/
def Exact (maxBytes : ℕ) (appended : List (Stream × Str)) : Prop :=
  let s := (JobOutput.new maxBytes).appendAll appended
  (∀ kind, (whole kind appended).IsTail (max maxBytes 1) (s.tail kind).asString.bytes) ∧
    (s.outputTruncated = true ↔
      ∃ kind, (s.tail kind).asString.len < (whole kind appended).len)

/-- **The output of a job is reported exactly when some stream is over the limit, or no text
fills it**: what is kept is always the longest tail; the mark is set by a text that fills the limit
alone, whether or not something was there before it. -/
theorem append_output_exact (maxBytes : ℕ) (appended : List (Stream × Str)) :
    Exact maxBytes appended ↔
      (∃ kind, max maxBytes 1 < (whole kind appended).len) ∨
        ∀ a ∈ appended, a.2.len ≠ max maxBytes 1 := by
  have hinv := inv_appendAll maxBytes appended
  have hshown := fun kind => (hinv.holds kind).asString
  have htails : ∀ kind, (whole kind appended).IsTail (max maxBytes 1)
      (((JobOutput.new maxBytes).appendAll appended).tail kind).asString.bytes := by
    intro kind
    rw [hshown kind]
    exact (hinv.holds kind).isTail
  have hmissing : (∃ kind, (((JobOutput.new maxBytes).appendAll appended).tail kind).asString.len
      < (whole kind appended).len) ↔ ∃ kind, max maxBytes 1 < (whole kind appended).len := by
    refine exists_congr fun kind => ?_
    constructor
    · intro hless
      by_contra hfits
      rw [Str.len, (htails kind).eq_iff.mpr (by omega)] at hless
      exact Nat.lt_irrefl _ hless
    · intro hlong
      obtain ⟨-, -, -, hlen, -⟩ := htails kind
      exact Nat.lt_of_le_of_lt hlen hlong
  unfold Exact
  dsimp only
  rw [hmissing, hinv.marked, and_iff_right htails]
  by_cases hlong : ∃ kind, max maxBytes 1 < (whole kind appended).len
  · exact iff_of_true (iff_of_true (Or.inl hlong) hlong) (Or.inl hlong)
  · rw [iff_false_right hlong, or_iff_right hlong, or_iff_right hlong]
    constructor
    · intro hnone a ha hfills
      exact hnone ⟨a, ha, hfills⟩
    · rintro hnone ⟨a, ha, hfills⟩
      exact hnone a ha hfills

/-- A text of one letter, so many times. -/
def letters (n : ℕ) : Str :=
  ⟨List.replicate n 0x61, by
    induction n with
    | zero => rfl
    | succ n ih =>
      have hletter : Wellformed [0x61] := by decide
      exact hletter.append ih⟩

/-- **A first text that fills the limit is marked as cut**, though every byte of it is kept. -/
theorem full_text_marked : ¬ Exact maxJobOutputBytes [(.stdout, letters maxJobOutputBytes)] := by
  have hlen : (letters maxJobOutputBytes).len = maxJobOutputBytes := List.length_replicate
  have hinv := inv_appendAll maxJobOutputBytes [(.stdout, letters maxJobOutputBytes)]
  have hmax : max maxJobOutputBytes 1 = maxJobOutputBytes := by decide
  rw [hmax] at hinv
  rintro ⟨-, hmarked⟩
  obtain ⟨kind, hless⟩ := hmarked.mp
    (hinv.marked.mpr (Or.inr ⟨_, List.mem_singleton_self _, hlen⟩))
  have hwhole : (whole kind [(.stdout, letters maxJobOutputBytes)]).len ≤ maxJobOutputBytes := by
    cases kind with
    | stdout =>
      have hone : whole .stdout [(.stdout, letters maxJobOutputBytes)]
          = .empty ++ letters maxJobOutputBytes := whole_append_self [] .stdout _
      rw [hone]
      exact Nat.le_of_eq hlen
    | stderr =>
      have hone : whole .stderr [(.stdout, letters maxJobOutputBytes)] = .empty :=
        whole_append_other [] _ (by decide)
      rw [hone]
      exact Nat.zero_le _
  have hall := (hinv.holds kind).isTail.eq_iff.mpr hwhole
  rw [Str.len, Str.len, (hinv.holds kind).asString, hall] at hless
  exact Nat.lt_irrefl _ hless

end OutputTail
end Api
end HelmSsh
