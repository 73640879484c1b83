/-
# The output of a remote command

Two buffers of `src-tauri/src/remote/ssh.rs` through which the output of a remote command goes.
`Utf8StreamDecoder` makes texts of bytes that arrive in pieces, and `BoundedOutput` keeps the end
of them for the result.

* `push_eq` — what a push puts out and holds back is what the incremental decoder of the table
  does (`Utf8.decoder`); so the loop of `push` always ends.
* `streaming_eq_lossy` — the texts of all pushes and of `finish` are the repaired text of all bytes.
* `boundedOutput_exact` — what is kept and what `into_parts` makes of it.  The counter of the bytes
  saturates (`boundedOutput_total_saturates`).
-/

import HelmSsh.BoundedQueue
import HelmSsh.Utf8.Tails

namespace HelmSsh
namespace Remote

open Utf8

/-! ### The decoder -/

/-- `Utf8StreamDecoder`. -/
structure Utf8StreamDecoder where
  pending : List UInt8

namespace Utf8StreamDecoder

/-- `Utf8StreamDecoder::default`. -/
def default : Utf8StreamDecoder := ⟨[]⟩

/-- The valid text in front of an error goes to the output. -/
def takeValid (output : Str) (pending : List UInt8) (validUpTo : ℕ) : Str × List UInt8 :=
  if 0 < validUpTo then
    match fromUtf8 (pending.take validUpTo) with
    | .ok valid => (output ++ valid, pending.drop validUpTo)
    | .error _ => (output, pending.drop validUpTo)
  else (output, pending)

/-- The loop of `push`. -/
def pushLoop : ℕ → Str → List UInt8 → Str × List UInt8
  | 0, output, pending => (output, pending)
  | fuel + 1, output, pending =>
    match fromUtf8 pending with
    | .ok valid => (output ++ valid, [])
    | .error error =>
      let (output, pending) := takeValid output pending error.validUpTo
      match error.errorLen with
      | none => (output, pending)
      | some errorLen =>
        pushLoop fuel (output ++ replacement) (pending.drop (min errorLen pending.length))

/-- `Utf8StreamDecoder::push`. -/
def push (d : Utf8StreamDecoder) (bytes : List UInt8) : Str × Utf8StreamDecoder :=
  let pending := d.pending ++ bytes
  let (output, pending) := pushLoop (pending.length + 1) .empty pending
  (output, ⟨pending⟩)

/-- `Utf8StreamDecoder::finish`. -/
def finish (d : Utf8StreamDecoder) : Str × Utf8StreamDecoder :=
  (fromUtf8Lossy d.pending, ⟨[]⟩)

/-- The texts of one push after another, and the decoder after them. -/
def pushAll : Utf8StreamDecoder → List (List UInt8) → List Str × Utf8StreamDecoder
  | d, [] => ([], d)
  | d, chunk :: chunks =>
    let (text, d) := d.push chunk
    let (texts, d) := pushAll d chunks
    (text :: texts, d)

/-- What is in front of an error is a text, and goes to the output. -/
theorem takeValid_eq {output : Str} {pending : List UInt8} {validUpTo : ℕ}
    (h : Wellformed (pending.take validUpTo)) :
    takeValid output pending validUpTo
      = (output ++ ⟨pending.take validUpTo, h⟩, pending.drop validUpTo) := by
  unfold takeValid
  split_ifs with hpos
  · rw [fromUtf8_of_wellformed h]
  · obtain rfl := Nat.eq_zero_of_not_pos hpos
    refine Prod.ext (Str.ext ?_) rfl
    exact (List.append_nil _).symm

/-- **The loop does what the incremental decoder does**, with any bound that lets it take every
byte. -/
theorem pushLoop_eq {fuel : ℕ} {pending : List UInt8} (output : Str)
    (h : pending.length < fuel) :
    (pushLoop fuel output pending).1.bytes = output.bytes ++ (decoder.decode pending).1 ∧
      (pushLoop fuel output pending).2 = (decoder.decode pending).2 := by
  induction fuel generalizing output pending with
  | zero => cases h
  | succ fuel ih =>
    rw [pushLoop]
    cases herror : firstError pending with
    | none =>
      rw [fromUtf8_of_wellformed herror, decode_of_wellformed herror]
      exact ⟨rfl, rfl⟩
    | some error =>
      obtain ⟨validUpTo, errorLen⟩ := error
      rw [fromUtf8_of_firstError herror]
      cases errorLen with
      | none =>
        obtain ⟨hvalid, hdecode⟩ := decode_of_incomplete herror
        dsimp only
        rw [takeValid_eq hvalid, hdecode]
        exact ⟨rfl, rfl⟩
      | some errorLen =>
        obtain ⟨hvalid, hpos, hle, hdecode⟩ := decode_of_invalid herror
        dsimp only
        rw [takeValid_eq hvalid, hdecode]
        dsimp only
        have hmin : min errorLen (pending.drop validUpTo).length = errorLen := by
          rw [List.length_drop]
          omega
        have hshort : (pending.drop (validUpTo + errorLen)).length < fuel := by
          rw [List.length_drop]
          omega
        rw [hmin, List.drop_drop]
        obtain ⟨hout, hheld⟩ := ih (output ++ ⟨_, hvalid⟩ ++ replacement) hshort
        refine ⟨?_, hheld⟩
        rw [hout, Str.append_bytes, Str.append_bytes, List.append_assoc, List.append_assoc]

/-- **A push decodes the bytes after those held back.** -/
theorem push_eq (d : Utf8StreamDecoder) (bytes : List UInt8) :
    (d.push bytes).1.bytes = (decoder.decode (d.pending ++ bytes)).1 ∧
      (d.push bytes).2.pending = (decoder.decode (d.pending ++ bytes)).2 :=
  pushLoop_eq _ (Nat.lt_succ_self _)

/-- After some bytes, a push decodes what the bytes bring beyond them. -/
theorem push_after {d : Utf8StreamDecoder} {input : List UInt8} (bytes : List UInt8)
    (h : d.pending = (decoder.decode input).2) :
    (decoder.decode input).1 ++ (d.push bytes).1.bytes = (decoder.decode (input ++ bytes)).1 ∧
      (d.push bytes).2.pending = (decoder.decode (input ++ bytes)).2 := by
  obtain ⟨hout, hheld⟩ := d.push_eq bytes
  rw [hout, hheld, h, decoder.decode_append input bytes]
  exact ⟨rfl, rfl⟩

theorem finish_eq {d : Utf8StreamDecoder} {input : List UInt8}
    (h : d.pending = (decoder.decode input).2) :
    d.finish.1.bytes = cutOff (decoder.decode input).2 := by
  rw [finish, fromUtf8Lossy_bytes, h, decoder.decode_held]
  rfl

theorem finish_after {d : Utf8StreamDecoder} {input : List UInt8}
    (h : d.pending = (decoder.decode input).2) :
    (decoder.decode input).1 ++ d.finish.1.bytes = (fromUtf8Lossy input).bytes := by
  rw [finish_eq h, fromUtf8Lossy_bytes]

/-- One push after another decodes the pieces as one input. -/
theorem pushAll_after {d : Utf8StreamDecoder} {input : List UInt8} (chunks : List (List UInt8))
    (h : d.pending = (decoder.decode input).2) :
    (decoder.decode input).1 ++ (Str.concat (d.pushAll chunks).1).bytes
        = (decoder.decode (input ++ chunks.flatten)).1 ∧
      (d.pushAll chunks).2.pending = (decoder.decode (input ++ chunks.flatten)).2 := by
  induction chunks generalizing d input with
  | nil =>
    rw [List.flatten_nil, List.append_nil]
    exact ⟨List.append_nil _, h⟩
  | cons chunk chunks ih =>
    obtain ⟨hout, hheld⟩ := push_after chunk h
    obtain ⟨houts, hend⟩ := ih hheld
    rw [List.flatten_cons, ← List.append_assoc]
    refine ⟨?_, hend⟩
    rw [← houts, ← hout, List.append_assoc]
    rfl

end Utf8StreamDecoder

/-- **The texts of a decoder are the repaired text.**  For all bytes and every way to cut them, the
texts of the pushes and of `finish` are `from_utf8_lossy` of the whole, and after each push at
most three bytes are held back. -/
theorem streaming_eq_lossy (chunks : List (List UInt8)) :
    Str.concat ((Utf8StreamDecoder.default.pushAll chunks).1
        ++ [(Utf8StreamDecoder.default.pushAll chunks).2.finish.1]) = fromUtf8Lossy chunks.flatten ∧
      (Utf8StreamDecoder.default.pushAll chunks).2.pending.length ≤ 3 := by
  have hstart : Utf8StreamDecoder.default.pending = (decoder.decode []).2 := rfl
  obtain ⟨houts, hend⟩ := Utf8StreamDecoder.pushAll_after chunks hstart
  rw [List.nil_append] at houts hend
  constructor
  · refine Str.ext ?_
    rw [← Utf8StreamDecoder.finish_after hend, ← houts, Str.concat_bytes, Str.concat_bytes,
      List.flatMap_append, List.flatMap_singleton]
    rfl
  · rw [hend]
    exact held_le _

/-- A character that is cut into three pieces. -/
example : ((Utf8StreamDecoder.default.pushAll [[0xE8], [0xBE], [0x93, 0x41]]).1.map Str.bytes)
    = [[], [], [0xE8, 0xBE, 0x93, 0x41]] := by
  decide

/-! ### The end of the output -/

/-- `u64::MAX`, where the counter of the bytes saturates. -/
def maxTotalBytes : ℕ := 2 ^ 64 - 1

/-- `isize::MAX`, which no slice is longer than. -/
def maxSliceLen : ℕ := 2 ^ 63 - 1

/-- `&[u8]`. -/
structure Slice where
  bytes : List UInt8
  length_le : bytes.length ≤ maxSliceLen

/-- `BoundedOutput`. -/
structure BoundedOutput where
  bytes : List UInt8
  maxBytes : ℕ
  totalBytes : ℕ
  truncated : Bool

namespace BoundedOutput

/-- `BoundedOutput::new`. -/
def new (maxBytes : UInt64) : BoundedOutput :=
  { bytes := [], maxBytes := max maxBytes.toNat 1, totalBytes := 0, truncated := false }

/-- `BoundedOutput::push`. -/
def push (o : BoundedOutput) (bytes : List UInt8) : BoundedOutput :=
  let total := saturatingAdd maxTotalBytes o.totalBytes bytes.length
  if o.maxBytes ≤ bytes.length then
    { o with
      bytes := bytes.drop (bytes.length - o.maxBytes)
      totalBytes := total
      truncated := o.truncated || decide (o.maxBytes < total) }
  else
    let kept := o.bytes ++ bytes
    let overflow := kept.length - o.maxBytes
    if 0 < overflow then
      { o with bytes := kept.drop overflow, totalBytes := total, truncated := true }
    else
      { o with bytes := kept, totalBytes := total }

/-- `BoundedOutput::push_line`. -/
def pushLine (o : BoundedOutput) (text : Str) : BoundedOutput :=
  let o := if o.bytes ≠ [] ∧ o.bytes.getLast? ≠ some 0x0A then o.push [0x0A] else o
  o.push text.bytes

/-- `String::drain(..index)`, which panics inside a character. -/
def drainFront (text : Str) (index : ℕ) : Option Str :=
  if h : text.isCharBoundary index then some ⟨text.bytes.drop index, wellformed_drop h⟩ else none

/-- `BoundedOutput::into_parts`, or nothing when it panics. -/
def intoParts (o : BoundedOutput) : Option (Str × ℕ × Bool) :=
  let text := fromUtf8Lossy o.bytes
  if o.maxBytes < text.len then
    (drainFront text (text.boundaryFrom text.len (text.len - o.maxBytes))).map
      fun text => (text, o.totalBytes, true)
  else some (text, o.totalBytes, o.truncated)

/-- The last bytes, at most so many. -/
def lastBytes (limit : ℕ) (bytes : List UInt8) : List UInt8 :=
  bytes.drop (bytes.length - limit)

theorem lastBytes_append_of_le {limit : ℕ} {bytes : List UInt8} (before : List UInt8)
    (h : limit ≤ bytes.length) : lastBytes limit (before ++ bytes) = lastBytes limit bytes := by
  have hlength : (before ++ bytes).length - limit = before.length + (bytes.length - limit) := by
    rw [List.length_append]
    omega
  rw [lastBytes, hlength, List.drop_length_add_append, lastBytes]

/-- What is not among the last bytes is not needed for the last bytes of more. -/
theorem lastBytes_append (limit : ℕ) (before bytes : List UInt8) :
    lastBytes limit (before ++ bytes) = lastBytes limit (lastBytes limit before ++ bytes) := by
  unfold lastBytes
  rw [List.drop_append, List.drop_append, List.drop_drop]
  simp only [List.length_append, List.length_drop]
  congr 2
  all_goals omega

theorem length_lastBytes (limit : ℕ) (bytes : List UInt8) :
    (lastBytes limit bytes).length = min bytes.length limit := by
  rw [lastBytes, List.length_drop]
  omega

theorem lastBytes_of_le {limit : ℕ} {bytes : List UInt8} (h : bytes.length ≤ limit) :
    lastBytes limit bytes = bytes := by
  rw [lastBytes, Nat.sub_eq_zero_of_le h, List.drop_zero]

/-- What is kept of the bytes that were pushed. -/
structure Kept (limit : ℕ) (pushed : List UInt8) (o : BoundedOutput) : Prop where
  max_eq : o.maxBytes = limit
  bytes_eq : o.bytes = lastBytes limit pushed
  total_eq : o.totalBytes = min pushed.length maxTotalBytes
  truncated_iff : o.truncated = true ↔ limit < pushed.length

theorem kept_new (maxBytes : UInt64) : Kept (max maxBytes.toNat 1) [] (new maxBytes) where
  max_eq := rfl
  bytes_eq := List.drop_nil.symm
  total_eq := rfl
  truncated_iff := by
    refine ⟨fun h => ?_, fun h => absurd h (Nat.not_lt_zero _)⟩
    cases h

variable {o : BoundedOutput} {limit : ℕ} {pushed bytes : List UInt8}

theorem Kept.total (h : Kept limit pushed o) :
    saturatingAdd maxTotalBytes o.totalBytes bytes.length
      = min (pushed ++ bytes).length maxTotalBytes := by
  rw [saturatingAdd, h.total_eq, List.length_append]
  omega

/-- **A push keeps the end of all bytes.** -/
theorem Kept.push (h : Kept limit pushed o) (hlen : bytes.length ≤ maxSliceLen) :
    Kept limit (pushed ++ bytes) (o.push bytes) := by
  have hkept : o.bytes.length = min pushed.length limit := by
    rw [h.bytes_eq, length_lastBytes]
  have hlength : (pushed ++ bytes).length = pushed.length + bytes.length := List.length_append
  unfold BoundedOutput.push
  dsimp only
  rw [h.total, h.max_eq]
  split_ifs with hlarge hover
  · refine ⟨rfl, (lastBytes_append_of_le pushed hlarge).symm, rfl, ?_⟩
    -- no slice reaches the limit of the counter
    have hcounter : limit < maxTotalBytes := by
      unfold maxTotalBytes
      unfold maxSliceLen at hlen
      omega
    dsimp only
    rw [Bool.or_eq_true, decide_eq_true_iff, h.truncated_iff]
    omega
  · rw [List.length_append, hkept] at hover
    refine ⟨rfl, ?_, rfl, ?_⟩
    · dsimp only
      rw [lastBytes_append, ← h.bytes_eq, lastBytes]
    · dsimp only
      refine ⟨fun _ => ?_, fun _ => rfl⟩
      omega
  · have hroom : (o.bytes ++ bytes).length ≤ limit := by omega
    rw [List.length_append, hkept] at hover
    refine ⟨rfl, ?_, rfl, ?_⟩
    · dsimp only
      rw [lastBytes_append, ← h.bytes_eq, lastBytes_of_le hroom]
    · dsimp only
      rw [h.truncated_iff]
      omega

@[simp] theorem maxBytes_push (o : BoundedOutput) (bytes : List UInt8) :
    (o.push bytes).maxBytes = o.maxBytes := by
  unfold BoundedOutput.push
  dsimp only
  split_ifs <;> rfl

@[simp] theorem maxBytes_pushLine (o : BoundedOutput) (text : Str) :
    (o.pushLine text).maxBytes = o.maxBytes := by
  unfold pushLine
  dsimp only
  split_ifs
  · rw [maxBytes_push, maxBytes_push]
  · rw [maxBytes_push]

/-- One push after another keeps the end of all bytes. -/
theorem Kept.pushAll (h : Kept limit pushed o) (chunks : List Slice) :
    Kept limit (pushed ++ chunks.flatMap Slice.bytes)
      (chunks.foldl (fun o chunk => o.push chunk.bytes) o) := by
  induction chunks generalizing o pushed with
  | nil =>
    rw [List.flatMap_nil, List.append_nil]
    exact h
  | cons chunk chunks ih =>
    rw [List.flatMap_cons, ← List.append_assoc, List.foldl_cons]
    exact ih (h.push chunk.length_le)

/-- A text that is longer than the limit is cut, and ends within it. -/
theorem drainFront_eq {text : Str} {limit : ℕ} (hpos : 1 ≤ limit) (hlong : limit < text.len) :
    ∃ cut, drainFront text (text.boundaryFrom text.len (text.len - limit)) = some cut ∧
      cut.len ≤ limit ∧ cut.bytes <:+ text.bytes := by
  obtain ⟨hboundary, hfrom, -⟩ := Str.leastBoundary_boundaryFrom (s := text) text.len
    (text.len - limit) (Nat.sub_le _ _) (by omega)
  refine ⟨_, by rw [drainFront, dif_pos hboundary], ?_, List.drop_suffix _ _⟩
  rw [Str.len, List.length_drop]
  change text.len - _ ≤ limit
  omega

/-- **`into_parts` does not panic**, and its text is the end of the repaired bytes. -/
theorem intoParts_eq (o : BoundedOutput) (hmax : 1 ≤ o.maxBytes) : ∃ text truncated,
    o.intoParts = some (text, o.totalBytes, truncated) ∧ text.len ≤ o.maxBytes ∧
      text.bytes <:+ (fromUtf8Lossy o.bytes).bytes ∧
      (truncated = true ↔ o.truncated = true ∨ text ≠ fromUtf8Lossy o.bytes) := by
  unfold intoParts
  dsimp only
  split_ifs with hlong
  · obtain ⟨cut, hcut, hlen, hsuffix⟩ := drainFront_eq hmax hlong
    refine ⟨cut, true, by rw [hcut]; rfl, hlen, hsuffix, fun _ => .inr fun heq => ?_, fun _ => rfl⟩
    rw [heq] at hlen
    omega
  · refine ⟨_, _, rfl, Nat.le_of_not_lt hlong, List.suffix_rfl, Or.inl, fun h => ?_⟩
    exact h.resolve_right fun hne => hne rfl

end BoundedOutput

/-- The test of the source: `hello`, ` world`, with room for five bytes. -/
example : (((BoundedOutput.new 5).push [0x68, 0x65, 0x6C, 0x6C, 0x6F]).push
    [0x20, 0x77, 0x6F, 0x72, 0x6C, 0x64]).intoParts.map (fun parts => (parts.1.bytes, parts.2))
      = some ([0x77, 0x6F, 0x72, 0x6C, 0x64], 11, true) := by
  decide

end Remote
end HelmSsh
