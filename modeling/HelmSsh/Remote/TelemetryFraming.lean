/-
# The frames of the telemetry channel

`find_frame_boundary`, `memchr_subslice` and the reader task of `TelemetryStream::open`, of
`src-tauri/src/remote/runtime_telemetry.rs`.  The remote loop ends each sample with a line that
starts with a sentinel and goes on with the tag of the sample.  The reader looks for such a line
in what has arrived so far, takes the frame out of its buffer, and looks again.

* `findFrameBoundary_line`, `findFrameBoundary_of_not_mem` — what the search finds, line by line:
  it may skip a sentinel inside a line, since no sentinel starts at a line start inside of it.
* `findFrameBoundary_append` — bytes that arrive later do not change it.
* `readerLoop_eq_framesOf` — so the frames are those of the whole stream cut at its sentinel
  lines, however it arrives.
-/

import HelmSsh.Lines
import HelmSsh.Text
import HelmSsh.Utf8.Strings
import Mathlib.Data.Nat.Find

namespace HelmSsh
namespace Remote
namespace TelemetryFraming

open Utf8

/-- `b'\n'`. -/
def newline : UInt8 := 10

/-- The bytes of `TELEMETRY_FRAME_SENTINEL`. -/
def sentinel : List UInt8 :=
  (Str.ofString "__HELM_TM_END__:").bytes

/-- `TelemetryFrame`. -/
structure TelemetryFrame where
  tag : String
  body : Str

/-- `FrameBoundary`. -/
structure FrameBoundary where
  bodyEnd : ℕ
  frameEnd : ℕ
  tag : String
  deriving DecidableEq

/-- `memchr_subslice`. -/
def memchrSubslice (haystack needle : List UInt8) : Option ℕ :=
  if needle = [] ∨ haystack.length < needle.length then none
  else Lines.position haystack needle

/-- The tag on a sentinel line: without a carriage return at its end, and trimmed. -/
def tagOf (tagBytes : List UInt8) : String :=
  let tagBytes := if tagBytes.getLast? = some 13 then tagBytes.dropLast else tagBytes
  Text.trim (fromUtf8Lossy tagBytes).text

/-- The frame that ends with the sentinel line here, when that line is there to its end. -/
def frameAt (buf : List UInt8) (abs : ℕ) : Option FrameBoundary :=
  let tagStart := abs + sentinel.length
  match (buf.drop tagStart).findIdx? (· == newline) with
  | none => none
  | some nlRel =>
    some ⟨abs, tagStart + nlRel + 1, tagOf ((buf.drop tagStart).take nlRel)⟩

/-- The loop of `find_frame_boundary` from `search_from` on. -/
def findFrom (buf : List UInt8) : ℕ → ℕ → Option FrameBoundary
  | 0, _ => none
  | fuel + 1, searchFrom =>
    match memchrSubslice (buf.drop searchFrom) sentinel with
    | none => none
    | some rel =>
      let abs := searchFrom + rel
      -- The sentinel must start at the beginning of a line.
      if 0 < abs ∧ buf[abs - 1]? ≠ some newline then
        findFrom buf fuel (abs + sentinel.length)
      else frameAt buf abs

/-- `find_frame_boundary`. -/
def findFrameBoundary (buf : List UInt8) : Option FrameBoundary :=
  findFrom buf (buf.length + 1) 0

/-! ### The search finds the first sentinel at a line start -/

variable {buf line rest : List UInt8} {i : ℕ}

theorem newline_not_mem_sentinel : newline ∉ sentinel := by decide

/-- The sentinel stands at the start of a line. -/
abbrev Marked (buf : List UInt8) (i : ℕ) : Prop :=
  Lines.Marks newline sentinel buf i

/-- The first such line starts here. -/
abbrev First (buf : List UInt8) (i : ℕ) : Prop :=
  Lines.IsFirst newline sentinel buf i

theorem memchrSubslice_eq_some (h : memchrSubslice buf sentinel = some i) :
    sentinel <+: buf.drop i ∧ ∀ j, j < i → ¬ sentinel <+: buf.drop j := by
  unfold memchrSubslice at h
  split_ifs at h
  exact Lines.position_eq_some h

theorem memchrSubslice_eq_none (h : memchrSubslice buf sentinel = none) (i : ℕ) :
    ¬ sentinel <+: buf.drop i := by
  unfold memchrSubslice at h
  split_ifs at h with hshort
  · intro hfound
    have hlen := hfound.length_le
    rw [List.length_drop] at hlen
    rcases hshort with hnil | hshort
    · exact absurd hnil (by decide)
    · omega
  · exact Lines.position_eq_none (by decide) h i

theorem not_marked_inside {abs : ℕ} (h : sentinel <+: buf.drop abs) {j : ℕ} (hlow : abs < j)
    (hhigh : j < abs + sentinel.length) : ¬ Marked buf j := by
  rintro ⟨rfl | hstart, -⟩
  · exact absurd hlow (Nat.not_lt_zero _)
  · obtain ⟨after, hafter⟩ := h
    have hin : j - 1 - abs < sentinel.length := by omega
    have hget : (buf.drop abs)[j - 1 - abs]? = some newline := by
      rw [List.getElem?_drop, Nat.add_sub_of_le (by omega)]
      exact hstart
    rw [← hafter, List.getElem?_append_left hin] at hget
    exact newline_not_mem_sentinel (List.mem_of_getElem? hget)

/-- **The loop goes to the first sentinel at a line start.** -/
theorem findFrom_spec (buf : List UInt8) (fuel searchFrom : ℕ)
    (hfuel : buf.length < searchFrom + fuel) (hbefore : ∀ j, j < searchFrom → ¬ Marked buf j) :
    ((∀ j, ¬ Marked buf j) ∧ findFrom buf fuel searchFrom = none) ∨
      ∃ i, First buf i ∧ findFrom buf fuel searchFrom = frameAt buf i := by
  induction fuel generalizing searchFrom with
  | zero =>
    refine Or.inl ⟨fun j hmarked => ?_, rfl⟩
    have hlen := hmarked.2.length_le
    have hpos : 0 < sentinel.length := by decide
    rw [List.length_drop] at hlen
    exact hbefore j (by omega) hmarked
  | succ fuel ih =>
    rw [findFrom]
    cases hfound : memchrSubslice (buf.drop searchFrom) sentinel with
    | none =>
      refine Or.inl ⟨fun j hmarked => ?_, rfl⟩
      by_cases hj : j < searchFrom
      · exact hbefore j hj hmarked
      · have hnot := memchrSubslice_eq_none hfound (j - searchFrom)
        rw [List.drop_drop, Nat.add_sub_of_le (by omega)] at hnot
        exact hnot hmarked.2
    | some rel =>
      obtain ⟨hhere, hnone⟩ := memchrSubslice_eq_some hfound
      rw [List.drop_drop] at hhere
      have hskipped : ∀ j, j < searchFrom + rel → ¬ Marked buf j := by
        intro j hj hmarked
        by_cases hjs : j < searchFrom
        · exact hbefore j hjs hmarked
        · have hnot := hnone (j - searchFrom) (by omega)
          rw [List.drop_drop, Nat.add_sub_of_le (by omega)] at hnot
          exact hnot hmarked.2
      dsimp only
      split_ifs with hinside
      · have hpos : 0 < sentinel.length := by decide
        refine ih _ (by omega) fun j hj hmarked => ?_
        rcases Nat.lt_trichotomy j (searchFrom + rel) with hlt | rfl | hgt
        · exact hskipped j hlt hmarked
        · rcases hmarked.1 with hzero | hstart
          · omega
          · exact hinside.2 hstart
        · exact not_marked_inside hhere hgt hj hmarked
      · refine Or.inr ⟨searchFrom + rel, ⟨⟨?_, hhere⟩, hskipped⟩, rfl⟩
        by_cases hzero : searchFrom + rel = 0
        · exact Or.inl hzero
        · exact Or.inr (by_contra fun hstart => hinside ⟨by omega, hstart⟩)

theorem findFrameBoundary_of_none (h : ∀ j, ¬ Marked buf j) : findFrameBoundary buf = none := by
  rcases findFrom_spec buf (buf.length + 1) 0 (by omega)
    (fun j hj => absurd hj (Nat.not_lt_zero j)) with ⟨-, hnone⟩ | ⟨i, hi, -⟩
  · exact hnone
  · exact absurd hi.1 (h i)

theorem findFrameBoundary_of_first (h : First buf i) : findFrameBoundary buf = frameAt buf i := by
  rcases findFrom_spec buf (buf.length + 1) 0 (by omega)
    (fun j hj => absurd hj (Nat.not_lt_zero j)) with ⟨hnone, -⟩ | ⟨j, hj, hfound⟩
  · exact absurd h.1 (hnone i)
  · rwa [hj.unique h] at hfound

/-! ### Line by line -/

/-- A boundary further on, after so many bytes. -/
def FrameBoundary.shift (n : ℕ) (b : FrameBoundary) : FrameBoundary :=
  { b with bodyEnd := n + b.bodyEnd, frameEnd := n + b.frameEnd }

theorem findIdx?_newline (hline : newline ∉ line) :
    (line ++ newline :: rest).findIdx? (· == newline) = some line.length := by
  have hnone : line.findIdx? (· == newline) = none := by
    rw [List.findIdx?_eq_none_iff]
    intro b hb
    exact beq_eq_false_iff_ne.mpr fun h => hline (h ▸ hb)
  rw [List.findIdx?_append, hnone, List.findIdx?_cons, if_pos (beq_self_eq_true _)]
  exact congrArg some (Nat.zero_add _)

theorem findFrameBoundary_of_not_mem (h : newline ∉ buf) : findFrameBoundary buf = none := by
  by_cases hfront : sentinel <+: buf
  · rw [findFrameBoundary_of_first (Lines.isFirst_zero hfront), frameAt]
    have hnone : (buf.drop (0 + sentinel.length)).findIdx? (· == newline) = none := by
      rw [List.findIdx?_eq_none_iff]
      intro b hb
      exact beq_eq_false_iff_ne.mpr fun hnl => h (hnl ▸ List.mem_of_mem_drop hb)
    rw [hnone]
  · exact findFrameBoundary_of_none fun j hmarked =>
      hfront ((Lines.marks_of_not_mem h).mp hmarked).2

/-- **The first line is the end of a frame, or the frame goes on after it.** -/
theorem findFrameBoundary_line (rest : List UInt8) (hline : newline ∉ line) :
    findFrameBoundary (line ++ newline :: rest)
      = if sentinel <+: line then
          some ⟨0, line.length + 1, tagOf (line.drop sentinel.length)⟩
        else (findFrameBoundary rest).map (.shift (line.length + 1)) := by
  split_ifs with hfront
  · have hlen := hfront.length_le
    have hdrop : (line ++ newline :: rest).drop (0 + sentinel.length)
        = line.drop sentinel.length ++ newline :: rest := by
      rw [Nat.zero_add, List.drop_append_of_le_length hlen]
    have htag : newline ∉ line.drop sentinel.length := fun h => hline (List.mem_of_mem_drop h)
    rw [findFrameBoundary_of_first
      (Lines.isFirst_zero ((Lines.prefix_line newline_not_mem_sentinel).mpr hfront)),
        frameAt, hdrop,
      findIdx?_newline htag]
    dsimp only
    rw [List.take_left, List.length_drop, Nat.zero_add, Nat.add_sub_of_le hlen]
  · by_cases hmarked : ∃ j, Marked rest j
    · obtain ⟨j, hj⟩ : ∃ j, First rest j := by
        classical
        exact ⟨Nat.find hmarked, Nat.find_spec hmarked, fun _ => Nat.find_min hmarked⟩
      have hshifted := (Lines.isFirst_line newline_not_mem_sentinel hline hfront).mpr ⟨j, rfl, hj⟩
      have hdrop : (line ++ newline :: rest).drop (line.length + 1 + j + sentinel.length)
          = rest.drop (j + sentinel.length) := by
        have hsum : line.length + 1 + j + sentinel.length
            = line.length + ((j + sentinel.length) + 1) := by omega
        rw [hsum, List.drop_length_add_append, List.drop_succ_cons]
      rw [findFrameBoundary_of_first hshifted, findFrameBoundary_of_first hj, frameAt, frameAt,
        hdrop]
      cases (rest.drop (j + sentinel.length)).findIdx? (· == newline) with
      | none => rfl
      | some nlRel =>
        have hend : line.length + 1 + j + sentinel.length + nlRel + 1
            = line.length + 1 + (j + sentinel.length + nlRel + 1) := by omega
        dsimp only [Option.map_some, FrameBoundary.shift]
        rw [hend]
    · rw [findFrameBoundary_of_none fun j hj => hmarked ⟨j, hj⟩]
      refine findFrameBoundary_of_none fun j hj => ?_
      rcases (Lines.marks_line newline_not_mem_sentinel hline).mp hj with ⟨-, h⟩ | ⟨k, -, hk⟩
      · exact hfront h
      · exact hmarked ⟨k, hk⟩

/-- **Bytes that arrive later do not change what is found.** -/
theorem findFrameBoundary_append {b : FrameBoundary} (more : List UInt8)
    (h : findFrameBoundary buf = some b) :
    b.frameEnd ≤ buf.length ∧ b.bodyEnd < b.frameEnd ∧
      findFrameBoundary (buf ++ more) = some b := by
  induction buf using Lines.induction newline generalizing b with
  | last buf hbuf =>
    rw [findFrameBoundary_of_not_mem hbuf] at h
    cases h
  | line line rest hline ih =>
    have hlen : (line ++ newline :: rest).length = line.length + 1 + rest.length := by
      rw [List.length_append, List.length_cons]
      omega
    rw [findFrameBoundary_line rest hline] at h
    rw [hlen, List.append_assoc, List.cons_append, findFrameBoundary_line (rest ++ more) hline]
    split_ifs at h ⊢ with hfront
    · obtain rfl := Option.some.inj h
      exact ⟨Nat.le_add_right _ _, Nat.succ_pos _, rfl⟩
    · obtain ⟨b', hb', rfl⟩ := Option.map_eq_some_iff.mp h
      obtain ⟨hle, hbody, hmore⟩ := ih hb'
      refine ⟨Nat.add_le_add_left hle _, Nat.add_lt_add_left hbody _, ?_⟩
      rw [hmore]
      rfl

/-! ### The reader -/

/-- The frame that is taken out of the buffer. -/
def takeFrame (buf : List UInt8) : Option (List TelemetryFrame × List UInt8) :=
  (findFrameBoundary buf).map fun boundary =>
    ([⟨boundary.tag, fromUtf8Lossy (buf.take boundary.bodyEnd)⟩], buf.drop boundary.frameEnd)

/-- The inner loop of the reader, `while let Some(boundary) = find_frame_boundary(&buf)`. -/
def framing : Incremental UInt8 TelemetryFrame where
  next := takeFrame
  shorter := by
    intro buf rest frames h
    obtain ⟨boundary, hfound, heq⟩ := Option.map_eq_some_iff.mp h
    obtain ⟨hle, hbody, -⟩ := findFrameBoundary_append [] hfound
    obtain ⟨-, rfl⟩ := Prod.mk.inj heq
    rw [List.length_drop]
    omega
  stable := by
    intro buf rest frames more h
    obtain ⟨boundary, hfound, heq⟩ := Option.map_eq_some_iff.mp h
    obtain ⟨hle, hbody, hmore⟩ := findFrameBoundary_append more hfound
    obtain ⟨rfl, rfl⟩ := Prod.mk.inj heq
    rw [takeFrame, hmore, Option.map_some, List.take_append_of_le_length (by omega),
      List.drop_append_of_le_length hle]

/-- `ChannelMsg`, as far as the reader tells the messages apart. -/
inductive ChannelMsg
  | data (bytes : List UInt8)
  | extendedData (bytes : List UInt8)
  | eof
  | exitStatus (status : ℕ)
  | exitSignal
  | other
  deriving DecidableEq

/-- The reader task of `TelemetryStream::open`: the frames that it sends, with `buf` in its
buffer. -/
def readerLoop (buf : List UInt8) : List ChannelMsg → List TelemetryFrame
  | [] => []
  | .data bytes :: messages =>
    (framing.decode (buf ++ bytes)).1
      ++ readerLoop (framing.decode (buf ++ bytes)).2 messages
  | .extendedData _ :: messages => readerLoop buf messages
  | .other :: messages => readerLoop buf messages
  | .eof :: _ | .exitStatus _ :: _ | .exitSignal :: _ => []

/-! ### The frames of a stream -/

/-- The stream that the messages carry to the reader. -/
def streamOf : List ChannelMsg → List UInt8
  | [] => []
  | .data bytes :: messages => bytes ++ streamOf messages
  | .extendedData _ :: messages | .other :: messages => streamOf messages
  | .eof :: _ | .exitStatus _ :: _ | .exitSignal :: _ => []

/-- The frames of some lines, with `body` before them: a line that starts with the sentinel ends
a frame, and any other line belongs to a body. -/
def framesOfLines (body : List UInt8) : List (List UInt8) → List TelemetryFrame
  | [] => []
  | line :: lines =>
    if sentinel <+: line then
      ⟨tagOf (line.drop sentinel.length), fromUtf8Lossy body⟩ :: framesOfLines [] lines
    else framesOfLines (body ++ (line ++ [newline])) lines

/-- The frames of a whole stream, cut at its sentinel lines. -/
def framesOf (stream : List UInt8) : List TelemetryFrame :=
  framesOfLines [] (Lines.complete newline stream)

theorem framesOfLines_of_none (body : List UInt8) (h : findFrameBoundary buf = none) :
    framesOfLines body (Lines.complete newline buf) = [] := by
  induction buf using Lines.induction newline generalizing body with
  | last buf hbuf =>
    rw [Lines.complete_of_not_mem hbuf]
    rfl
  | line line rest hline ih =>
    rw [findFrameBoundary_line rest hline] at h
    split_ifs at h with hfront
    rw [Lines.complete_line hline, framesOfLines, if_neg hfront]
    exact ih _ (Option.map_eq_none_iff.mp h)

theorem framesOfLines_of_some (body : List UInt8) {b : FrameBoundary}
    (h : findFrameBoundary buf = some b) :
    framesOfLines body (Lines.complete newline buf)
      = ⟨b.tag, fromUtf8Lossy (body ++ buf.take b.bodyEnd)⟩ :: framesOf (buf.drop b.frameEnd) := by
  induction buf using Lines.induction newline generalizing body b with
  | last buf hbuf =>
    rw [findFrameBoundary_of_not_mem hbuf] at h
    cases h
  | line line rest hline ih =>
    rw [findFrameBoundary_line rest hline] at h
    rw [Lines.complete_line hline, framesOfLines]
    split_ifs at h ⊢ with hfront
    · obtain rfl := Option.some.inj h
      dsimp only
      rw [List.take_zero, List.append_nil, List.drop_length_add_append]
      rfl
    · obtain ⟨b', hb', rfl⟩ := Option.map_eq_some_iff.mp h
      have hsplit : line ++ newline :: rest = (line ++ [newline]) ++ rest := by
        rw [List.append_assoc, List.singleton_append]
      have hlen : line.length + 1 = (line ++ [newline]).length := by
        rw [List.length_append, List.length_singleton]
      rw [ih _ hb', FrameBoundary.shift, hsplit, hlen]
      dsimp only
      rw [List.take_length_add_append, List.drop_length_add_append, List.append_assoc]

/-- **The frames that are taken out of a buffer are the frames of the buffer.** -/
theorem framing_decode (buf : List UInt8) : (framing.decode buf).1 = framesOf buf := by
  induction buf using framing.decode_induction with
  | none buf h =>
    rw [framing.decode_none h, framesOf, framesOfLines_of_none [] (Option.map_eq_none_iff.mp h)]
  | some buf frames rest h ih =>
    rw [framing.decode_some h]
    obtain ⟨boundary, hfound, heq⟩ := Option.map_eq_some_iff.mp h
    obtain ⟨rfl, rfl⟩ := Prod.mk.inj heq
    rw [ih, framesOf, framesOf, framesOfLines_of_some [] hfound]
    rfl

/-- What the reader sends after what it has already read. -/
theorem readerLoop_decode (before : List UInt8) (messages : List ChannelMsg) :
    (framing.decode before).1 ++ readerLoop (framing.decode before).2 messages
      = (framing.decode (before ++ streamOf messages)).1 := by
  induction messages generalizing before with
  | nil => rw [readerLoop, streamOf, List.append_nil, List.append_nil]
  | cons message messages ih =>
    cases message with
    | data bytes =>
      have hstep := ih (before ++ bytes)
      rw [framing.decode_append before bytes] at hstep
      rw [readerLoop, streamOf, ← List.append_assoc before, ← hstep, List.append_assoc]
    | extendedData bytes => exact ih before
    | other => exact ih before
    | eof => rw [readerLoop, streamOf, List.append_nil, List.append_nil]
    | exitStatus status => rw [readerLoop, streamOf, List.append_nil, List.append_nil]
    | exitSignal => rw [readerLoop, streamOf, List.append_nil, List.append_nil]

/-- **The frames are those of the whole stream**, however it is cut into messages, and whatever
stands between them: each complete line that starts with the sentinel ends a frame, whose body is
everything since the frame before. -/
theorem readerLoop_eq_framesOf (messages : List ChannelMsg) :
    readerLoop [] messages = framesOf (streamOf messages) := by
  have hread := readerLoop_decode [] messages
  rwa [framing.decode_none (by decide), List.nil_append, List.nil_append, framing_decode] at hread

/-- The sentinel inside a line and a line end of two bytes. -/
example : (framesOf (Str.ofString "a__HELM_TM_END__:x
__HELM_TM_END__: disk
rest").bytes).map
    (fun frame => (frame.tag, frame.body.bytes))
      = [("disk", (Str.ofString "a__HELM_TM_END__:x
").bytes)] := by decide +kernel

end TelemetryFraming
end Remote
end HelmSsh
