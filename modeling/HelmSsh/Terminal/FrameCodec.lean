/-
# Terminal frames: the encoder in Rust, the decoder in TypeScript

`src-tauri/src/remote/terminal_bytes.rs` puts a header byte before the bytes of a
terminal output and, as `send_frame` hands the frame to the channel, marks in it
whether the bytes have a carriage return that no line feed follows;
`decodeTerminalFrame` (`src/lib/terminalFrame.ts`) reads the header in the front
end.

| bits of the header | meaning |
| --- | --- |
| `0x03` | the kind: output, error, system, closed |
| `0x04` | the bytes have a bare carriage return |
| `0x80` | the bit above is set by a scan |

The scan of the bytes is that of `HelmSsh.Terminal.VectorScan`, whatever the processor.
A header without `0x80` is read as well, with no answer for
the carriage return: the decoder accepts exactly the frames of `Decoded.frame`
(`decodeTerminalFrame_ok`), of which the Rust side emits those that are scanned.
-/

import HelmSsh.Terminal.Output
import HelmSsh.Terminal.VectorScan

namespace HelmSsh
namespace Terminal

open VectorScan (Cpu hasBareCrOn hasBareCrOn_iff)

/-! ### The frame -/

/-- `FRAME_METADATA`. -/
def frameMetadata : UInt8 := 0x80

/-- `FRAME_BARE_CR`. -/
def frameBareCr : UInt8 := 0x04

/-- The kind of an output as `PendingTerminalOutput::new` writes it. -/
def OutputKind.code : OutputKind → UInt8
  | .output => 0
  | .error => 1
  | .system => 2

/-- `new_frame`. -/
def newFrame (kind : UInt8) (bytes : List UInt8) : List UInt8 :=
  kind :: bytes

/-- `annotate_frame`: the header keeps its kind and is marked with the result of the
scan.  The source indexes the frame, which is never empty here. -/
def annotateFrame (cpu : Cpu) : List UInt8 → List UInt8
  | [] => []
  | header :: body =>
    let bareCr := hasBareCrOn cpu body
    ((header &&& 3) ||| frameMetadata ||| (if bareCr then frameBareCr else 0)) :: body

/-- The frame that `emit_terminal_closed` sends. -/
def closedFrame : List UInt8 := [3]

/-- The kinds that `decodeTerminalFrame` tells apart. -/
inductive FrameKind where
  | output
  | error
  | system
  | closed
  deriving DecidableEq

/-- The kind that an output is decoded to. -/
def OutputKind.frameKind : OutputKind → FrameKind
  | .output => .output
  | .error => .error
  | .system => .system

/-- What `decodeTerminalFrame` returns. -/
structure Decoded where
  kind : FrameKind
  bytes : List UInt8
  hasBareCarriageReturn : Option Bool
  deriving DecidableEq

/-- The entry of `["output", "error", "system", "closed"]` at `header & 3`. -/
def kindOf (header : UInt8) : FrameKind :=
  match (header &&& 3).toNat with
  | 0 => .output
  | 1 => .error
  | 2 => .system
  | _ => .closed

/-- The field `hasBareCarriageReturn` of the result: left open by a header that is not
marked as scanned. -/
def answerOf (header : UInt8) : Option Bool :=
  if header &&& frameMetadata ≠ 0 then some (header &&& 4 != 0) else none

/-- `decodeTerminalFrame`.  The header of an empty array is never looked at. -/
def decodeTerminalFrame : List UInt8 → Except String Decoded
  | [] => .error "终端二进制帧无效"
  | header :: body =>
    let frame := header :: body
    if frame.length > 65537 ∨ header &&& ~~~0x87 ≠ 0 ∨
        (header &&& frameMetadata = 0 ∧ header > 3) then
      .error "终端二进制帧无效"
    else
      let kind := kindOf header
      if kind = .closed ∧ (frame.length ≠ 1 ∨ header ≠ 3) then
        .error "终端关闭帧无效"
      else
        .ok {
          kind, bytes := body
          hasBareCarriageReturn := answerOf header }

/-! ### What the decoder accepts -/

namespace FrameKind

/-- The low bits of the header. -/
def code : FrameKind → UInt8
  | .output => 0
  | .error => 1
  | .system => 2
  | .closed => 3

end FrameKind

/-- The bits of the header that answer for the carriage return. -/
def metadata : Option Bool → UInt8
  | none => 0
  | some bareCr => frameMetadata ||| (if bareCr then frameBareCr else 0)

namespace Decoded

/-- The frame that says what was decoded. -/
def frame (d : Decoded) : List UInt8 :=
  (d.kind.code ||| metadata d.hasBareCarriageReturn) :: d.bytes

/-- The bytes fit into a frame, and the close of the terminal has none and answers
nothing. -/
def Valid (d : Decoded) : Prop :=
  d.bytes.length ≤ terminalFrameBytes ∧
    (d.kind = .closed → d.bytes = [] ∧ d.hasBareCarriageReturn = none)

instance (d : Decoded) : Decidable d.Valid :=
  inferInstanceAs (Decidable (_ ∧ _))

end Decoded

/-- What the decoder asks of a header: nothing outside its fields, and no answer
without the mark of a scan. -/
def HeaderOk (header : UInt8) : Prop :=
  header &&& ~~~0x87 = 0 ∧ (header &&& frameMetadata = 0 → header ≤ 3)

instance (header : UInt8) : Decidable (HeaderOk header) :=
  inferInstanceAs (Decidable (_ ∧ _))

theorem header_eq {header : UInt8} (h : HeaderOk header) :
    (kindOf header).code ||| metadata (answerOf header) = header := by
  have hall : ∀ n : BitVec 8, HeaderOk (.ofBitVec n) →
      (kindOf (.ofBitVec n)).code ||| metadata (answerOf (.ofBitVec n)) = .ofBitVec n := by
    decide +kernel
  exact hall header.toBitVec h

theorem header_read (kind : FrameKind) (answer : Option Bool) :
    HeaderOk (kind.code ||| metadata answer) ∧ kindOf (kind.code ||| metadata answer) = kind ∧
      answerOf (kind.code ||| metadata answer) = answer := by
  rcases answer with _ | _ | _ <;> cases kind <;> decide

/-- A header of the kind `closed` is the header 3 exactly when it answers nothing. -/
theorem header_closed {header : UInt8} (h : HeaderOk header) (hkind : kindOf header = .closed) :
    header = 3 ↔ answerOf header = none := by
  constructor
  · rintro rfl
    rfl
  · intro hanswer
    rw [← header_eq h, hkind, hanswer]
    rfl

theorem decode_cons_ok {header : UInt8} {body : List UInt8} {d : Decoded} :
    decodeTerminalFrame (header :: body) = .ok d ↔
      HeaderOk header ∧ d = ⟨kindOf header, body, answerOf header⟩ ∧ d.Valid := by
  have hlen : (header :: body).length = body.length + 1 := rfl
  have hbound : terminalFrameBytes = 65536 := rfl
  unfold decodeTerminalFrame
  dsimp only
  split_ifs with hbad hclosed
  · refine iff_of_false (fun h => nomatch h) ?_
    rintro ⟨⟨hbits, hmark⟩, rfl, hsize, -⟩
    rcases hbad with h | h | ⟨h, hgt⟩
    · dsimp only at hsize
      omega
    · exact h hbits
    · exact absurd (hmark h) (UInt8.not_le.mpr hgt)
  · refine iff_of_false (fun h => nomatch h) ?_
    rintro ⟨hheader, rfl, -, hnone⟩
    obtain ⟨hbody, hanswer⟩ := hnone hclosed.1
    dsimp only at hbody hanswer
    rcases hclosed.2 with h | h
    · rw [hbody] at h
      exact h rfl
    · exact h ((header_closed hheader hclosed.1).mpr hanswer)
  · have hheader : HeaderOk header := by
      refine ⟨by_contra fun h => hbad (.inr (.inl h)), fun hmark => ?_⟩
      exact UInt8.not_lt.mp fun hgt => hbad (.inr (.inr ⟨hmark, hgt⟩))
    have hvalid : (⟨kindOf header, body, answerOf header⟩ : Decoded).Valid := by
      refine ⟨?_, fun hkind => ?_⟩
      · have : ¬ (header :: body).length > 65537 := fun h => hbad (.inl h)
        change body.length ≤ terminalFrameBytes
        omega
      · have hone : (header :: body).length = 1 := by_contra fun h => hclosed ⟨hkind, .inl h⟩
        have hthree : header = 3 := by_contra fun h => hclosed ⟨hkind, .inr h⟩
        have hbody : body = [] := List.length_eq_zero_iff.mp (by omega)
        exact ⟨hbody, (header_closed hheader hkind).mp hthree⟩
    constructor
    · intro h
      obtain rfl := Except.ok.inj h
      exact ⟨hheader, rfl, hvalid⟩
    · rintro ⟨-, rfl, -⟩
      rfl

/-- **The decoder accepts exactly the frames of valid decodings**, and reads back from
each the decoding it is the frame of. -/
theorem decodeTerminalFrame_ok {frame : List UInt8} {d : Decoded} :
    decodeTerminalFrame frame = .ok d ↔ d.Valid ∧ d.frame = frame := by
  cases frame with
  | nil =>
    refine iff_of_false (fun h => nomatch h) ?_
    rintro ⟨-, h⟩
    exact absurd h (List.cons_ne_nil _ _)
  | cons header body =>
    rw [decode_cons_ok]
    constructor
    · rintro ⟨hheader, rfl, hvalid⟩
      refine ⟨hvalid, ?_⟩
      rw [Decoded.frame, header_eq hheader]
    · rintro ⟨hvalid, hframe⟩
      obtain ⟨rfl, rfl⟩ := List.cons.inj hframe
      obtain ⟨hheader, hkind, hanswer⟩ := header_read d.kind d.hasBareCarriageReturn
      refine ⟨hheader, ?_, hvalid⟩
      rw [hkind, hanswer]

/-- What the front end is told of an output: its kind, its bytes, and whether they have
a bare carriage return. -/
def PendingOutput.decoded (cpu : Cpu) (o : PendingOutput) : Decoded where
  kind := o.kind.frameKind
  bytes := o.payload
  hasBareCarriageReturn := some (hasBareCrOn cpu o.payload)

/-- What goes over the wire is the frame of what the front end is to be told. -/
theorem annotateFrame_newFrame (cpu : Cpu) (o : PendingOutput) :
    annotateFrame cpu (newFrame o.kind.code o.payload) = (o.decoded cpu).frame := by
  have hcode : ∀ (kind : OutputKind) (bareCr : Bool),
      (kind.code &&& 3) ||| frameMetadata ||| (if bareCr then frameBareCr else 0) =
        kind.frameKind.code ||| metadata (some bareCr) := by
    intro kind bareCr
    cases kind <;> cases bareCr <;> decide
  rw [newFrame, annotateFrame, Decoded.frame, PendingOutput.decoded]
  dsimp only
  rw [hcode]

theorem PendingOutput.decoded_valid {cpu : Cpu} {o : PendingOutput} (h : o.Sendable) :
    (o.decoded cpu).Valid := by
  refine ⟨h.2, fun hkind => ?_⟩
  have : ∀ kind : OutputKind, kind.frameKind ≠ .closed := by
    intro kind
    cases kind <;> decide
  exact absurd hkind (this o.kind)

/-- **The two sides of the codec agree.**  A frame that `send_frame` lets through is read
back as its kind and its bytes, with the question for bare carriage returns answered as
the bytes say; the single byte of the close is read as the close, and nothing else is;
and an array is accepted only as the frame of a valid decoding, so that of the arrays
that Rust never sends those are read whose header says no more than it knows: a kind
without a scan, no bytes, or an answer that was not looked up. -/
theorem codec_agrees :
    (∀ (cpu : Cpu) (o : PendingOutput), o.Sendable →
      ∃ d, decodeTerminalFrame (annotateFrame cpu (newFrame o.kind.code o.payload)) = .ok d ∧
        d.kind = o.kind.frameKind ∧ d.bytes = o.payload ∧
        (d.hasBareCarriageReturn = some true ↔ HasBareCr o.payload) ∧
        d.hasBareCarriageReturn ≠ none) ∧
    (∀ frame, (∃ d, decodeTerminalFrame frame = .ok d ∧ d.kind = .closed) ↔ frame = closedFrame) ∧
    (∀ frame d, decodeTerminalFrame frame = .ok d ↔ d.Valid ∧ d.frame = frame) := by
  refine ⟨?_, ?_, fun frame d => decodeTerminalFrame_ok⟩
  · intro cpu o hsend
    refine ⟨o.decoded cpu, ?_, rfl, rfl, ?_, fun h => nomatch h⟩
    · rw [decodeTerminalFrame_ok]
      exact ⟨PendingOutput.decoded_valid hsend, (annotateFrame_newFrame cpu o).symm⟩
    · rw [← hasBareCrOn_iff cpu]
      exact Option.some_inj
  · intro frame
    constructor
    · rintro ⟨⟨kind, bytes, answer⟩, hdecode, rfl⟩
      obtain ⟨⟨-, hnone⟩, rfl⟩ := decodeTerminalFrame_ok.mp hdecode
      obtain ⟨rfl, rfl⟩ := hnone rfl
      rfl
    · rintro rfl
      exact ⟨⟨.closed, [], none⟩, by decide, rfl⟩

/-- An error output with a bare carriage return, sent and read back. -/
theorem codec_agrees_bare_cr :
    (PendingOutput.mk .error [65, 13, 66]).Sendable ∧
    ∃ d, decodeTerminalFrame (annotateFrame (.x86 true true) (newFrame 1 [65, 13, 66])) = .ok d ∧
      d.kind = .error ∧ d.bytes = [65, 13, 66] ∧ d.hasBareCarriageReturn = some true := by
  have hsend : (PendingOutput.mk .error [65, 13, 66]).Sendable := by decide
  obtain ⟨d, hdecode, hkind, hbytes, hbare, -⟩ :=
    codec_agrees.1 (.x86 true true) (PendingOutput.mk .error [65, 13, 66]) hsend
  exact ⟨hsend, d, hdecode, hkind, hbytes, hbare.mpr ⟨1, by decide, by decide⟩⟩

/-- An output frame without the mark of a scan, which Rust never sends, is read: the
decoder says that the question for carriage returns is open. -/
theorem unscanned_frame_accepted :
    (∀ (cpu : Cpu) (o : PendingOutput),
      annotateFrame cpu (newFrame o.kind.code o.payload) ≠ [0, 65]) ∧
    [0, 65] ≠ closedFrame ∧
    decodeTerminalFrame [0, 65] = .ok ⟨.output, [65], none⟩ := by
  refine ⟨?_, by decide, by decide⟩
  intro cpu o h
  have hread : decodeTerminalFrame [0, 65] = .ok (o.decoded cpu) := by
    rw [← h, annotateFrame_newFrame, decodeTerminalFrame_ok]
    refine ⟨?_, rfl⟩
    have hpayload : o.payload = [65] := (List.cons.inj h).2
    refine PendingOutput.decoded_valid ?_
    rw [PendingOutput.Sendable, hpayload]
    decide
  have hnone : decodeTerminalFrame [0, 65] = .ok ⟨.output, [65], none⟩ := by decide
  rw [hnone] at hread
  have hanswer := congrArg Decoded.hasBareCarriageReturn (Except.ok.inj hread)
  cases hanswer

end Terminal
end HelmSsh
