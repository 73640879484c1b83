/-
# Terminal output: batches and the start gate

The reader task of a terminal (`src-tauri/src/remote/runtime_terminal.rs`)
collects the bytes of a stream into batches of at most 64 KiB
(`TerminalOutputBatch`), one kind at a time, and passes each batch to the
`TerminalOutputGate` (`src-tauri/src/remote.rs`), which keeps the last 4 MiB of
output until the front end starts the stream.

An output is seen as its *tagged bytes*: each payload byte with the kind of the
stream it came from (`PendingOutput.tagged`).  A batch loses, repeats and
reorders none (`push_tagged`) and its outputs fit into a frame (`push_sendable`).
The gate drops tagged bytes from the front only, and only once more than its
capacity has been offered to it (`pushPending_tagged`).
-/

import HelmSsh.Terminal.FlowControl
import Mathlib.Data.List.Infix

namespace HelmSsh
namespace Terminal

/-! ### Outputs and frames -/

/-- The kinds of payload, by the low bits of the frame header. -/
inductive OutputKind where
  | output
  | error
  | system
  deriving DecidableEq

/-- `PendingTerminalOutput`: a header kind and the payload after it. -/
structure PendingOutput where
  kind : OutputKind
  payload : List UInt8
  deriving DecidableEq

namespace PendingOutput

/-- The length of the source's `data`, which starts with the header byte. -/
def frameLen (o : PendingOutput) : ℕ :=
  o.payload.length + 1

/-- The payload bytes with their kind. -/
def tagged (o : PendingOutput) : List (OutputKind × UInt8) :=
  o.payload.map fun b => (o.kind, b)

/-- The output has a payload that fits into one frame. -/
def Sendable (o : PendingOutput) : Prop :=
  1 ≤ o.payload.length ∧ o.payload.length ≤ terminalFrameBytes

instance (o : PendingOutput) : Decidable o.Sendable :=
  inferInstanceAs (Decidable (_ ∧ _))

@[simp] theorem length_tagged (o : PendingOutput) : o.tagged.length = o.payload.length :=
  List.length_map _

/-- The check of `send_frame` lets exactly the sendable outputs through. -/
theorem checkFrame_ok {o : PendingOutput} :
    FlowControl.checkFrame o.frameLen = .ok () ↔ o.Sendable := by
  unfold FlowControl.checkFrame frameLen Sendable
  split_ifs with h
  · simp only [false_iff]
    omega
  · simp only [true_iff]
    omega

end PendingOutput

/-- A frame that `send_frame` handed to the channel: an output past its length
check. -/
abbrev Frame := { o : PendingOutput // o.Sendable }

/-- Received bytes with their kind. -/
def tag (kind : OutputKind) (data : List UInt8) : List (OutputKind × UInt8) :=
  data.map fun b => (kind, b)

/-- The tagged bytes of a sequence of outputs. -/
def taggedAll (os : List PendingOutput) : List (OutputKind × UInt8) :=
  os.flatMap PendingOutput.tagged

@[simp] theorem taggedAll_nil : taggedAll [] = [] := rfl

@[simp] theorem taggedAll_cons (o : PendingOutput) (os : List PendingOutput) :
    taggedAll (o :: os) = o.tagged ++ taggedAll os :=
  List.flatMap_cons

@[simp] theorem taggedAll_append (os ps : List PendingOutput) :
    taggedAll (os ++ ps) = taggedAll os ++ taggedAll ps :=
  List.flatMap_append

/-! ### The batch of the reader -/

/-- `TERMINAL_BATCH_BYTES`. -/
def terminalBatchBytes : ℕ := 64 * 1024

/-- The first `fuel` chunks of at most `n` elements. -/
def chunksUpTo {β : Type*} (n : ℕ) : ℕ → List β → List (List β)
  | 0, _ => []
  | _ + 1, [] => []
  | fuel + 1, x :: xs => (x :: xs).take n :: chunksUpTo n fuel ((x :: xs).drop n)

/-- `slice::chunks(n)`: consecutive chunks of `n` elements, the last one shorter. -/
def chunks {β : Type*} (n : ℕ) (xs : List β) : List (List β) :=
  chunksUpTo n xs.length xs

/-- `TerminalOutputBatch`: the output being collected. -/
abbrev OutputBatch := Option PendingOutput

namespace OutputBatch

/-- `pending` takes the chunk in, or starts as the chunk. -/
def extend (pending : OutputBatch) (kind : OutputKind) (chunk : List UInt8) : PendingOutput :=
  match pending with
  | some o => { o with payload := o.payload ++ chunk }
  | none => { kind := kind, payload := chunk }

/-- One iteration of the chunk loop of `push`. -/
def pushChunk (kind : OutputKind) (acc : OutputBatch × List PendingOutput)
    (chunk : List UInt8) : OutputBatch × List PendingOutput :=
  let o := extend acc.1 kind chunk
  if o.payload.length ≥ terminalBatchBytes then (none, acc.2 ++ [o]) else (some o, acc.2)

/-- The pending output is of another kind, or full with the new data. -/
def mustFlush (pending : OutputBatch) (kind : OutputKind) (data : List UInt8) : Bool :=
  pending.any fun o => o.kind ≠ kind ∨ o.payload.length + data.length > terminalBatchBytes

/-- `TerminalOutputBatch::push`: the new pending output and the outputs ready. -/
def push (pending : OutputBatch) (kind : OutputKind) (data : List UInt8) :
    OutputBatch × List PendingOutput :=
  let start : OutputBatch × List PendingOutput :=
    if mustFlush pending kind data then (none, pending.toList) else (pending, [])
  (chunks terminalBatchBytes data).foldl (pushChunk kind) start

/-- What the batch is between two calls: empty, or an output short of a full
batch. -/
def Open (pending : OutputBatch) : Prop :=
  ∀ o ∈ pending, 1 ≤ o.payload.length ∧ o.payload.length < terminalBatchBytes

/-- The pending output takes `len` more bytes of `kind` without overflow. -/
def Fits (pending : OutputBatch) (kind : OutputKind) (len : ℕ) : Prop :=
  ∀ o ∈ pending, o.kind = kind ∧ o.payload.length + len ≤ terminalBatchBytes

theorem open_none : Open none :=
  fun o ho => (Option.not_mem_none o ho).elim

theorem fits_none (kind : OutputKind) (len : ℕ) : Fits none kind len :=
  fun o ho => (Option.not_mem_none o ho).elim

/-- The tagged bytes of a batch. -/
def tagged (pending : OutputBatch) : List (OutputKind × UInt8) :=
  taggedAll pending.toList

@[simp] theorem tagged_none : tagged none = [] := rfl

@[simp] theorem tagged_some (o : PendingOutput) : tagged (some o) = o.tagged :=
  List.append_nil _

variable {pending : OutputBatch}

theorem Open.sendable (h : Open pending) :
    ∀ o ∈ pending.toList, o.Sendable := by
  intro o ho
  obtain ⟨hpos, hlt⟩ := h o (Option.mem_toList.mp ho)
  exact ⟨hpos, hlt.le⟩

/-- Extending keeps the bytes in order, when the kinds agree. -/
theorem tagged_extend {kind : OutputKind} {chunk : List UInt8}
    (h : Fits pending kind chunk.length) :
    (extend pending kind chunk).tagged = tagged pending ++ tag kind chunk := by
  cases pending with
  | none => rfl
  | some o =>
    obtain ⟨rfl, -⟩ := h o rfl
    rw [tagged_some]
    exact List.map_append

/-- The extended output is longer than the chunk and not longer than a batch. -/
theorem length_extend {kind : OutputKind} {chunk : List UInt8}
    (h : Fits pending kind chunk.length) (hlen : chunk.length ≤ terminalBatchBytes) :
    chunk.length ≤ (extend pending kind chunk).payload.length ∧
      (extend pending kind chunk).payload.length ≤ terminalBatchBytes ∧
      (extend pending kind chunk).kind = kind := by
  cases pending with
  | none => exact ⟨le_rfl, hlen, rfl⟩
  | some o =>
    obtain ⟨hkind, hfit⟩ := h o rfl
    simp only [extend, List.length_append]
    exact ⟨by omega, hfit, hkind⟩

/-- What the chunk loop keeps: the tagged bytes in order, and outputs that can be
sent. -/
structure Loop (kind : OutputKind) (acc res : OutputBatch × List PendingOutput)
    (data : List UInt8) : Prop where
  tagged : taggedAll res.2 ++ tagged res.1 = taggedAll acc.2 ++ tagged acc.1 ++ tag kind data
  opened : Open res.1
  sendable : (∀ o ∈ acc.2, o.Sendable) → ∀ o ∈ res.2, o.Sendable

theorem pushChunk_loop {kind : OutputKind} {acc : OutputBatch × List PendingOutput}
    {chunk : List UInt8} (hfit : Fits acc.1 kind chunk.length) (hpos : 1 ≤ chunk.length)
    (hlen : chunk.length ≤ terminalBatchBytes) :
    Loop kind acc (pushChunk kind acc chunk) chunk ∧
      ∀ o ∈ (pushChunk kind acc chunk).1, o.kind = kind ∧ chunk.length < terminalBatchBytes := by
  obtain ⟨hge, hle, hkind⟩ := length_extend hfit hlen
  have htag := tagged_extend hfit
  unfold pushChunk
  simp only
  split_ifs with hfull
  · refine ⟨⟨?_, open_none, fun hacc o ho => ?_⟩, fun o ho => (Option.not_mem_none o ho).elim⟩
    · simp [htag]
    · rcases List.mem_append.mp ho with ho | ho
      · exact hacc o ho
      · obtain rfl := List.mem_singleton.mp ho
        exact ⟨by omega, hle⟩
  · refine ⟨⟨?_, fun o ho => ?_, fun hacc => hacc⟩, fun o ho => ?_⟩
    · simp [htag]
    · obtain rfl := Option.mem_some.mp ho
      omega
    · obtain rfl := Option.mem_some.mp ho
      exact ⟨hkind, by omega⟩

/-- **The chunk loop** over data that the pending output has room for. -/
theorem foldl_pushChunk_loop (kind : OutputKind) (fuel : ℕ) (data : List UInt8)
    (acc : OutputBatch × List PendingOutput) (hfuel : data.length ≤ fuel)
    (hopen : Open acc.1) (hfit : Fits acc.1 kind data.length) :
    Loop kind acc ((chunksUpTo terminalBatchBytes fuel data).foldl (pushChunk kind) acc) data := by
  have hbatch : 0 < terminalBatchBytes := by decide
  induction fuel generalizing data acc with
  | zero =>
    obtain rfl := List.length_eq_zero_iff.mp (Nat.le_zero.mp hfuel)
    exact ⟨by simp [chunksUpTo, tag], hopen, fun hacc => hacc⟩
  | succ fuel ih =>
    cases data with
    | nil => exact ⟨by simp [chunksUpTo, tag], hopen, fun hacc => hacc⟩
    | cons x xs =>
      set chunk := (x :: xs).take terminalBatchBytes with hchunk
      set rest := (x :: xs).drop terminalBatchBytes with hrest
      have hclen : chunk.length = min terminalBatchBytes (x :: xs).length := List.length_take
      have hrlen : rest.length = (x :: xs).length - terminalBatchBytes := List.length_drop
      have hxs : (x :: xs).length = xs.length + 1 := rfl
      have hfit' : Fits acc.1 kind chunk.length := fun o ho =>
        ⟨(hfit o ho).1, by have := (hfit o ho).2; omega⟩
      obtain ⟨hloop, hleft⟩ := pushChunk_loop hfit' (by omega) (by omega)
      have hnext : Fits (pushChunk kind acc chunk).1 kind rest.length := fun o ho => by
        have hlt := (hleft o ho).2
        have hopen' := hloop.opened o ho
        exact ⟨(hleft o ho).1, by omega⟩
      have htail := ih rest (pushChunk kind acc chunk) (by omega) hloop.opened hnext
      refine ⟨?_, htail.opened, fun hacc => htail.sendable (hloop.sendable hacc)⟩
      rw [chunksUpTo, List.foldl_cons, htail.tagged, hloop.tagged, List.append_assoc, tag, tag,
        ← List.map_append, hchunk, hrest, List.take_append_drop]
      rfl

theorem fits_of_not_mustFlush {kind : OutputKind} {data : List UInt8}
    (h : mustFlush pending kind data = false) : Fits pending kind data.length := by
  intro o ho
  obtain rfl := Option.mem_def.mp ho
  simp only [mustFlush, Option.any_some, decide_eq_false_iff_not, not_or, not_not] at h
  exact ⟨h.1, by omega⟩

/-- `push` is the chunk loop from the batch, flushed first where it must be. -/
theorem push_loop (kind : OutputKind) (data : List UInt8)
    (hopen : Open pending) : Loop kind (pending, []) (push pending kind data) data := by
  unfold push
  simp only
  split_ifs with hflush
  · have hloop := foldl_pushChunk_loop kind data.length data (none, pending.toList) le_rfl
      open_none (fits_none kind data.length)
    refine ⟨?_, hloop.opened, fun _ => hloop.sendable hopen.sendable⟩
    rw [chunks, hloop.tagged]
    simp [tagged]
  · exact foldl_pushChunk_loop kind data.length data (pending, []) le_rfl hopen
      (fits_of_not_mustFlush (by simpa using hflush))

/-- **A batch is lossless and ordered**: the outputs ready and the batch left
are the old batch and the data, tagged byte for tagged byte. -/
theorem push_tagged (kind : OutputKind) (data : List UInt8) (hopen : Open pending) :
    taggedAll (push pending kind data).2 ++ tagged (push pending kind data).1 =
      tagged pending ++ tag kind data := by
  simpa using (push_loop kind data hopen).tagged

/-- **Each output of a batch fits into a frame.** -/
theorem push_sendable (kind : OutputKind) (data : List UInt8)
    (hopen : Open pending) : ∀ o ∈ (push pending kind data).2, o.Sendable :=
  (push_loop kind data hopen).sendable fun _ ho => (List.not_mem_nil ho).elim

theorem push_open (kind : OutputKind) (data : List UInt8)
    (hopen : Open pending) : Open (push pending kind data).1 :=
  (push_loop kind data hopen).opened

end OutputBatch

/-! ### The gate before the start -/

/-- `MAX_TERMINAL_STARTUP_OUTPUT_BYTES`. -/
def maxTerminalStartupOutputBytes : ℕ := 4 * 1024 * 1024

/-- `TerminalOutputGate`.  `channel` says whether a channel is attached. -/
structure OutputGate where
  channel : Bool
  streaming : Bool
  pending : List PendingOutput
  pendingBytes : ℕ
  maxPendingBytes : ℕ
  deriving DecidableEq

namespace OutputGate

/-- `TerminalOutputGate::new`. -/
def new (maxPendingBytes : ℕ) : OutputGate :=
  { channel := false, streaming := false, pending := [], pendingBytes := 0,
    maxPendingBytes := maxPendingBytes }

/-- `TerminalOutputGate::start`: the outputs to replay. -/
def start (g : OutputGate) : OutputGate × List PendingOutput :=
  if g.streaming then (g, [])
  else ({ g with streaming := true, pendingBytes := 0, pending := [] }, g.pending)

theorem start_of_not_streaming {g : OutputGate} (h : g.streaming = false) :
    g.start = ({ g with streaming := true, pendingBytes := 0, pending := [] }, g.pending) := by
  unfold start
  rw [if_neg (by rw [h]; decide)]

/-- The loop of `push_pending`: drop outputs from the front while `need` more
bytes do not fit. -/
def trim (maxBytes need : ℕ) (bytes : ℕ) : List PendingOutput → ℕ × List PendingOutput
  | [] => (bytes, [])
  | o :: pending =>
    if bytes + need > maxBytes then trim maxBytes need (bytes - o.payload.length) pending
    else (bytes, o :: pending)

/-- An output longer than the whole buffer keeps its end. -/
def keepEnd (maxBytes : ℕ) (o : PendingOutput) : PendingOutput :=
  if o.payload.length > maxBytes then
    { o with payload := o.payload.drop (o.payload.length - maxBytes) }
  else o

/-- `TerminalOutputGate::push_pending`. -/
def pushPending (g : OutputGate) (o : PendingOutput) : OutputGate :=
  if g.maxPendingBytes = 0 ∨ o.payload = [] then g
  else
    let o := keepEnd g.maxPendingBytes o
    let r := trim g.maxPendingBytes o.payload.length g.pendingBytes g.pending
    { g with pendingBytes := r.1 + o.payload.length, pending := r.2 ++ [o] }

/-- The byte count of the buffer is right and within the capacity. -/
structure Counted (g : OutputGate) : Prop where
  bytes_eq : g.pendingBytes = (taggedAll g.pending).length
  bytes_le : g.pendingBytes ≤ g.maxPendingBytes

theorem counted_new (maxPendingBytes : ℕ) : (new maxPendingBytes).Counted :=
  ⟨rfl, Nat.zero_le _⟩

/-- The loop drops a front part, whole outputs of it, and stops when the new
bytes fit or nothing is left. -/
theorem trim_spec (maxBytes need : ℕ) {bytes : ℕ} {pending : List PendingOutput}
    (hbytes : bytes = (taggedAll pending).length) :
    ∃ front, pending = front ++ (trim maxBytes need bytes pending).2 ∧
      (trim maxBytes need bytes pending).1 =
        (taggedAll (trim maxBytes need bytes pending).2).length ∧
      ((trim maxBytes need bytes pending).2 = [] ∨
        (trim maxBytes need bytes pending).1 + need ≤ maxBytes) ∧
      (front ≠ [] → maxBytes < bytes + need) := by
  induction pending generalizing bytes with
  | nil => exact ⟨[], rfl, hbytes, .inl rfl, fun h => (h rfl).elim⟩
  | cons o pending ih =>
    rw [taggedAll_cons, List.length_append, PendingOutput.length_tagged] at hbytes
    unfold trim
    split_ifs with hfull
    · obtain ⟨front, hfront, hlen, hstop, -⟩ :=
        ih (show bytes - o.payload.length = (taggedAll pending).length by omega)
      refine ⟨o :: front, ?_, hlen, hstop, fun _ => hfull⟩
      rw [List.cons_append, ← hfront]
    · refine ⟨[], rfl, ?_, .inr (by omega), fun h => (h rfl).elim⟩
      rw [taggedAll_cons, List.length_append, PendingOutput.length_tagged]
      exact hbytes

/-- Keeping the end drops a front part, and nothing of a short output. -/
theorem keepEnd_spec (maxBytes : ℕ) (o : PendingOutput) :
    (keepEnd maxBytes o).payload.length ≤ maxBytes ∧
      ∃ front, o.tagged = front ++ (keepEnd maxBytes o).tagged ∧
        (front ≠ [] → maxBytes < o.payload.length ∧
          (keepEnd maxBytes o).payload.length = maxBytes) := by
  unfold keepEnd
  split_ifs with hlong
  · have hlen : (o.payload.drop (o.payload.length - maxBytes)).length = maxBytes := by
      rw [List.length_drop]
      omega
    refine ⟨hlen.le, tag o.kind (o.payload.take (o.payload.length - maxBytes)), ?_,
      fun _ => ⟨hlong, hlen⟩⟩
    simp only [PendingOutput.tagged, tag]
    rw [← List.map_append, List.take_append_drop]
  · exact ⟨by omega, [], rfl, fun h => (h rfl).elim⟩

@[simp] theorem pushPending_channel (g : OutputGate) (o : PendingOutput) :
    (g.pushPending o).channel = g.channel := by
  unfold pushPending
  split_ifs <;> rfl

@[simp] theorem pushPending_streaming (g : OutputGate) (o : PendingOutput) :
    (g.pushPending o).streaming = g.streaming := by
  unfold pushPending
  split_ifs <;> rfl

@[simp] theorem pushPending_maxPendingBytes (g : OutputGate) (o : PendingOutput) :
    (g.pushPending o).maxPendingBytes = g.maxPendingBytes := by
  unfold pushPending
  split_ifs <;> rfl

/-- The buffer holds whole outputs of those offered, when each fits on its own. -/
theorem mem_pushPending {g : OutputGate} (h : g.Counted) {o p : PendingOutput}
    (hfit : o.payload.length ≤ g.maxPendingBytes) (hp : p ∈ (g.pushPending o).pending) :
    p ∈ g.pending ∨ p = o := by
  unfold pushPending at hp
  split_ifs at hp
  · exact .inl hp
  · have hkeep : keepEnd g.maxPendingBytes o = o := if_neg (by omega)
    obtain ⟨front, hpending, -⟩ := trim_spec g.maxPendingBytes o.payload.length h.bytes_eq
    simp only [hkeep] at hp
    rcases List.mem_append.mp hp with hp | hp
    · rw [hpending]
      exact .inl (List.mem_append_right front hp)
    · exact .inr (List.mem_singleton.mp hp)

/-- `push_pending` keeps the count right. -/
theorem Counted.pushPending {g : OutputGate} (h : g.Counted) (o : PendingOutput) :
    (g.pushPending o).Counted := by
  unfold OutputGate.pushPending
  split_ifs with hskip
  · exact h
  · obtain ⟨hshort, -⟩ := keepEnd_spec g.maxPendingBytes o
    obtain ⟨front, -, hlen, hstop, -⟩ :=
      trim_spec g.maxPendingBytes (keepEnd g.maxPendingBytes o).payload.length h.bytes_eq
    refine ⟨?_, ?_⟩
    · simp [hlen]
    · rcases hstop with hnil | hfits
      · simp only [hlen, hnil, taggedAll_nil, List.length_nil]
        omega
      · exact hfits

/-- **The gate drops from the front**, and only when the buffer and the new output
exceed its capacity. -/
theorem pushPending_tagged {g : OutputGate} (h : g.Counted) (o : PendingOutput) :
    ∃ dropped, taggedAll g.pending ++ o.tagged = dropped ++ taggedAll (g.pushPending o).pending ∧
      (dropped ≠ [] → g.maxPendingBytes < (taggedAll g.pending ++ o.tagged).length) := by
  unfold OutputGate.pushPending
  split_ifs with hskip
  · rcases hskip with hzero | hempty
    · have hnil : taggedAll g.pending = [] := by
        rw [← List.length_eq_zero_iff, ← h.bytes_eq]
        have := h.bytes_le
        omega
      refine ⟨o.tagged, by rw [hnil, List.nil_append, List.append_nil], fun hne => ?_⟩
      rw [hnil, List.nil_append, hzero]
      exact List.length_pos_of_ne_nil hne
    · exact ⟨[], by simp [PendingOutput.tagged, hempty], fun hne => (hne rfl).elim⟩
  · obtain ⟨-, front₁, htag₁, hlong⟩ := keepEnd_spec g.maxPendingBytes o
    obtain ⟨front₂, hpending, hlen, hstop, hfull⟩ :=
      trim_spec g.maxPendingBytes (keepEnd g.maxPendingBytes o).payload.length h.bytes_eq
    simp only
    generalize trim g.maxPendingBytes (keepEnd g.maxPendingBytes o).payload.length
      g.pendingBytes g.pending = r at hpending hlen hstop ⊢
    have htag₂ : taggedAll g.pending = taggedAll front₂ ++ taggedAll r.2 := by
      rw [hpending, taggedAll_append]
    have hbytes := h.bytes_eq
    have hempty : front₁ = [] ∨ taggedAll r.2 = [] := by
      rcases hstop with hnil | hfits
      · exact .inr (by rw [hnil, taggedAll_nil])
      · by_cases hf : front₁ = []
        · exact .inl hf
        · obtain ⟨-, hmax⟩ := hlong hf
          exact .inr (List.length_eq_zero_iff.mp (by omega))
    refine ⟨taggedAll front₂ ++ front₁, ?_, fun hne => ?_⟩
    · rw [htag₂, htag₁, taggedAll_append, taggedAll_cons, taggedAll_nil, List.append_nil]
      rcases hempty with hf | hr
      · rw [hf, List.nil_append, List.append_nil, List.append_assoc]
      · rw [hr, List.append_nil, List.nil_append, List.append_assoc]
    · have hlen₁ := congrArg List.length htag₁
      rw [List.length_append, PendingOutput.length_tagged, PendingOutput.length_tagged] at hlen₁
      rw [List.length_append, PendingOutput.length_tagged, ← hbytes]
      by_cases hf : front₁ = []
      · have := hfull fun hf₂ => hne (by rw [hf, hf₂]; rfl)
        omega
      · have := (hlong hf).1
        omega

end OutputGate

end Terminal
end HelmSsh
