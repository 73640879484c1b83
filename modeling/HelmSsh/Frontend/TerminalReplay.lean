/-
# The replay of the terminals

`src/lib/terminalRegistry.ts`: the entries that each terminal would show again when its view is
mounted anew.  A terminal keeps its newest entries in an array whose front is cut off lazily
(`head`), with a counter of the bytes that they keep alive: the text, and each `ArrayBuffer`
once however many entries look at it, which a map counts.  The terminals are in the order of
their last writes, and the oldest ones go when all of them keep too much.

An entry that alone keeps more than a terminal may keep is not retained, and drops the replay
of its terminal.

* `replay_of_run` — after any writes and clears, the counters are exact, the limits hold, and
  what a terminal keeps is a suffix of what was written to it;
* `Inv.write`, `Inv.write_large` — what a write does to the terminal that it writes to.
-/

import Mathlib.Algebra.GroupWithZero.Nat
import Mathlib.Algebra.Ring.Int.Defs
import Mathlib.Algebra.BigOperators.Group.List.Basic
import Mathlib.Algebra.Order.BigOperators.Group.List
import Mathlib.Data.List.Dedup
import Mathlib.Data.List.Induction
import Mathlib.Data.Int.Order.Basic
import Mathlib.Logic.Function.Basic

namespace HelmSsh
namespace Frontend
namespace TerminalReplay

/-- `TerminalEntry["kind"]`. -/
inductive EntryKind
  | system
  | input
  | output
  | error
  deriving DecidableEq

/-- An `ArrayBuffer`. -/
structure Buffer where
  id : ℕ
  byteLength : ℕ
  deriving DecidableEq

/-- `TerminalEntry`, with the buffer that `dataBytes` looks at. -/
structure TerminalEntry where
  kind : EntryKind
  content : String
  buffer : Option Buffer
  deriving DecidableEq

/-- The UTF-16 code units of a string. -/
def utf16Length (s : String) : ℕ :=
  (s.toList.map fun c => if c.toNat < 0x10000 then 1 else 2).sum

/-- The bytes of the text. -/
def TerminalEntry.textBytes (e : TerminalEntry) : ℕ :=
  utf16Length e.content * 2

/-- `MAX_TERMINAL_REPLAY_BYTES`. -/
def maxTerminalReplayBytes : ℕ := 4 * 1024 * 1024

/-- `MAX_TERMINAL_REPLAY_ENTRIES`. -/
def maxTerminalReplayEntries : ℕ := 4096

/-- `MAX_TOTAL_REPLAY_BYTES`. -/
def maxTotalReplayBytes : ℕ := 16 * 1024 * 1024

/-- `MAX_REPLAY_TERMINALS`. -/
def maxReplayTerminals : ℕ := 32

/-- `terminalEntryReplayBytes`. -/
def terminalEntryReplayBytes (e : TerminalEntry) : ℕ :=
  e.textBytes + (e.buffer.map Buffer.byteLength).getD 0

/-- `TerminalReplayBuffer`. -/
structure Replay where
  entries : List (Option TerminalEntry)
  head : ℕ
  bytes : ℤ
  /-- How many entries look at a buffer. -/
  buffers : Buffer → ℕ

/-- A terminal without entries. -/
def Replay.empty : Replay :=
  { entries := [], head := 0, bytes := 0, buffers := fun _ => 0 }

/-- The entries that are retained. -/
def Replay.live (r : Replay) : List TerminalEntry :=
  r.entries.filterMap id

/-- The entry repeats the last one, which is shown already. -/
def duplicates (last e : TerminalEntry) : Bool :=
  e.buffer.isNone && e.kind ≠ .output && last.kind = e.kind && last.content = e.content

namespace Replay

/-- An entry is retained. -/
def retain (r : Replay) (e : TerminalEntry) : Replay :=
  let r := { r with entries := r.entries ++ [some e], bytes := r.bytes + e.textBytes }
  match e.buffer with
  | none => r
  | some buffer =>
    { r with
      bytes := if r.buffers buffer = 0 then r.bytes + buffer.byteLength else r.bytes
      buffers := Function.update r.buffers buffer (r.buffers buffer + 1) }

/-- The entry is retained unless it repeats the last one. -/
def push (r : Replay) (e : TerminalEntry) : Replay :=
  if r.entries.getLast?.join.any (duplicates · e) then r else r.retain e

/-- The counters without a removed entry. -/
def release (r : Replay) (e : TerminalEntry) : Replay :=
  let r := { r with bytes := r.bytes - e.textBytes }
  match e.buffer with
  | none => r
  | some buffer =>
    let references := r.buffers buffer - 1
    { r with
      bytes := if references = 0 then r.bytes - buffer.byteLength else r.bytes
      buffers := Function.update r.buffers buffer references }

/-- One round of the loop that removes entries. -/
def removeFirst (r : Replay) : Replay :=
  let removed := r.entries[r.head]?.join
  let r := { r with entries := r.entries.set r.head none, head := r.head + 1 }
  match removed with
  | none => r
  | some e => r.release e

/-- The terminal keeps too much. -/
def tooLarge (r : Replay) : Bool :=
  1 < r.entries.length - r.head &&
    (maxTerminalReplayBytes < r.bytes || maxTerminalReplayEntries < r.entries.length - r.head)

/-- The loop, for at most so many rounds. -/
def trimLoop : ℕ → Replay → Replay
  | 0, r => r
  | rounds + 1, r => if r.tooLarge then trimLoop rounds r.removeFirst else r

/-- The loop that removes entries. -/
def trim (r : Replay) : Replay :=
  trimLoop (r.entries.length - r.head) r

/-- The front of the array is cut off. -/
def compact (r : Replay) : Replay :=
  if maxTerminalReplayEntries ≤ r.head then
    { r with entries := r.entries.drop r.head, head := 0 }
  else r

end Replay

/-- The registry, with everything that was written to each terminal. -/
structure State where
  /-- `replayEntries`, in the order of the map. -/
  replays : List (String × Replay)
  totalReplayBytes : ℤ
  written : String → List TerminalEntry

/-- What happens to the replay. -/
inductive Op
  /-- `writeTerminalEntryDirect`. -/
  | write (terminalId : String) (e : TerminalEntry)
  /-- `clearTerminalDirect`. -/
  | clear (terminalId : String)
  /-- `forgetTerminalDirect`. -/
  | forget (terminalId : String)
  /-- `clearAllTerminalDirect`. -/
  | clearAll
  deriving DecidableEq

namespace State

/-- `replayEntries.get`. -/
def get (s : State) (terminalId : String) : Option Replay :=
  (s.replays.find? fun entry => entry.1 = terminalId).map Prod.snd

/-- `removeReplay`. -/
def removeReplay (s : State) (terminalId : String) : State :=
  { s with
    totalReplayBytes := match s.get terminalId with
      | some replay => s.totalReplayBytes - replay.bytes
      | none => s.totalReplayBytes
    replays := s.replays.filter fun entry => entry.1 ≠ terminalId }

/-- All terminals keep too much. -/
def tooLarge (s : State) : Bool :=
  maxTotalReplayBytes < s.totalReplayBytes || maxReplayTerminals < s.replays.length

/-- The loop that removes terminals, for at most so many rounds. -/
def evictLoop : ℕ → State → State
  | 0, s => s
  | rounds + 1, s =>
    if s.tooLarge then
      match s.replays with
      | [] => s
      | (terminalId, _) :: _ => evictLoop rounds (s.removeReplay terminalId)
    else s

/-- The loop that removes terminals. -/
def evict (s : State) : State :=
  evictLoop s.replays.length s

/-- `appendTerminalReplayEntry`. -/
def appendTerminalReplayEntry (s : State) (terminalId : String) (e : TerminalEntry) : State :=
  if maxTerminalReplayBytes < terminalEntryReplayBytes e then s.removeReplay terminalId
  else
    let replay := (s.get terminalId).getD .empty
    let next := ((replay.push e).trim).compact
    evict
      { s with
        totalReplayBytes := s.totalReplayBytes + (next.bytes - replay.bytes)
        replays := (s.replays.filter fun entry => entry.1 ≠ terminalId) ++ [(terminalId, next)] }

/-- One operation. -/
def apply (s : State) : Op → State
  | .write terminalId e =>
    { s with written := Function.update s.written terminalId (s.written terminalId ++ [e]) }
      |>.appendTerminalReplayEntry terminalId e
  | .clear terminalId => s.removeReplay terminalId
  | .forget terminalId => s.removeReplay terminalId
  | .clearAll => { s with replays := [], totalReplayBytes := 0 }

/-- No terminal. -/
def empty : State :=
  { replays := [], totalReplayBytes := 0, written := fun _ => [] }

/-- The state after some operations. -/
def run (ops : List Op) : State :=
  ops.foldl apply empty

end State

/-! ### What entries cost together -/

/-- The buffers that some entries look at, each once. -/
def buffersOf (es : List TerminalEntry) : List Buffer :=
  (es.filterMap TerminalEntry.buffer).dedup

/-- The bytes that some entries keep: their texts, and each buffer once. -/
def cost (es : List TerminalEntry) : ℤ :=
  ((es.map TerminalEntry.textBytes).sum + ((buffersOf es).map Buffer.byteLength).sum : ℕ)

/-- How many entries look at the buffer. -/
def uses (buffer : Buffer) (es : List TerminalEntry) : ℕ :=
  es.countP fun e => e.buffer = some buffer

theorem mem_buffersOf {buffer : Buffer} {es : List TerminalEntry} :
    buffer ∈ buffersOf es ↔ 0 < uses buffer es := by
  rw [buffersOf, List.mem_dedup, List.mem_filterMap, uses, List.countP_pos_iff]
  simp only [decide_eq_true_eq]

/-- An entry at the front costs its text, and its buffer if no other looks at it. -/
theorem cost_cons (e : TerminalEntry) (es : List TerminalEntry) :
    cost (e :: es) = cost es + e.textBytes + match e.buffer with
      | none => 0
      | some buffer => if uses buffer es = 0 then (buffer.byteLength : ℤ) else 0 := by
  cases hbuffer : e.buffer with
  | none =>
    rw [cost, cost, buffersOf, buffersOf, List.filterMap_cons_none hbuffer]
    simp only [List.map_cons, List.sum_cons]
    omega
  | some buffer =>
    dsimp only
    have hmem : buffer ∈ buffersOf es ↔ 0 < uses buffer es := mem_buffersOf
    rw [buffersOf, List.mem_dedup] at hmem
    rw [cost, cost, buffersOf, buffersOf, List.filterMap_cons_some hbuffer]
    split_ifs with hfresh
    · rw [List.dedup_cons_of_notMem fun hin => by have := hmem.mp hin; omega]
      simp only [List.map_cons, List.sum_cons]
      omega
    · rw [List.dedup_cons_of_mem (hmem.mpr (Nat.pos_of_ne_zero hfresh))]
      simp only [List.map_cons, List.sum_cons]
      omega

theorem cost_perm {es es' : List TerminalEntry} (h : es.Perm es') : cost es = cost es' := by
  have htexts := (h.map TerminalEntry.textBytes).sum_eq
  have hbuffers := (((h.filterMap TerminalEntry.buffer).dedup).map Buffer.byteLength).sum_eq
  rw [cost, cost, buffersOf, buffersOf, htexts, hbuffers]

theorem cost_concat (es : List TerminalEntry) (e : TerminalEntry) :
    cost (es ++ [e]) = cost (e :: es) :=
  cost_perm (List.perm_append_singleton e es)

theorem cost_singleton (e : TerminalEntry) : cost [e] = terminalEntryReplayBytes e := by
  rw [cost_cons, terminalEntryReplayBytes]
  cases e.buffer with
  | none => simp [cost, buffersOf]
  | some buffer => simp [cost, buffersOf, uses]

theorem cost_nonneg (es : List TerminalEntry) : 0 ≤ cost es :=
  Int.natCast_nonneg _

/-! ### One terminal -/

/-- **The array holds these entries**, behind a cut front, and the counters count them. -/
structure Rep (r : Replay) (es : List TerminalEntry) : Prop where
  entries : r.entries = List.replicate r.head none ++ es.map some
  bytes : r.bytes = cost es
  buffers : ∀ buffer, r.buffers buffer = uses buffer es

namespace Rep

variable {r : Replay} {es : List TerminalEntry} {e : TerminalEntry}

theorem empty : Rep .empty [] :=
  ⟨rfl, rfl, fun _ => rfl⟩

theorem live_eq (h : Rep r es) : r.live = es := by
  rw [Replay.live, h.entries, List.filterMap_append, List.filterMap_map]
  have hnone : (List.replicate r.head (none : Option TerminalEntry)).filterMap id = [] :=
    List.filterMap_eq_nil_iff.mpr fun x hx => List.eq_of_mem_replicate hx
  rw [hnone, List.nil_append]
  exact List.filterMap_some

theorem length_eq (h : Rep r es) : r.entries.length - r.head = es.length := by
  rw [h.entries, List.length_append, List.length_replicate, List.length_map]
  omega

theorem getLast?_eq (h : Rep r es) : r.entries.getLast?.join = es.getLast? := by
  rw [h.entries]
  cases es.eq_nil_or_concat with
  | inl hnil =>
    subst hnil
    rw [List.map_nil, List.append_nil]
    cases hlast : (List.replicate r.head (none : Option TerminalEntry)).getLast? with
    | none => rfl
    | some x =>
      rw [List.eq_of_mem_replicate (List.mem_of_getLast? hlast)]
      rfl
  | inr hconcat =>
    obtain ⟨front, last, rfl⟩ := hconcat
    rw [List.concat_eq_append, List.map_append, ← List.append_assoc, List.map_singleton,
      List.getLast?_concat, List.getLast?_concat]
    rfl

/-- **An entry is retained.** -/
theorem retain (h : Rep r es) (e : TerminalEntry) : Rep (r.retain e) (es ++ [e]) := by
  have hentries : r.entries ++ [some e] = List.replicate r.head none ++ (es ++ [e]).map some := by
    rw [h.entries, List.map_append, List.append_assoc]
    rfl
  have huses : ∀ buffer, uses buffer (es ++ [e]) =
      uses buffer es + (if e.buffer = some buffer then 1 else 0) := by
    intro buffer
    rw [uses, List.countP_append, List.countP_singleton, ← uses]
    simp only [decide_eq_true_eq]
  have hcost := cost_cons e es
  cases hbuffer : e.buffer with
  | none =>
    rw [Replay.retain, hbuffer]
    refine ⟨hentries, ?_, fun buffer => ?_⟩
    · rw [hbuffer] at hcost
      dsimp only at hcost ⊢
      rw [cost_concat, hcost, h.bytes]
      omega
    · rw [huses, hbuffer, if_neg (by simp), Nat.add_zero]
      exact h.buffers buffer
  | some buffer =>
    rw [Replay.retain, hbuffer]
    refine ⟨hentries, ?_, fun other => ?_⟩
    · rw [hbuffer] at hcost
      dsimp only at hcost ⊢
      rw [cost_concat, hcost, h.buffers buffer, h.bytes]
      split_ifs <;> omega
    · dsimp only
      rw [huses, hbuffer]
      by_cases hsame : other = buffer
      · subst hsame
        rw [Function.update_self, if_pos rfl, h.buffers]
      · rw [Function.update_of_ne hsame, if_neg fun heq => hsame (Option.some.inj heq).symm,
          Nat.add_zero, h.buffers]

/-- **The first entry is removed.** -/
theorem removeFirst (h : Rep r (e :: es)) : Rep r.removeFirst es := by
  have hfirst : r.entries[r.head]?.join = some e := by
    rw [h.entries, List.getElem?_append_right (by rw [List.length_replicate]),
      List.length_replicate, Nat.sub_self]
    rfl
  have hentries : r.entries.set r.head none =
      List.replicate (r.head + 1) none ++ es.map some := by
    rw [h.entries, List.set_append_right _ _ (by rw [List.length_replicate]),
      List.length_replicate, Nat.sub_self, List.replicate_succ', List.append_assoc]
    rfl
  have huses : ∀ buffer, uses buffer (e :: es) =
      uses buffer es + (if e.buffer = some buffer then 1 else 0) := by
    intro buffer
    rw [uses, List.countP_cons, ← uses]
    simp only [decide_eq_true_eq]
  have hbytes := h.bytes
  rw [cost_cons] at hbytes
  rw [Replay.removeFirst, hfirst]
  dsimp only
  cases hbuffer : e.buffer with
  | none =>
    rw [Replay.release, hbuffer]
    refine ⟨hentries, ?_, fun buffer => ?_⟩
    · rw [hbuffer] at hbytes
      dsimp only at hbytes ⊢
      omega
    · have hcount := h.buffers buffer
      rw [huses, hbuffer, if_neg (by simp), Nat.add_zero] at hcount
      exact hcount
  | some buffer =>
    rw [Replay.release, hbuffer]
    have hself : r.buffers buffer - 1 = uses buffer es := by
      rw [h.buffers, huses, hbuffer, if_pos rfl, Nat.add_sub_cancel]
    refine ⟨hentries, ?_, fun other => ?_⟩
    · rw [hbuffer] at hbytes
      dsimp only at hbytes ⊢
      rw [hself]
      split_ifs at hbytes ⊢ <;> omega
    · dsimp only
      rw [hself]
      by_cases hsame : other = buffer
      · subst hsame
        rw [Function.update_self]
      · rw [Function.update_of_ne hsame, h.buffers, huses, hbuffer,
          if_neg fun heq => hsame (Option.some.inj heq).symm, Nat.add_zero]

/-- A terminal that does not keep too much, or has one entry that is not too large. -/
theorem fits (h : Rep r es) (hfits : r.tooLarge = false)
    (hlast : ∀ last ∈ es.getLast?, terminalEntryReplayBytes last ≤ maxTerminalReplayBytes) :
    cost es ≤ maxTerminalReplayBytes ∧ es.length ≤ maxTerminalReplayEntries := by
  simp only [Replay.tooLarge, h.length_eq, h.bytes, Bool.and_eq_false_imp, decide_eq_true_eq,
    Bool.or_eq_false_iff, decide_eq_false_iff_not, Int.not_lt, Nat.not_lt] at hfits
  by_cases hlong : 1 < es.length
  · exact hfits hlong
  · cases es with
    | nil => exact ⟨by decide, by decide⟩
    | cons e es =>
      have hnil : es = [] := List.length_eq_zero_iff.mp (by
        rw [List.length_cons] at hlong
        omega)
      subst hnil
      rw [cost_singleton]
      exact ⟨Int.ofNat_le.mpr (hlast e rfl), (by decide : (1 : ℕ) ≤ maxTerminalReplayEntries)⟩

/-- **The loop keeps a suffix that is not too large**, if the last entry alone is not. -/
theorem trimLoop (h : Rep r es) {rounds : ℕ} (hrounds : es.length ≤ rounds)
    (hlast : ∀ last ∈ es.getLast?, terminalEntryReplayBytes last ≤ maxTerminalReplayBytes) :
    ∃ kept, Rep (Replay.trimLoop rounds r) kept ∧ kept <:+ es ∧ (es ≠ [] → kept ≠ []) ∧
      cost kept ≤ maxTerminalReplayBytes ∧ kept.length ≤ maxTerminalReplayEntries := by
  induction rounds generalizing r es with
  | zero =>
    have hnil : es = [] := List.length_eq_zero_iff.mp (by omega)
    subst hnil
    exact ⟨[], h, List.suffix_rfl, id, by decide, by decide⟩
  | succ rounds ih =>
    rw [Replay.trimLoop]
    split_ifs with hlarge
    · simp only [Replay.tooLarge, h.length_eq, Bool.and_eq_true, decide_eq_true_eq] at hlarge
      cases es with
      | nil => exact absurd hlarge.1 (by decide)
      | cons e es =>
        rw [List.length_cons] at hlarge hrounds
        have hne : es ≠ [] := by
          rintro rfl
          exact absurd hlarge.1 (by decide)
        have hlast' : ∀ last ∈ es.getLast?,
            terminalEntryReplayBytes last ≤ maxTerminalReplayBytes := by
          intro last hin
          refine hlast last ?_
          rw [Option.mem_def] at hin ⊢
          rw [List.getLast?_cons, hin]
          rfl
        obtain ⟨kept, hrep, hsuffix, hkept, hbounds⟩ := ih h.removeFirst (by omega) hlast'
        exact ⟨kept, hrep, hsuffix.trans (List.suffix_cons e es), fun _ => hkept hne, hbounds⟩
    · exact ⟨es, h, List.suffix_rfl, id, h.fits (Bool.not_eq_true _ ▸ hlarge) hlast⟩

/-- Cutting off the front changes nothing that is retained. -/
theorem compact (h : Rep r es) : Rep r.compact es := by
  unfold Replay.compact
  split_ifs
  · refine ⟨?_, h.bytes, h.buffers⟩
    show r.entries.drop r.head = List.replicate 0 none ++ es.map some
    have hlength : (List.replicate r.head (none : Option TerminalEntry)).length = r.head :=
      List.length_replicate
    rw [h.entries, List.drop_append_of_le_length (Nat.le_of_eq hlength.symm),
      List.drop_of_length_le (Nat.le_of_eq hlength)]
    rfl
  · exact h

/-- **The spec of a write to one terminal**: of the entries with the new one, unless it repeats
the last, a suffix is retained that is not too large and has the last entry. -/
theorem write (h : Rep r es) (e : TerminalEntry)
    (hfits : ∀ x ∈ es ++ [e], terminalEntryReplayBytes x ≤ maxTerminalReplayBytes) :
    ∃ all kept, Rep ((r.push e).trim).compact kept ∧ kept <:+ all ∧ kept ≠ [] ∧
      cost kept ≤ maxTerminalReplayBytes ∧ kept.length ≤ maxTerminalReplayEntries ∧
      ((∃ last, es.getLast? = some last ∧ duplicates last e = true ∧ all = es) ∨
        (all = es ++ [e])) := by
  obtain ⟨all, hrep, hne, hall⟩ : ∃ all, Rep (r.push e) all ∧ all ≠ [] ∧
      ((∃ last, es.getLast? = some last ∧ duplicates last e = true ∧ all = es) ∨
        (all = es ++ [e])) := by
    unfold Replay.push
    rw [h.getLast?_eq]
    split_ifs with hduplicate
    · obtain ⟨last, hlast, hsame⟩ := Option.any_eq_true _ _ |>.mp hduplicate
      refine ⟨es, h, ?_, .inl ⟨last, hlast, hsame, rfl⟩⟩
      rintro rfl
      cases hlast
    · exact ⟨es ++ [e], h.retain e, by simp, .inr rfl⟩
  have hsub : ∀ x ∈ all, x ∈ es ++ [e] := by
    rcases hall with ⟨-, -, -, rfl⟩ | rfl
    · exact fun x hx => List.mem_append_left _ hx
    · exact fun x hx => hx
  obtain ⟨kept, hkept, hsuffix, hkeptNe, hcost, hlength⟩ := hrep.trimLoop
    (Nat.le_of_eq hrep.length_eq.symm)
    fun last hlast => hfits last (hsub last (List.mem_of_getLast? hlast))
  exact ⟨all, kept, hkept.compact, hsuffix, hkeptNe hne, hcost, hlength, hall⟩

end Rep

/-! ### All terminals -/

/-- **What is left of the entries written** when an entry that repeats the last one left is not
kept a second time. -/
inductive Collapses : List TerminalEntry → List TerminalEntry → Prop
  | nil : Collapses [] []
  | keep {written left : List TerminalEntry} (e : TerminalEntry) (h : Collapses written left) :
    Collapses (written ++ [e]) (left ++ [e])
  | drop {written left : List TerminalEntry} {last e : TerminalEntry}
    (h : Collapses written left) (hlast : left.getLast? = some last)
    (hduplicate : duplicates last e = true) : Collapses (written ++ [e]) left

theorem Collapses.self (es : List TerminalEntry) : Collapses es es := by
  induction es using List.reverseRecOn with
  | nil => exact .nil
  | append_singleton es e ih => exact ih.keep e

/-- **The replay of a terminal is in order.** -/
structure Kept (written : List TerminalEntry) (r : Replay) : Prop where
  rep : Rep r r.live
  ne_nil : r.live ≠ []
  fits : ∀ e ∈ r.live, terminalEntryReplayBytes e ≤ maxTerminalReplayBytes
  cost_le : cost r.live ≤ maxTerminalReplayBytes
  length_le : r.live.length ≤ maxTerminalReplayEntries
  suffix : ∃ left, Collapses written left ∧ r.live <:+ left

/-- The bytes of some terminals. -/
def sumBytes (replays : List (String × Replay)) : ℤ :=
  (replays.map fun entry => entry.2.bytes).sum

/-- **The registry is in order**, but for its own limits. -/
structure Loose (s : State) : Prop where
  keys : (s.replays.map Prod.fst).Nodup
  terminals : ∀ entry ∈ s.replays, Kept (s.written entry.1) entry.2
  total : s.totalReplayBytes = sumBytes s.replays

/-- **The registry is in order.** -/
structure Inv (s : State) : Prop extends Loose s where
  total_le : s.totalReplayBytes ≤ maxTotalReplayBytes
  length_le : s.replays.length ≤ maxReplayTerminals

theorem sumBytes_filter {replays : List (String × Replay)} (hkeys : (replays.map Prod.fst).Nodup)
    (terminalId : String) : sumBytes replays =
      sumBytes (replays.filter fun entry => entry.1 ≠ terminalId) +
        match (replays.find? fun entry => entry.1 = terminalId).map Prod.snd with
          | some replay => replay.bytes
          | none => 0 := by
  induction replays with
  | nil => rfl
  | cons entry replays ih =>
    rw [List.map_cons, List.nodup_cons] at hkeys
    have hsum : sumBytes (entry :: replays) = entry.2.bytes + sumBytes replays := by
      rw [sumBytes, List.map_cons, List.sum_cons, ← sumBytes]
    by_cases hsame : entry.1 = terminalId
    · have hrest : replays.filter (fun other => other.1 ≠ terminalId) = replays := by
        refine List.filter_eq_self.mpr fun other hother => decide_eq_true fun hkey => hkeys.1 ?_
        have hin : other.1 ∈ replays.map Prod.fst := List.mem_map_of_mem hother
        rwa [hkey, ← hsame] at hin
      rw [List.find?_cons, List.filter_cons_of_neg (by simp [hsame]), decide_eq_true hsame, hrest,
        hsum]
      exact Int.add_comm _ _
    · have hfiltered : ∀ l, sumBytes (entry :: l) = entry.2.bytes + sumBytes l := fun l => by
        rw [sumBytes, List.map_cons, List.sum_cons, ← sumBytes]
      rw [List.find?_cons, List.filter_cons_of_pos (by simp [hsame]), decide_eq_false hsame, hsum,
        hfiltered, ih hkeys.2, Int.add_assoc]

/-- The terminal that `get` finds. -/
theorem State.mem_of_get {s : State} {terminalId : String} {replay : Replay}
    (h : s.get terminalId = some replay) : (terminalId, replay) ∈ s.replays := by
  obtain ⟨entry, hentry, rfl⟩ := Option.map_eq_some_iff.mp h
  have hfound := List.find?_some hentry
  have hkey : entry.1 = terminalId := of_decide_eq_true hfound
  rw [← hkey]
  exact List.mem_of_find?_eq_some hentry

theorem State.get_of_mem {s : State} (hkeys : (s.replays.map Prod.fst).Nodup)
    {terminalId : String} {replay : Replay} (h : (terminalId, replay) ∈ s.replays) :
    s.get terminalId = some replay := by
  cases hget : s.get terminalId with
  | none =>
    rw [State.get, Option.map_eq_none_iff, List.find?_eq_none] at hget
    exact absurd (decide_eq_true rfl) (hget _ h)
  | some other =>
    have hother := State.mem_of_get hget
    exact congrArg (fun entry => some entry.2) (List.inj_on_of_nodup_map hkeys hother h rfl)

namespace Loose

variable {s : State}

/-- **A terminal is removed.** -/
theorem removeReplay (h : Loose s) (terminalId : String) : Loose (s.removeReplay terminalId) := by
  refine ⟨h.keys.sublist (List.filter_sublist.map Prod.fst),
    fun entry hentry => h.terminals entry (List.mem_of_mem_filter hentry), ?_⟩
  have hsum := sumBytes_filter h.keys terminalId
  have htotal := h.total
  show (match s.get terminalId with
    | some replay => s.totalReplayBytes - replay.bytes
    | none => s.totalReplayBytes) = sumBytes (s.replays.filter fun entry => entry.1 ≠ terminalId)
  rw [← State.get] at hsum
  cases hget : s.get terminalId with
  | none =>
    rw [hget] at hsum
    dsimp only at hsum ⊢
    omega
  | some replay =>
    rw [hget, ← htotal] at hsum
    exact Int.sub_eq_iff_eq_add.mpr hsum

theorem removeReplay_first (h : Loose s) {terminalId : String} {replay : Replay}
    {rest : List (String × Replay)} (hreplays : s.replays = (terminalId, replay) :: rest) :
    (s.removeReplay terminalId).replays = rest := by
  have hkeys := h.keys
  rw [hreplays, List.map_cons, List.nodup_cons] at hkeys
  show s.replays.filter _ = rest
  rw [hreplays, List.filter_cons_of_neg (by simp)]
  refine List.filter_eq_self.mpr fun other hother => decide_eq_true fun hkey => hkeys.1 ?_
  have hin : other.1 ∈ rest.map Prod.fst := List.mem_map_of_mem hother
  rwa [hkey] at hin

/-- **The loop stops at the limits**, and keeps the last terminal. -/
theorem evictLoop (h : Loose s) {rounds : ℕ} (hrounds : s.replays.length ≤ rounds)
    {front : List (String × Replay)} {last : String × Replay}
    (hreplays : s.replays = front ++ [last]) :
    Inv (State.evictLoop rounds s) ∧ last ∈ (State.evictLoop rounds s).replays := by
  induction rounds generalizing s front with
  | zero =>
    rw [hreplays, List.length_append, List.length_singleton] at hrounds
    omega
  | succ rounds ih =>
    rw [State.evictLoop]
    split_ifs with hlarge
    · cases front with
      | nil =>
        rw [List.nil_append] at hreplays
        have hkept := h.terminals last (by rw [hreplays]; exact List.mem_singleton_self last)
        have hbytes := hkept.rep.bytes
        have hcost := hkept.cost_le
        have htotal := h.total
        rw [hreplays, sumBytes, List.map_singleton, List.sum_singleton] at htotal
        simp only [State.tooLarge, hreplays, Bool.or_eq_true, decide_eq_true_eq,
          List.length_singleton] at hlarge
        have hmax : (maxTerminalReplayBytes : ℤ) = 4 * 1024 * 1024 := rfl
        have hmaxTotal : (maxTotalReplayBytes : ℤ) = 16 * 1024 * 1024 := rfl
        rcases hlarge with hlarge | hlarge
        · omega
        · exact absurd hlarge (by decide)
      | cons first front =>
        rw [hreplays, List.cons_append]
        dsimp only
        have hrest := h.removeReplay_first (by rw [hreplays]; rfl :
          s.replays = (first.1, first.2) :: (front ++ [last]))
        refine ih (h.removeReplay first.1) ?_ hrest
        rw [hreplays, List.cons_append, List.length_cons] at hrounds
        rw [hrest]
        omega
    · simp only [State.tooLarge, Bool.or_eq_true, decide_eq_true_eq, not_or, Int.not_lt,
        Nat.not_lt] at hlarge
      refine ⟨⟨h, hlarge.1, hlarge.2⟩, ?_⟩
      rw [hreplays]
      exact List.mem_append_right _ (List.mem_singleton_self last)

/-- What was written to a terminal without replay does not matter. -/
theorem written (h : Loose s) {terminalId : String}
    (hout : ∀ entry ∈ s.replays, entry.1 ≠ terminalId) (es : List TerminalEntry) :
    Loose { s with written := Function.update s.written terminalId es } := by
  refine ⟨h.keys, fun entry hentry => ?_, h.total⟩
  show Kept (Function.update s.written terminalId es entry.1) entry.2
  rw [Function.update_of_ne (hout entry hentry)]
  exact h.terminals entry hentry

theorem removeReplay_out (s : State) (terminalId : String) :
    ∀ entry ∈ (s.removeReplay terminalId).replays, entry.1 ≠ terminalId :=
  fun _ hentry => of_decide_eq_true (List.mem_filter.mp hentry).2

theorem add (h : Loose s) {terminalId : String} {replay : Replay}
    (hout : ∀ entry ∈ s.replays, entry.1 ≠ terminalId)
    (hkept : Kept (s.written terminalId) replay) :
    Loose { s with
      totalReplayBytes := s.totalReplayBytes + replay.bytes
      replays := s.replays ++ [(terminalId, replay)] } := by
  refine ⟨?_, fun entry hentry => ?_, ?_⟩
  · show ((s.replays ++ [(terminalId, replay)]).map Prod.fst).Nodup
    rw [List.map_append, List.map_singleton]
    refine List.nodup_append.mpr ⟨h.keys, by simp, fun key hkey other hother heq => ?_⟩
    obtain ⟨entry, hentry, rfl⟩ := List.mem_map.mp hkey
    exact hout entry hentry (heq.trans (List.mem_singleton.mp hother))
  · rcases List.mem_append.mp hentry with hentry | hentry
    · exact h.terminals entry hentry
    · obtain rfl := List.mem_singleton.mp hentry
      exact hkept
  · show s.totalReplayBytes + replay.bytes = sumBytes (s.replays ++ [(terminalId, replay)])
    rw [sumBytes, List.map_append, List.sum_append, ← sumBytes, h.total, List.map_singleton,
      List.sum_singleton]

end Loose

/-- The last entry is the one written, or repeats it. -/
def Shows (r : Replay) (e : TerminalEntry) : Prop :=
  ∃ last, r.live.getLast? = some last ∧ (last = e ∨ duplicates last e = true)

theorem getLast?_of_suffix {es all : List TerminalEntry} (hsuffix : es <:+ all) (hne : es ≠ []) :
    all.getLast? = es.getLast? := by
  obtain ⟨front, rfl⟩ := hsuffix
  rw [List.getLast?_append, List.getLast?_eq_some_getLast hne, Option.some_or]

/-- **A write keeps a terminal in order**, and its last entry shows what was written. -/
theorem Rep.kept_write {r : Replay} {es written : List TerminalEntry} {e : TerminalEntry}
    (h : Rep r es) (hes : ∀ x ∈ es, terminalEntryReplayBytes x ≤ maxTerminalReplayBytes)
    (hleft : ∃ left, Collapses written left ∧ es <:+ left)
    (hfits : terminalEntryReplayBytes e ≤ maxTerminalReplayBytes) :
    Kept (written ++ [e]) ((r.push e).trim).compact ∧ Shows ((r.push e).trim).compact e := by
  have hall : ∀ x ∈ es ++ [e], terminalEntryReplayBytes x ≤ maxTerminalReplayBytes := by
    intro x hx
    rcases List.mem_append.mp hx with hx | hx
    · exact hes x hx
    · rw [List.mem_singleton.mp hx]
      exact hfits
  obtain ⟨left, hcollapses, hsuffix⟩ := hleft
  obtain ⟨all, kept, hrep, hkept, hne, hcost, hlength, hcases⟩ := h.write e hall
  have hlive := hrep.live_eq
  have hlast := getLast?_of_suffix hkept hne
  rcases hcases with ⟨last, heslast, hduplicate, rfl⟩ | rfl
  · have hesne : all ≠ [] := by
      rintro rfl
      cases heslast
    refine ⟨⟨hlive.symm ▸ hrep, hlive.symm ▸ hne, fun x hx => ?_, hlive.symm ▸ hcost,
      hlive.symm ▸ hlength, left, ?_, hlive.symm ▸ hkept.trans hsuffix⟩, last, ?_, .inr hduplicate⟩
    · rw [hlive] at hx
      exact hes x (hkept.subset hx)
    · exact hcollapses.drop ((getLast?_of_suffix hsuffix hesne).trans heslast) hduplicate
    · rw [hlive, ← hlast, heslast]
  · refine ⟨⟨hlive.symm ▸ hrep, hlive.symm ▸ hne, fun x hx => ?_, hlive.symm ▸ hcost,
      hlive.symm ▸ hlength, left ++ [e], hcollapses.keep e, ?_⟩, e, ?_, .inl rfl⟩
    · rw [hlive] at hx
      exact hall x (hkept.subset hx)
    · obtain ⟨front, rfl⟩ := hsuffix
      rw [hlive, List.append_assoc]
      exact hkept.trans (List.suffix_append front (es ++ [e]))
    · rw [hlive, ← hlast, List.getLast?_concat]

theorem written_evictLoop (rounds : ℕ) (s : State) :
    (State.evictLoop rounds s).written = s.written := by
  induction rounds generalizing s with
  | zero => rfl
  | succ rounds ih =>
    rw [State.evictLoop]
    split_ifs
    · cases s.replays with
      | nil => rfl
      | cons first rest => exact ih (s.removeReplay first.1)
    · rfl

theorem written_write (s : State) (terminalId : String) (e : TerminalEntry) :
    (s.apply (.write terminalId e)).written =
      Function.update s.written terminalId (s.written terminalId ++ [e]) := by
  rw [State.apply, State.appendTerminalReplayEntry]
  split_ifs
  · rfl
  · exact written_evictLoop _ _

namespace Inv

variable {s : State}

theorem empty : Inv .empty :=
  ⟨⟨List.nodup_nil, fun _ hentry => absurd hentry List.not_mem_nil, rfl⟩, by decide, by decide⟩

/-- **A terminal is removed.** -/
theorem removeReplay (h : Inv s) (terminalId : String) : Inv (s.removeReplay terminalId) := by
  refine ⟨h.toLoose.removeReplay terminalId, ?_,
    Nat.le_trans (List.length_filter_le _ _) h.length_le⟩
  have htotal := h.total_le
  show (match s.get terminalId with
    | some replay => s.totalReplayBytes - replay.bytes
    | none => s.totalReplayBytes) ≤ (maxTotalReplayBytes : ℤ)
  cases hget : s.get terminalId with
  | none => exact htotal
  | some replay =>
    have hbytes := (h.terminals _ (State.mem_of_get hget)).rep.bytes
    exact Int.le_trans (Int.sub_le_self _ (hbytes ▸ cost_nonneg replay.live)) htotal

/-- **A write of an entry that is not too large** keeps the registry in order and the entry. -/
theorem write (h : Inv s) (terminalId : String) {e : TerminalEntry}
    (hfits : terminalEntryReplayBytes e ≤ maxTerminalReplayBytes) :
    Inv (s.apply (.write terminalId e)) ∧
      ∃ replay, (s.apply (.write terminalId e)).get terminalId = some replay ∧ Shows replay e := by
  obtain ⟨hkept, hshows⟩ : Kept (s.written terminalId ++ [e])
      ((((s.get terminalId).getD .empty).push e).trim).compact ∧
        Shows ((((s.get terminalId).getD .empty).push e).trim).compact e := by
    cases hget : s.get terminalId with
    | none =>
      exact Rep.empty.kept_write (fun x hx => absurd hx List.not_mem_nil)
        ⟨_, Collapses.self _, List.nil_suffix⟩ hfits
    | some replay =>
      have hterminal := h.terminals _ (State.mem_of_get hget)
      exact hterminal.rep.kept_write hterminal.fits hterminal.suffix hfits
  generalize hreplay : (s.get terminalId).getD .empty = replay at hkept hshows
  generalize hnext : ((replay.push e).trim).compact = next at hkept hshows
  have htotal : (s.removeReplay terminalId).totalReplayBytes + next.bytes =
      s.totalReplayBytes + (next.bytes - replay.bytes) := by
    show (match s.get terminalId with
      | some replay => s.totalReplayBytes - replay.bytes
      | none => s.totalReplayBytes) + next.bytes = s.totalReplayBytes + (next.bytes - replay.bytes)
    cases hget : s.get terminalId with
    | none =>
      obtain rfl : Replay.empty = replay := by rw [← hreplay, hget, Option.getD_none]
      exact congrArg (s.totalReplayBytes + ·) (Int.sub_zero next.bytes).symm
    | some other =>
      obtain rfl : other = replay := by rw [← hreplay, hget, Option.getD_some]
      exact (sub_add_eq_add_sub _ _ _).trans (add_sub_assoc _ _ _)
  have hself : Function.update s.written terminalId (s.written terminalId ++ [e]) terminalId =
      s.written terminalId ++ [e] := Function.update_self _ _ _
  rw [← hself] at hkept
  have hloose := ((h.toLoose.removeReplay terminalId).written
    (Loose.removeReplay_out s terminalId) (s.written terminalId ++ [e])).add
      (Loose.removeReplay_out s terminalId) hkept
  obtain ⟨hinv, hlast⟩ := hloose.evictLoop (Nat.le_refl _) rfl
  have happly : s.apply (.write terminalId e) = State.evict
      { replays := (s.removeReplay terminalId).replays ++ [(terminalId, next)]
        totalReplayBytes := (s.removeReplay terminalId).totalReplayBytes + next.bytes
        written := Function.update s.written terminalId (s.written terminalId ++ [e]) } := by
    rw [State.apply, State.appendTerminalReplayEntry, if_neg (Nat.not_lt.mpr hfits), htotal]
    have hget : State.get { s with
        written := Function.update s.written terminalId (s.written terminalId ++ [e]) }
          terminalId = s.get terminalId := rfl
    dsimp only
    rw [hget, hreplay, hnext]
    rfl
  rw [happly]
  exact ⟨hinv, next, State.get_of_mem hinv.keys hlast, hshows⟩

/-- **A write of an entry that is too large** drops the replay of its terminal. -/
theorem write_large (h : Inv s) (terminalId : String) {e : TerminalEntry}
    (hlarge : maxTerminalReplayBytes < terminalEntryReplayBytes e) :
    Inv (s.apply (.write terminalId e)) ∧
      (s.apply (.write terminalId e)).get terminalId = none := by
  rw [State.apply, State.appendTerminalReplayEntry, if_pos hlarge]
  have hout := Loose.removeReplay_out s terminalId
  have hinv := h.removeReplay terminalId
  refine ⟨⟨hinv.toLoose.written hout _, hinv.total_le, hinv.length_le⟩, ?_⟩
  refine Option.map_eq_none_iff.mpr (List.find?_eq_none.mpr fun entry hentry hkey => ?_)
  exact hout entry hentry (of_decide_eq_true hkey)

/-- **What one operation preserves.** -/
theorem apply (h : Inv s) (op : Op) : Inv (s.apply op) := by
  cases op with
  | write terminalId e =>
    rcases Nat.lt_or_ge maxTerminalReplayBytes (terminalEntryReplayBytes e) with hlarge | hfits
    · exact (h.write_large terminalId hlarge).1
    · exact (h.write terminalId hfits).1
  | clear terminalId => exact h.removeReplay terminalId
  | forget terminalId => exact h.removeReplay terminalId
  | clearAll =>
    exact ⟨⟨List.nodup_nil, fun _ hentry => absurd hentry List.not_mem_nil, rfl⟩,
      Int.natCast_nonneg _, Nat.zero_le _⟩

/-- **What a run preserves.** -/
theorem run (ops : List Op) : Inv (State.run ops) := by
  induction ops using List.reverseRecOn with
  | nil => exact empty
  | append_singleton ops op ih =>
    rw [State.run, List.foldl_append]
    exact ih.apply op

end Inv

/-- The entries that some operations write to a terminal. -/
def writtenTo (terminalId : String) (ops : List Op) : List TerminalEntry :=
  ops.filterMap fun
    | .write other e => if other = terminalId then some e else none
    | _ => none

theorem written_run (terminalId : String) (ops : List Op) :
    (State.run ops).written terminalId = writtenTo terminalId ops := by
  induction ops using List.reverseRecOn with
  | nil => rfl
  | append_singleton ops op ih =>
    have hrun : State.run (ops ++ [op]) = (State.run ops).apply op := by
      rw [State.run, List.foldl_append]
      rfl
    rw [hrun, writtenTo, List.filterMap_append, ← writtenTo, ← ih]
    cases op with
    | write other e =>
      rw [written_write]
      by_cases hsame : other = terminalId
      · subst hsame
        rw [Function.update_self, List.filterMap_cons]
        dsimp only
        rw [if_pos rfl, List.filterMap_nil]
      · rw [Function.update_of_ne (Ne.symm hsame), List.filterMap_cons]
        dsimp only
        rw [if_neg hsame]
        exact (List.append_nil _).symm
    | clear other => exact (List.append_nil _).symm
    | forget other => exact (List.append_nil _).symm
    | clearAll => exact (List.append_nil _).symm

/-- **The replay of the terminals.**  After any operations each terminal is there once, the
total counts the bytes of all terminals, and the limits on both hold; the bytes of a terminal are
what its entries cost, within the limits of a terminal, and its entries are a suffix of what was
written to it, without entries that repeat the one before.  A write of an entry that is not too
large for a terminal keeps it, or the one that it repeats; otherwise the terminal keeps nothing. -/
theorem replay_of_run (ops : List Op) :
    (((State.run ops).replays.map Prod.fst).Nodup ∧
      (State.run ops).totalReplayBytes = sumBytes (State.run ops).replays ∧
      (State.run ops).totalReplayBytes ≤ maxTotalReplayBytes ∧
      (State.run ops).replays.length ≤ maxReplayTerminals) ∧
    (∀ entry ∈ (State.run ops).replays,
      entry.2.bytes = cost entry.2.live ∧ entry.2.bytes ≤ maxTerminalReplayBytes ∧
      entry.2.live.length ≤ maxTerminalReplayEntries ∧
      ∃ left, Collapses (writtenTo entry.1 ops) left ∧ entry.2.live <:+ left) ∧
    ∀ terminalId e,
      if terminalEntryReplayBytes e ≤ maxTerminalReplayBytes then
        ∃ replay, (State.run (ops ++ [.write terminalId e])).get terminalId = some replay ∧
          Shows replay e
      else (State.run (ops ++ [.write terminalId e])).get terminalId = none := by
  have h := Inv.run ops
  refine ⟨⟨h.keys, h.total, h.total_le, h.length_le⟩, fun entry hentry => ?_,
    fun terminalId e => ?_⟩
  · have hkept := h.terminals entry hentry
    rw [written_run] at hkept
    exact ⟨hkept.rep.bytes, hkept.rep.bytes ▸ hkept.cost_le, hkept.length_le, hkept.suffix⟩
  · rw [State.run, List.foldl_append, ← State.run]
    split_ifs with hfits
    · exact (h.write terminalId hfits).2
    · exact (h.write_large terminalId (Nat.lt_of_not_le hfits)).2

/-- A frame that looks at one byte of a buffer that is larger than a terminal may keep. -/
def smallView : TerminalEntry :=
  { kind := .output, content := "", buffer := some ⟨0, 4 * 1024 * 1024 + 1⟩ }

/-- The newest entry is not always kept. -/
theorem small_view_not_kept : ¬ ∀ (ops : List Op) (terminalId : String) (e : TerminalEntry),
    ∃ replay, (State.run (ops ++ [.write terminalId e])).get terminalId = some replay ∧
      Shows replay e := by
  intro h
  obtain ⟨replay, hget, -⟩ := h [] "t" smallView
  cases hget

/-- Of two entries that look at one buffer of 3 MiB both are kept, and the buffer counts once. -/
example : ((State.run [.write "a" ⟨.output, "", some ⟨0, 3 * 1024 * 1024⟩⟩,
    .write "a" ⟨.output, "", some ⟨0, 3 * 1024 * 1024⟩⟩]).replays.map
      fun entry => (entry.2.live.length, entry.2.bytes)) = [(2, 3 * 1024 * 1024)] := by
  decide

end TerminalReplay
end Frontend
end HelmSsh
