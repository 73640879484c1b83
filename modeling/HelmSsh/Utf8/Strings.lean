/-
# Texts, and bytes that are repaired to be one

A text is its bytes, with the proof that they are one (`Str`).  `String::from_utf8_lossy` makes a
text of any bytes: it keeps the characters, and puts one replacement character for each maximal
part of an ill-formed sequence, and for a character that the bytes end inside.

* `decoder` — the incremental decoder that does so, but holds back bytes that may still become a
  character.  `held_le`: at most three.
* `fromUtf8Lossy_bytes` — the repaired text is what the decoder puts out, and a replacement
  character for what it holds back.
* `decode_of_wellformed`, `decode_of_invalid`, `decode_of_incomplete` — what each answer of
  `from_utf8` says about what the decoder does.
* `wellformed_drop` — a text that is cut at the start of a character (`Str.isCharBoundary`) is a
  text.
-/

import HelmSsh.Incremental
import HelmSsh.Utf8

namespace Utf8

/-- `String`: the bytes of a text. -/
@[ext]
structure Str where
  bytes : List UInt8
  valid : Wellformed bytes

namespace Str

/-- `String::new`. -/
def empty : Str := ⟨[], rfl⟩

/-- `String::push_str`. -/
instance : Append Str :=
  ⟨fun first second => ⟨first.bytes ++ second.bytes, first.valid.append second.valid⟩⟩

@[simp] theorem append_bytes (first second : Str) :
    (first ++ second).bytes = first.bytes ++ second.bytes := rfl

/-- `str::len`, in bytes. -/
def len (s : Str) : ℕ := s.bytes.length

/-- `str::is_empty`. -/
def isEmpty (s : Str) : Bool := s.bytes.isEmpty

/-- The bytes of a string of characters. -/
def ofString (s : String) : Str :=
  ⟨s.toList.flatMap String.utf8EncodeChar, wellformed_iff.mpr ⟨s.toList, rfl⟩⟩

/-- The text as a string of characters. -/
def text (s : Str) : String :=
  ⟨s.bytes.toByteArray, by
    obtain ⟨cs, hcs⟩ := wellformed_iff.mp s.valid
    exact ⟨cs, congrArg List.toByteArray hcs⟩⟩

/-- The texts one after another. -/
def concat (texts : List Str) : Str :=
  texts.foldr (· ++ ·) empty

theorem concat_bytes (texts : List Str) : (concat texts).bytes = texts.flatMap Str.bytes := by
  induction texts with
  | nil => rfl
  | cons text texts ih => exact congrArg (text.bytes ++ ·) ih

end Str

/-- `'\u{fffd}'`, the replacement character. -/
def replacement : Str := ⟨[0xEF, 0xBF, 0xBD], by decide⟩

/-- `from_utf8`: the bytes as a text, or their first error. -/
def fromUtf8 (bs : List UInt8) : Except Utf8Error Str :=
  match h : firstError bs with
  | none => .ok ⟨bs, h⟩
  | some e => .error e

variable {bs : List UInt8}

theorem fromUtf8_of_wellformed (h : Wellformed bs) :
    fromUtf8 bs = .ok ⟨bs, h⟩ := by
  unfold fromUtf8
  split
  · rfl
  · rename_i e he
    rw [Wellformed, he] at h
    cases h

theorem fromUtf8_of_firstError {e : Utf8Error} (h : firstError bs = some e) :
    fromUtf8 bs = .error e := by
  unfold fromUtf8
  split
  · rename_i hnone
    rw [h] at hnone
    cases hnone
  · rename_i e' he
    rw [h] at he
    rw [Option.some.inj he]

/-! ### The decoder -/

/-- The text at the front of the bytes, and the bytes after it. -/
def next (bs : List UInt8) : Option (List UInt8 × List UInt8) :=
  match head bs with
  | .char n => some (bs.take n, bs.drop n)
  | .invalid n => some (replacement.bytes, bs.drop n)
  | .incomplete => none

theorem next_char {n : ℕ} (h : head bs = .char n) :
    next bs = some (bs.take n, bs.drop n) := by
  rw [next, h]

theorem next_invalid {n : ℕ} (h : head bs = .invalid n) :
    next bs = some (replacement.bytes, bs.drop n) := by
  rw [next, h]

theorem next_incomplete (h : head bs = .incomplete) : next bs = none := by
  rw [next, h]

theorem next_shorter {rest out : List UInt8} (h : next bs = some (out, rest)) :
    rest.length < bs.length := by
  cases hhead : head bs with
  | char n =>
    have := head_bounds (.inl hhead)
    rw [next_char hhead] at h
    cases h
    rw [List.length_drop]
    omega
  | invalid n =>
    have := head_bounds (.inr hhead)
    rw [next_invalid hhead] at h
    cases h
    rw [List.length_drop]
    omega
  | incomplete =>
    rw [next_incomplete hhead] at h
    cases h

theorem next_stable {rest out : List UInt8} (more : List UInt8)
    (h : next bs = some (out, rest)) : next (bs ++ more) = some (out, rest ++ more) := by
  cases hhead : head bs with
  | char n =>
    have hle := (head_bounds (.inl hhead)).2
    have hmore : head (bs ++ more) = .char n := by rw [head_append more (by simp [hhead]), hhead]
    rw [next_char hhead] at h
    cases h
    rw [next_char hmore, List.take_append_of_le_length hle, List.drop_append_of_le_length hle]
  | invalid n =>
    have hle := (head_bounds (.inr hhead)).2
    have hmore : head (bs ++ more) = .invalid n := by
      rw [head_append more (by simp [hhead]), hhead]
    rw [next_invalid hhead] at h
    cases h
    rw [next_invalid hmore, List.drop_append_of_le_length hle]
  | incomplete =>
    rw [next_incomplete hhead] at h
    cases h

/-- The decoder of the table. -/
def decoder : Incremental UInt8 UInt8 where
  next := next
  shorter := next_shorter
  stable := next_stable

section Decode

variable {bs : List UInt8} {n : ℕ}

theorem decode_char (h : head bs = .char n) :
    decoder.decode bs
      = (bs.take n ++ (decoder.decode (bs.drop n)).1, (decoder.decode (bs.drop n)).2) :=
  decoder.decode_some (next_char h)

theorem decode_invalid (h : head bs = .invalid n) :
    decoder.decode bs
      = (replacement.bytes ++ (decoder.decode (bs.drop n)).1, (decoder.decode (bs.drop n)).2) :=
  decoder.decode_some (next_invalid h)

theorem decode_incomplete (h : head bs = .incomplete) : decoder.decode bs = ([], bs) :=
  decoder.decode_none (next_incomplete h)

end Decode

/-- What is at the front of what is held back is not decided. -/
theorem head_held (bs : List UInt8) : head (decoder.decode bs).2 = .incomplete := by
  have hnone : next (decoder.decode bs).2 = none := decoder.next_held bs
  cases hhead : head (decoder.decode bs).2 with
  | char n =>
    rw [next_char hhead] at hnone
    cases hnone
  | invalid n =>
    rw [next_invalid hhead] at hnone
    cases hnone
  | incomplete => rfl

/-- **At most three bytes are held back.** -/
theorem held_le (bs : List UInt8) : (decoder.decode bs).2.length ≤ 3 :=
  head_incomplete (head_held bs)

theorem wellformed_take {n : ℕ} (h : head bs = .char n) :
    Wellformed (bs.take n) := by
  obtain ⟨c, hc⟩ := exists_char h
  rw [hc]
  exact wellformed_iff.mpr ⟨[c], by rw [List.flatMap_singleton]⟩

theorem wellformed_decode (bs : List UInt8) : Wellformed (decoder.decode bs).1 := by
  induction bs using decoder.decode_induction with
  | none bs h =>
    rw [decoder.decode_none h]
    rfl
  | some bs out rest h ih =>
    rw [decoder.decode_some h]
    refine Wellformed.append ?_ ih
    replace h : next bs = some (out, rest) := h
    cases hhead : head bs with
    | char n =>
      rw [next_char hhead] at h
      cases h
      exact wellformed_take hhead
    | invalid n =>
      rw [next_invalid hhead] at h
      cases h
      exact replacement.valid
    | incomplete =>
      rw [next_incomplete hhead] at h
      cases h

/-! ### What an answer of `from_utf8` says -/

theorem decode_of_wellformed (h : Wellformed bs) :
    decoder.decode bs = (bs, []) := by
  induction bs using chars_induction with
  | nil => rfl
  | char bs n hhead ih =>
    rw [decode_char hhead, ih ((wellformed_char hhead).mp h), List.take_append_drop]
  | invalid bs n hhead =>
    rw [Wellformed, firstError_invalid hhead] at h
    cases h
  | incomplete bs hnil hhead =>
    rw [Wellformed, firstError_incomplete hnil hhead] at h
    cases h

/-- Before an invalid sequence is a text; then comes a replacement character. -/
theorem decode_of_invalid {v k : ℕ} (h : firstError bs = some ⟨v, some k⟩) :
    Wellformed (bs.take v) ∧ 1 ≤ k ∧ v + k ≤ bs.length ∧
      decoder.decode bs
        = (bs.take v ++ (replacement.bytes ++ (decoder.decode (bs.drop (v + k))).1),
            (decoder.decode (bs.drop (v + k))).2) := by
  induction bs using chars_induction generalizing v with
  | nil => cases h
  | char bs n hhead ih =>
    rw [firstError_char hhead, Option.map_eq_some_iff] at h
    obtain ⟨⟨v', e⟩, he, heq⟩ := h
    obtain ⟨rfl, rfl⟩ := Utf8Error.mk.inj heq
    obtain ⟨hvalid, hpos, hle, hdecode⟩ := ih he
    have hn := (head_bounds (.inl hhead)).2
    rw [List.length_drop] at hle
    dsimp only
    refine ⟨?_, hpos, by omega, ?_⟩
    · rw [List.take_add]
      exact (wellformed_take hhead).append hvalid
    · rw [decode_char hhead, hdecode, List.take_add, List.drop_drop, Nat.add_assoc,
        List.append_assoc]
  | invalid bs n hhead =>
    rw [firstError_invalid hhead] at h
    obtain ⟨rfl, hk⟩ := Utf8Error.mk.inj (Option.some.inj h)
    obtain rfl := Option.some.inj hk
    have := head_bounds (.inr hhead)
    refine ⟨rfl, this.1, by omega, ?_⟩
    rw [decode_invalid hhead, Nat.zero_add, List.take_zero, List.nil_append]
  | incomplete bs hnil hhead =>
    rw [firstError_incomplete hnil hhead] at h
    cases h

/-- Before bytes that end inside a character is a text; the bytes are held back. -/
theorem decode_of_incomplete {v : ℕ} (h : firstError bs = some ⟨v, none⟩) :
    Wellformed (bs.take v) ∧ decoder.decode bs = (bs.take v, bs.drop v) := by
  induction bs using chars_induction generalizing v with
  | nil => cases h
  | char bs n hhead ih =>
    rw [firstError_char hhead, Option.map_eq_some_iff] at h
    obtain ⟨⟨v', e⟩, he, heq⟩ := h
    obtain ⟨rfl, rfl⟩ := Utf8Error.mk.inj heq
    obtain ⟨hvalid, hdecode⟩ := ih he
    dsimp only
    rw [List.take_add]
    refine ⟨(wellformed_take hhead).append hvalid, ?_⟩
    rw [decode_char hhead, hdecode, List.drop_drop]
  | invalid bs n hhead =>
    rw [firstError_invalid hhead] at h
    cases h
  | incomplete bs hnil hhead =>
    rw [firstError_incomplete hnil hhead] at h
    obtain ⟨rfl, -⟩ := Utf8Error.mk.inj (Option.some.inj h)
    exact ⟨rfl, decode_incomplete hhead⟩

/-! ### Repair -/

/-- The loop of `from_utf8_lossy` over the chunks of `Utf8Chunks`. -/
def lossyBytes : ℕ → List UInt8 → List UInt8
  | 0, _ => []
  | fuel + 1, bs =>
    if bs = [] then []
    else
      match head bs with
      | .char n => bs.take n ++ lossyBytes fuel (bs.drop n)
      | .invalid n => replacement.bytes ++ lossyBytes fuel (bs.drop n)
      | .incomplete => replacement.bytes

/-- What stands for bytes that end inside a character. -/
def cutOff (held : List UInt8) : List UInt8 :=
  if held = [] then [] else replacement.bytes

/-- The loop keeps what the decoder puts out, and replaces what it holds back. -/
theorem lossyBytes_eq {fuel : ℕ} (h : bs.length ≤ fuel) :
    lossyBytes fuel bs = (decoder.decode bs).1 ++ cutOff (decoder.decode bs).2 := by
  induction fuel generalizing bs with
  | zero =>
    obtain rfl := List.length_eq_zero_iff.mp (Nat.le_zero.mp h)
    rfl
  | succ fuel ih =>
    rw [lossyBytes]
    split_ifs with hnil
    · rw [hnil]
      rfl
    cases hhead : head bs with
    | char n =>
      have := head_bounds (.inl hhead)
      dsimp only
      rw [decode_char hhead, ih (by rw [List.length_drop]; omega), List.append_assoc]
    | invalid n =>
      have := head_bounds (.inr hhead)
      dsimp only
      rw [decode_invalid hhead, ih (by rw [List.length_drop]; omega), List.append_assoc]
    | incomplete =>
      dsimp only
      rw [decode_incomplete hhead, cutOff, if_neg hnil, List.nil_append]

theorem wellformed_cutOff (held : List UInt8) : Wellformed (cutOff held) := by
  unfold cutOff
  split_ifs
  · rfl
  · exact replacement.valid

theorem wellformed_lossyBytes (bs : List UInt8) : Wellformed (lossyBytes bs.length bs) := by
  rw [lossyBytes_eq (Nat.le_refl _)]
  exact (wellformed_decode bs).append (wellformed_cutOff _)

/-- `String::from_utf8_lossy`. -/
def fromUtf8Lossy (bs : List UInt8) : Str :=
  ⟨lossyBytes bs.length bs, wellformed_lossyBytes bs⟩

/-- **The repaired text**: what the decoder puts out, then a replacement for what it holds back. -/
theorem fromUtf8Lossy_bytes (bs : List UInt8) :
    (fromUtf8Lossy bs).bytes = (decoder.decode bs).1 ++ cutOff (decoder.decode bs).2 :=
  lossyBytes_eq (Nat.le_refl _)

/-- **A text that was encoded is decoded as it was.** -/
theorem text_fromUtf8Lossy (cs : List Char) :
    (fromUtf8Lossy (cs.flatMap String.utf8EncodeChar)).text = String.ofList cs := by
  have hbytes : (fromUtf8Lossy (cs.flatMap String.utf8EncodeChar)).bytes
      = cs.flatMap String.utf8EncodeChar := by
    rw [fromUtf8Lossy_bytes, decode_of_wellformed (wellformed_iff.mpr ⟨cs, rfl⟩), cutOff,
      if_pos rfl, List.append_nil]
  exact String.toByteArray_inj.mp (congrArg List.toByteArray hbytes)

/-- An overlong form, a surrogate and a cut-off character: one replacement for each maximal part. -/
example : (fromUtf8Lossy [0x61, 0xC0, 0xED, 0xA0, 0xE8, 0xBE]).bytes
    = 0x61 :: (replacement.bytes ++ replacement.bytes ++ replacement.bytes ++
      replacement.bytes) := by
  decide

/-! ### Cutting a text -/

/-- `str::is_char_boundary`. -/
def Str.isCharBoundary (s : Str) (index : ℕ) : Bool :=
  index == 0 ||
    match s.bytes[index]? with
    | none => index == s.len
    | some b => b.toNat < 0x80 || 0xC0 ≤ b.toNat

/-- The bytes of a character after the first all go on a character. -/
theorem encode_continues {c : Char} {i : ℕ} {b : UInt8} (hi : i ≠ 0)
    (h : (String.utf8EncodeChar c)[i]? = some b) : 0x80 ≤ b.toNat ∧ b.toNat < 0xC0 := by
  have hsix : ∀ n : ℕ, 0x80 ≤ (UInt8.ofNat (n % 0x40 + 0x80)).toNat ∧
      (UInt8.ofNat (n % 0x40 + 0x80)).toNat < 0xC0 := by
    intro n
    rw [toNat_ofNat (by omega)]
    omega
  obtain ⟨i, rfl⟩ := Nat.exists_eq_succ_of_ne_zero hi
  have hmem : b ∈ (String.utf8EncodeChar c).tail := by
    refine List.mem_of_getElem? (i := i) ?_
    rw [List.getElem?_tail]
    exact h
  clear h
  unfold String.utf8EncodeChar at hmem
  dsimp only at hmem
  split_ifs at hmem
  all_goals simp only [List.tail_cons, List.mem_cons, List.not_mem_nil, or_false] at hmem
  · obtain rfl := hmem
    exact hsix _
  · rcases hmem with rfl | rfl
    · exact hsix _
    · exact hsix _
  · rcases hmem with rfl | rfl | rfl
    · exact hsix _
    · exact hsix _
    · exact hsix _

theorem Str.starts_of_isCharBoundary {s : Str} {n : ℕ} {b : UInt8}
    (h : s.isCharBoundary n = true) (hb : s.bytes[n]? = some b) :
    n = 0 ∨ b.toNat < 0x80 ∨ 0xC0 ≤ b.toNat := by
  rw [isCharBoundary, hb, Bool.or_eq_true, Bool.or_eq_true, beq_iff_eq, decide_eq_true_iff,
    decide_eq_true_iff] at h
  exact h

/-- Characters that are cut where no byte goes on a character. -/
theorem wellformed_drop_encoded {cs : List Char} {n : ℕ}
    (h : ∀ b, (cs.flatMap String.utf8EncodeChar)[n]? = some b →
      n = 0 ∨ b.toNat < 0x80 ∨ 0xC0 ≤ b.toNat) :
    Wellformed ((cs.flatMap String.utf8EncodeChar).drop n) := by
  induction cs generalizing n with
  | nil =>
    rw [List.flatMap_nil, List.drop_nil]
    rfl
  | cons c cs ih =>
    by_cases hn : n = 0
    · rw [hn, List.drop_zero]
      exact wellformed_iff.mpr ⟨c :: cs, rfl⟩
    rw [List.flatMap_cons] at h ⊢
    by_cases hin : n < (String.utf8EncodeChar c).length
    · have hb := List.getElem?_eq_getElem hin
      have hcontinues := encode_continues hn hb
      rw [List.getElem?_append_left hin] at h
      have := h _ hb
      omega
    · obtain ⟨k, rfl⟩ := Nat.exists_eq_add_of_le (Nat.le_of_not_lt hin)
      rw [List.getElem?_append_right (Nat.le_add_right _ _), Nat.add_sub_cancel_left] at h
      rw [List.drop_length_add_append]
      exact ih fun b hb => (h b hb).imp_left fun hzero => absurd hzero hn

/-- **A text that is cut at the start of a character is a text.** -/
theorem wellformed_drop {s : Str} {n : ℕ} (h : s.isCharBoundary n = true) :
    Wellformed (s.bytes.drop n) := by
  obtain ⟨cs, hcs⟩ := wellformed_iff.mp s.valid
  rw [hcs]
  refine wellformed_drop_encoded fun b hb => ?_
  rw [← hcs] at hb
  exact s.starts_of_isCharBoundary h hb

theorem Str.isCharBoundary_len (s : Str) : s.isCharBoundary s.len = true := by
  rw [isCharBoundary, len, List.getElem?_eq_none (Nat.le_refl _), beq_self_eq_true, Bool.or_true]

end Utf8
