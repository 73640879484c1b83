/-
# What repair leaves where it is

When bytes are repaired to be a text, the bytes below 128 stay in their order, and what stands
between two of them is replaced by something that has no such byte either (`Repaired`).  So a word
of such bytes is found in the repaired text exactly when it is in the bytes (`Repaired.infix_iff`),
and a line is cut at the same place (`Repaired.takeWhile`).
-/

import HelmSsh.Utf8.Strings

namespace Utf8

/-- The byte is a character of its own. -/
def IsAscii (b : UInt8) : Prop := b.toNat < 0x80

instance (b : UInt8) : Decidable (IsAscii b) :=
  inferInstanceAs (Decidable (_ < _))

/-! ### The bytes of a character that is not one byte -/

theorem tails_low {b : UInt8} {ranges : List (ℕ × ℕ)} (h : tails b = some ranges) :
    ∀ range ∈ ranges, 0x80 ≤ range.1 := by
  unfold tails at h
  split_ifs at h
  all_goals
    obtain rfl := Option.some.inj h
    decide

theorem matchTails_taken {seen : ℕ} {ranges : List (ℕ × ℕ)} {bs : List UInt8}
    (hlow : ∀ range ∈ ranges, 0x80 ≤ range.1) :
    (∀ n, matchTails seen ranges bs = .invalid n → ∀ b ∈ bs.take (n - seen), ¬ IsAscii b) ∧
      (∀ n, matchTails seen ranges bs = .char n → ∀ b ∈ bs.take (n - seen), ¬ IsAscii b) ∧
      (matchTails seen ranges bs = .incomplete → ∀ b ∈ bs, ¬ IsAscii b) := by
  induction ranges generalizing seen bs with
  | nil =>
    refine ⟨fun n h => ?_, fun n h b hb => ?_, fun h => ?_⟩
    · cases h
    · cases h
      rw [Nat.sub_self, List.take_zero] at hb
      cases hb
    · cases h
  | cons range ranges ih =>
    cases bs with
    | nil =>
      refine ⟨fun n h => ?_, fun n h => ?_, fun _ b hb => ?_⟩
      · cases h
      · cases h
      · cases hb
    | cons b bs =>
      have hrange := hlow range (List.mem_cons_self ..)
      have hrest := @ih (seen + 1) bs fun r hr => hlow r (List.mem_cons_of_mem _ hr)
      rw [matchTails]
      split
      · rename_i hin
        have hb : ¬ IsAscii b := fun h => by
          rw [IsAscii] at h
          omega
        have htake : ∀ n, seen + 1 ≤ n →
            (b :: bs).take (n - seen) = b :: bs.take (n - (seen + 1)) := by
          intro n hn
          have hsub : n - seen = (n - (seen + 1)) + 1 := by omega
          rw [hsub, List.take_succ_cons]
        obtain ⟨hinvalid, hchar, hincomplete⟩ := hrest
        refine ⟨fun n h => ?_, fun n h => ?_, fun h => ?_⟩
        · rw [htake n (matchTails_bounds (.inr h)).1]
          exact List.forall_mem_cons.mpr ⟨hb, hinvalid n h⟩
        · rw [htake n (matchTails_bounds (.inl h)).1]
          exact List.forall_mem_cons.mpr ⟨hb, hchar n h⟩
        · exact List.forall_mem_cons.mpr ⟨hb, hincomplete h⟩
      · refine ⟨fun n h b' hb' => ?_, fun n h => ?_, fun h => ?_⟩
        · obtain rfl := Head.invalid.inj h
          rw [Nat.sub_self, List.take_zero] at hb'
          cases hb'
        · cases h
        · cases h

theorem head_of_isAscii {b : UInt8} (bs : List UInt8) (h : IsAscii b) : head (b :: bs) = .char 1 :=
  head_of_tails bs (tails_one h)

/-- **What is taken off the front has no byte of its own**, if it does not start with one. -/
theorem head_taken {b : UInt8} (bs : List UInt8) (h : ¬ IsAscii b) :
    (∀ n, head (b :: bs) = .invalid n → ∀ c ∈ (b :: bs).take n, ¬ IsAscii c) ∧
      (∀ n, head (b :: bs) = .char n → ∀ c ∈ (b :: bs).take n, ¬ IsAscii c) ∧
      (head (b :: bs) = .incomplete → ∀ c ∈ b :: bs, ¬ IsAscii c) := by
  cases htails : tails b with
  | none =>
    rw [head_of_tails_none bs htails]
    refine ⟨fun n hn => ?_, fun n hn => ?_, fun hn => ?_⟩
    · obtain rfl := Head.invalid.inj hn
      exact List.forall_mem_cons.mpr ⟨h, fun c hc => absurd hc List.not_mem_nil⟩
    · cases hn
    · cases hn
  | some ranges =>
    obtain ⟨hinvalid, hchar, hincomplete⟩ :=
      @matchTails_taken 1 ranges bs (tails_low htails)
    have htake : ∀ n, 1 ≤ n → (b :: bs).take n = b :: bs.take (n - 1) := by
      intro n hn
      obtain ⟨n, rfl⟩ := Nat.exists_eq_add_of_le' hn
      rfl
    rw [head_of_tails bs htails]
    refine ⟨fun n hn => ?_, fun n hn => ?_, fun hn => ?_⟩
    · rw [htake n (matchTails_bounds (.inr hn)).1]
      exact List.forall_mem_cons.mpr ⟨h, hinvalid n hn⟩
    · rw [htake n (matchTails_bounds (.inl hn)).1]
      exact List.forall_mem_cons.mpr ⟨h, hchar n hn⟩
    · exact List.forall_mem_cons.mpr ⟨h, hincomplete hn⟩

/-! ### Repaired bytes -/

/-- Bytes, and what stands for them. -/
inductive Repaired : List UInt8 → List UInt8 → Prop
  | nil : Repaired [] []
  | ascii {b : UInt8} {bs shown : List UInt8} (hb : IsAscii b) (h : Repaired bs shown) :
    Repaired (b :: bs) (b :: shown)
  | piece {p q : UInt8} {piece put bs shown : List UInt8} (hpiece : ∀ b ∈ p :: piece, ¬ IsAscii b)
    (hput : ∀ b ∈ q :: put, ¬ IsAscii b) (h : Repaired bs shown) :
    Repaired (p :: piece ++ bs) (q :: put ++ shown)

theorem replacement_not_ascii : ∀ b ∈ replacement.bytes, ¬ IsAscii b := by
  have hall : (replacement.bytes.all fun b => 0x80 ≤ b.toNat) = true := by decide
  exact fun b hb => Nat.not_lt.mpr (of_decide_eq_true (List.all_eq_true.mp hall b hb))

/-- **The repaired bytes stand for the bytes.** -/
theorem repaired_fromUtf8Lossy (bs : List UInt8) : Repaired bs (fromUtf8Lossy bs).bytes := by
  rw [fromUtf8Lossy_bytes]
  induction bs using decoder.decode_induction with
  | none bs h =>
    rw [decoder.decode_none h, List.nil_append]
    cases bs with
    | nil => exact .nil
    | cons b rest =>
      replace h : next (b :: rest) = none := h
      have hincomplete : head (b :: rest) = .incomplete := by
        unfold next at h
        split at h
        · cases h
        · cases h
        · assumption
      have hb : ¬ IsAscii b := fun hb => by
        rw [head_of_isAscii rest hb] at hincomplete
        cases hincomplete
      have hall := (head_taken rest hb).2.2 hincomplete
      have hpiece := Repaired.piece hall replacement_not_ascii .nil
      rwa [List.append_nil, List.append_nil] at hpiece
  | some bs out rest h ih =>
    rw [decoder.decode_some h, List.append_assoc]
    replace h : next bs = some (out, rest) := h
    cases bs with
    | nil => cases h
    | cons b tail =>
      by_cases hb : IsAscii b
      · rw [next_char (head_of_isAscii tail hb)] at h
        obtain ⟨rfl, rfl⟩ := Prod.mk.inj (Option.some.inj h)
        exact .ascii hb ih
      · obtain ⟨hinvalid, hchar, -⟩ := head_taken tail hb
        cases hhead : head (b :: tail) with
        | char n =>
          rw [next_char hhead] at h
          obtain ⟨rfl, rfl⟩ := Prod.mk.inj (Option.some.inj h)
          have hall := hchar n hhead
          obtain ⟨n, rfl⟩ := Nat.exists_eq_add_of_le' (head_bounds (.inl hhead)).1
          have hpiece := Repaired.piece hall hall ih
          rwa [← List.take_succ_cons, List.take_append_drop] at hpiece
        | invalid n =>
          rw [next_invalid hhead] at h
          obtain ⟨rfl, rfl⟩ := Prod.mk.inj (Option.some.inj h)
          have hall := hinvalid n hhead
          obtain ⟨n, rfl⟩ := Nat.exists_eq_add_of_le' (head_bounds (.inr hhead)).1
          have hpiece := Repaired.piece hall replacement_not_ascii ih
          rwa [← List.take_succ_cons, List.take_append_drop] at hpiece
        | incomplete =>
          rw [next_incomplete hhead] at h
          cases h

namespace Repaired

variable {bs shown word : List UInt8} {stop : UInt8}

/-- **Cut at a byte of its own, both stay what they are to each other.** -/
theorem takeWhile (h : Repaired bs shown) (hstop : IsAscii stop) :
    Repaired (bs.takeWhile (· ≠ stop)) (shown.takeWhile (· ≠ stop)) := by
  induction h with
  | nil => exact .nil
  | @ascii b bs shown hb h ih =>
    rw [List.takeWhile_cons, List.takeWhile_cons]
    split_ifs
    · exact .ascii hb ih
    · exact .nil
  | @piece p q piece put bs shown hpiece hput h ih =>
    have hgo : ∀ {l : List UInt8}, (∀ b ∈ l, ¬ IsAscii b) → ∀ b ∈ l, decide (b ≠ stop) = true :=
      fun hl b hb => decide_eq_true fun heq => hl b hb (heq ▸ hstop)
    rw [List.takeWhile_append_of_pos (hgo hpiece), List.takeWhile_append_of_pos (hgo hput)]
    exact .piece hpiece hput ih

/-- A word does not start in what has none of its bytes. -/
theorem infix_skip {piece : List UInt8} (hpiece : ∀ b ∈ piece, ¬ IsAscii b)
    (hword : ∀ b ∈ word, IsAscii b) (hnil : word ≠ []) :
    word <:+: piece ++ bs ↔ word <:+: bs := by
  induction piece with
  | nil => rfl
  | cons p piece ih =>
    obtain ⟨hp, hrest⟩ := List.forall_mem_cons.mp hpiece
    obtain ⟨w, rest, rfl⟩ := List.exists_cons_of_ne_nil hnil
    rw [List.cons_append, List.infix_cons_iff, List.cons_prefix_cons, ih hrest, or_iff_right]
    rintro ⟨rfl, -⟩
    exact hp (hword w (List.mem_cons_self ..))

theorem prefix_iff (h : Repaired bs shown) (hword : ∀ b ∈ word, IsAscii b) :
    word <+: bs ↔ word <+: shown := by
  induction h generalizing word with
  | nil => rfl
  | @ascii b bs shown hb h ih =>
    cases word with
    | nil => exact iff_of_true List.nil_prefix List.nil_prefix
    | cons w word =>
      rw [List.cons_prefix_cons, List.cons_prefix_cons,
        ih fun b hb => hword b (List.mem_cons_of_mem _ hb)]
  | @piece p q piece put bs shown hpiece hput h ih =>
    have hfront : ∀ {first : UInt8} {rest : List UInt8}, ¬ IsAscii first → word ≠ [] →
        ¬ word <+: first :: rest := by
      rintro first rest hfirst hnil ⟨more, hmore⟩
      obtain ⟨w, word, rfl⟩ := List.exists_cons_of_ne_nil hnil
      obtain ⟨rfl, -⟩ := List.cons.inj hmore
      exact hfirst (hword w (List.mem_cons_self ..))
    by_cases hnil : word = []
    · rw [hnil]
      exact iff_of_true List.nil_prefix List.nil_prefix
    · exact iff_of_false (hfront (hpiece p (List.mem_cons_self ..)) hnil)
        (hfront (hput q (List.mem_cons_self ..)) hnil)

/-- **A word is found in the repaired bytes exactly when it is in the bytes.** -/
theorem infix_iff (h : Repaired bs shown) (hword : ∀ b ∈ word, IsAscii b) (hnil : word ≠ []) :
    word <:+: bs ↔ word <:+: shown := by
  induction h with
  | nil => rfl
  | @ascii b bs shown hb h ih =>
    rw [List.infix_cons_iff, List.infix_cons_iff, ih, (ascii hb h).prefix_iff hword]
  | @piece p q piece put bs shown hpiece hput h ih =>
    rw [infix_skip hpiece hword hnil, infix_skip hput hword hnil, ih]

end Repaired
end Utf8
