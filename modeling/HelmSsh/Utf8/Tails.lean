/-
# The tail of a text within a limit

What is kept of a text when only so many bytes of its end may be: the longest tail that starts
at a character boundary (`Str.IsTail`).

* `leastBoundary_dropContinuations` — dropping the bytes that go on a character finds the next
  boundary, as the loop over the indices does (`leastBoundary_boundaryFrom`).
* `Str.IsTail.push`, `Str.isTail_of_long` — the tail of a longer text from the tail of a shorter
  one, or from what was added alone when that fills the limit.
* `Str.IsTail.eq_iff` — the tail is the whole text when that is within the limit.
-/

import HelmSsh.Utf8.Strings

namespace Utf8

/-- The byte goes on a character: its upper two bits are `10`. -/
def isContinuation (b : UInt8) : Bool :=
  b &&& 0xC0 == 0x80

theorem isContinuation_iff (b : UInt8) :
    isContinuation b = true ↔ 0x80 ≤ b.toNat ∧ b.toNat < 0xC0 := by
  have hall : ∀ n : Fin 256, isContinuation (UInt8.ofNat n) = true ↔
      0x80 ≤ (n : ℕ) ∧ (n : ℕ) < 0xC0 := by decide +kernel
  have hb := hall ⟨b.toNat, b.toNat_lt⟩
  rwa [UInt8.ofNat_toNat] at hb

namespace Str

variable {s whole more : Str} {limit index n m : ℕ} {kept : List UInt8}

theorem isCharBoundary_le (h : s.isCharBoundary n = true) : n ≤ s.len := by
  by_contra hlt
  have hnone : s.bytes[n]? = none := List.getElem?_eq_none (by rw [len] at hlt; omega)
  rw [isCharBoundary, hnone, Bool.or_eq_true, beq_iff_eq, beq_iff_eq] at h
  omega

theorem isCharBoundary_iff {b : UInt8} (hb : s.bytes[n]? = some b) (hn : n ≠ 0) :
    s.isCharBoundary n = true ↔ isContinuation b = false := by
  have hzero : (n == 0) = false := beq_eq_false_iff_ne.mpr hn
  rw [isCharBoundary, hb, hzero, Bool.false_or, ← Bool.not_eq_true, isContinuation_iff,
    Bool.or_eq_true, decide_eq_true_iff, decide_eq_true_iff]
  omega

theorem head_not_continuation {b : UInt8} (hb : s.bytes[0]? = some b) :
    isContinuation b = false := by
  rw [← Bool.not_eq_true, isContinuation_iff]
  intro hcontinues
  obtain ⟨b', rest, hbytes⟩ := List.exists_cons_of_ne_nil (l := s.bytes) fun hnil => by
    rw [hnil] at hb
    cases hb
  obtain rfl : b' = b := by
    rw [hbytes] at hb
    exact Option.some_inj.mp hb
  have hinvalid := head_of_tails_none rest (tails_none (Or.inl ⟨hcontinues.1, by omega⟩))
  have hvalid := s.valid
  rw [hbytes, Wellformed, firstError_invalid hinvalid] at hvalid
  cases hvalid

/-! ### Boundaries of two texts together -/

theorem isCharBoundary_of_append (hn : n ≤ whole.len)
    (h : (whole ++ more).isCharBoundary n = true) : whole.isCharBoundary n = true := by
  rcases Nat.lt_or_eq_of_le hn with hlt | rfl
  · by_cases hzero : n = 0
    · subst hzero
      rfl
    · have hb : whole.bytes[n]? = some whole.bytes[n] := List.getElem?_eq_getElem hlt
      have hb' : (whole ++ more).bytes[n]? = some whole.bytes[n] := by
        rw [append_bytes, List.getElem?_append_left hlt, hb]
      rw [isCharBoundary_iff hb hzero]
      exact (isCharBoundary_iff hb' hzero).mp h
  · exact whole.isCharBoundary_len

/-- The boundaries of the second text are boundaries of both together. -/
theorem isCharBoundary_append (whole more : Str) (n : ℕ) :
    (whole ++ more).isCharBoundary (whole.len + n) = true ↔ more.isCharBoundary n = true := by
  have hget : (whole ++ more).bytes[whole.len + n]? = more.bytes[n]? := by
    have hright : whole.bytes.length ≤ whole.len + n := Nat.le_add_right ..
    rw [append_bytes, List.getElem?_append_right hright]
    exact congrArg (more.bytes[·]?) (Nat.add_sub_cancel_left ..)
  cases hb : more.bytes[n]? with
  | none =>
    have hlen : (whole ++ more).len = whole.len + more.len := List.length_append
    rw [isCharBoundary, isCharBoundary, hget, hb, hlen]
    have hout : more.len ≤ n := List.getElem?_eq_none_iff.mp hb
    simp only [Bool.or_eq_true, beq_iff_eq]
    omega
  | some b =>
    rw [hb] at hget
    by_cases hzero : n = 0
    · subst hzero
      refine iff_of_true ?_ rfl
      by_cases hwhole : whole.len + 0 = 0
      · rw [hwhole]
        rfl
      · exact (isCharBoundary_iff hget hwhole).mpr (head_not_continuation hb)
    · rw [isCharBoundary_iff hget (by omega), isCharBoundary_iff hb hzero]

/-- A boundary of the first text is one of both together. -/
theorem isCharBoundary_append_left (more : Str) (h : whole.isCharBoundary n = true) :
    (whole ++ more).isCharBoundary n = true := by
  rcases Nat.lt_or_eq_of_le (isCharBoundary_le h) with hlt | rfl
  · by_cases hzero : n = 0
    · subst hzero
      rfl
    · have hb : whole.bytes[n]? = some whole.bytes[n] := List.getElem?_eq_getElem hlt
      have hb' : (whole ++ more).bytes[n]? = some whole.bytes[n] := by
        rw [append_bytes, List.getElem?_append_left hlt, hb]
      exact (isCharBoundary_iff hb' hzero).mpr ((isCharBoundary_iff hb hzero).mp h)
  · exact (isCharBoundary_append whole more 0).mpr rfl

/-! ### The next boundary -/

/-- The first boundary from an index on. -/
structure LeastBoundary (s : Str) (index m : ℕ) : Prop where
  boundary : s.isCharBoundary m = true
  from_le : index ≤ m
  least : ∀ j, index ≤ j → s.isCharBoundary j = true → m ≤ j

/-- The loop `while index < len && !is_char_boundary(index) { index += 1 }`. -/
def boundaryFrom (s : Str) : ℕ → ℕ → ℕ
  | 0, index => index
  | fuel + 1, index =>
    if index < s.len ∧ ¬ s.isCharBoundary index then boundaryFrom s fuel (index + 1) else index

theorem leastBoundary_boundaryFrom (fuel index : ℕ) (hle : index ≤ s.len)
    (hfuel : s.len ≤ index + fuel) : LeastBoundary s index (boundaryFrom s fuel index) := by
  induction fuel generalizing index with
  | zero =>
    obtain rfl : index = s.len := by omega
    exact ⟨s.isCharBoundary_len, Nat.le_refl _, fun _ hj _ => hj⟩
  | succ fuel ih =>
    rw [boundaryFrom]
    split_ifs with hgo
    · obtain ⟨hboundary, hfrom, hleast⟩ := ih (index + 1) (by omega) (by omega)
      refine ⟨hboundary, by omega, fun j hj hjb => hleast j ?_ hjb⟩
      rcases Nat.lt_or_eq_of_le hj with hlt | rfl
      · exact hlt
      · exact absurd hjb hgo.2
    · refine ⟨?_, Nat.le_refl _, fun _ hj _ => hj⟩
      by_contra hboundary
      obtain rfl : index = s.len := by
        have : ¬ index < s.len := fun hlt => hgo ⟨hlt, hboundary⟩
        omega
      exact hboundary s.isCharBoundary_len

/-- Dropping the bytes that go on a character finds the next boundary. -/
theorem leastBoundary_dropContinuations (s : Str) (index : ℕ) (hle : index ≤ s.len) :
    ∃ m, LeastBoundary s index m ∧
      (s.bytes.drop index).dropWhile isContinuation = s.bytes.drop m := by
  induction hrest : s.len - index generalizing index with
  | zero =>
    obtain rfl : index = s.len := by omega
    refine ⟨s.len, ⟨s.isCharBoundary_len, Nat.le_refl _, fun _ hj _ => hj⟩, ?_⟩
    rw [len, List.drop_length]
    rfl
  | succ rest ih =>
    have hlt : index < s.bytes.length := by
      rw [len] at hrest
      omega
    have hb : s.bytes[index]? = some s.bytes[index] := List.getElem?_eq_getElem hlt
    rw [List.drop_eq_getElem_cons hlt, List.dropWhile_cons]
    split_ifs with hcontinues
    · obtain ⟨m, ⟨hboundary, hfrom, hleast⟩, hdrop⟩ := ih (index + 1) hlt (by omega)
      refine ⟨m, ⟨hboundary, by omega, fun j hj hjb => hleast j ?_ hjb⟩, hdrop⟩
      rcases Nat.lt_or_eq_of_le hj with hlt | rfl
      · exact hlt
      · by_cases hzero : index = 0
        · subst hzero
          exact absurd (hcontinues.symm.trans (head_not_continuation hb)) (by decide)
        · exact absurd (hcontinues.symm.trans ((isCharBoundary_iff hb hzero).mp hjb)) (by decide)
    · refine ⟨index, ⟨?_, Nat.le_refl _, fun _ hj _ => hj⟩, (List.drop_eq_getElem_cons hlt).symm⟩
      by_cases hzero : index = 0
      · subst hzero
        rfl
      · exact (isCharBoundary_iff hb hzero).mpr (Bool.not_eq_true _ ▸ hcontinues)

/-! ### The tail within a limit -/

/-- The longest tail of a text that starts at a character boundary and has at most `limit`
bytes. -/
def IsTail (limit : ℕ) (whole : Str) (kept : List UInt8) : Prop :=
  ∃ index, whole.isCharBoundary index = true ∧ kept = whole.bytes.drop index ∧
    kept.length ≤ limit ∧
    ∀ j, whole.isCharBoundary j = true → (whole.bytes.drop j).length ≤ limit → index ≤ j

/-- The next boundary after what is over the limit starts the tail. -/
theorem LeastBoundary.isTail (h : LeastBoundary whole index m)
    (hindex : whole.len - limit ≤ index)
    (hleast : ∀ j, whole.isCharBoundary j = true → whole.len - j ≤ limit → index ≤ j) :
    IsTail limit whole (whole.bytes.drop m) := by
  refine ⟨m, h.boundary, rfl, ?_, fun j hj hlen => h.least j (hleast j hj ?_) hj⟩
  · have := h.from_le
    rw [List.length_drop]
    change whole.len - m ≤ limit
    omega
  · rwa [List.length_drop] at hlen

theorem IsTail.wellformed (h : IsTail limit whole kept) : Wellformed kept := by
  obtain ⟨index, hboundary, rfl, -, -⟩ := h
  exact wellformed_drop hboundary

theorem isTail_self (h : whole.len ≤ limit) : IsTail limit whole whole.bytes :=
  ⟨0, rfl, List.drop_zero.symm, h, fun _ _ _ => Nat.zero_le _⟩

theorem IsTail.unique {kept' : List UInt8} (h : IsTail limit whole kept)
    (h' : IsTail limit whole kept') : kept = kept' := by
  obtain ⟨i, hi, rfl, hlen, hleast⟩ := h
  obtain ⟨j, hj, rfl, hlen', hleast'⟩ := h'
  rw [Nat.le_antisymm (hleast j hj hlen') (hleast' i hi hlen)]

/-- **The tail is the whole text when that is within the limit**, and only then. -/
theorem IsTail.eq_iff (h : IsTail limit whole kept) : kept = whole.bytes ↔ whole.len ≤ limit := by
  constructor
  · rintro rfl
    obtain ⟨-, -, -, hlen, -⟩ := h
    exact hlen
  · exact fun hle => h.unique (isTail_self hle)

/-- **What is added within the limit makes the tail longer.** -/
theorem IsTail.extend (h : IsTail limit whole kept) (hlen : kept.length + more.len ≤ limit) :
    IsTail limit (whole ++ more) (kept ++ more.bytes) := by
  obtain ⟨index, hboundary, rfl, hkept, hleast⟩ := h
  have hle := isCharBoundary_le hboundary
  refine ⟨index, isCharBoundary_append_left more hboundary, ?_, ?_, fun j hj hjlen => ?_⟩
  · rw [append_bytes, List.drop_append_of_le_length hle]
  · rw [List.length_append]
    exact hlen
  · by_cases hin : j ≤ whole.len
    · refine hleast j (isCharBoundary_of_append hin hj) ?_
      rw [append_bytes, List.length_drop, List.length_append] at hjlen
      rw [List.length_drop]
      omega
    · omega

/-- **What is added beyond the limit is cut off at the front**, up to the next boundary. -/
theorem IsTail.push (h : IsTail limit whole kept) (hlong : limit ≤ kept.length + more.len) :
    IsTail limit (whole ++ more)
      (((kept ++ more.bytes).drop (kept.length + more.len - limit)).dropWhile
        isContinuation) := by
  obtain ⟨index, hboundary, rfl, hkept, hleast⟩ := h
  have hle := isCharBoundary_le hboundary
  have hlen : (whole ++ more).len = whole.len + more.len := List.length_append
  have hkeptLen : (whole.bytes.drop index).length = whole.len - index := List.length_drop
  obtain ⟨m, hm, hdrop⟩ := leastBoundary_dropContinuations (whole ++ more)
    (index + (whole.len - index + more.len - limit)) (by omega)
  have htail : IsTail limit (whole ++ more) ((whole ++ more).bytes.drop m) :=
    hm.isTail (by omega) fun j _ hj => by omega
  rw [hkeptLen, ← List.drop_append_of_le_length hle, ← append_bytes, List.drop_drop, hdrop]
  exact htail

/-- **What fills the limit alone leaves nothing of what was there before.** -/
theorem isTail_of_long (whole : Str) (hlong : limit ≤ more.len)
    (hm : LeastBoundary more (more.len - limit) m) :
    IsTail limit (whole ++ more) (more.bytes.drop m) := by
  have hlen : (whole ++ more).len = whole.len + more.len := List.length_append
  have hboth : LeastBoundary (whole ++ more) (whole.len + (more.len - limit)) (whole.len + m) := by
    refine ⟨(isCharBoundary_append whole more m).mpr hm.boundary,
      Nat.add_le_add_left hm.from_le _, fun j hj hjb => ?_⟩
    obtain ⟨k, rfl⟩ := Nat.exists_eq_add_of_le (Nat.le_of_add_right_le hj)
    have hk := hm.least k (by omega) ((isCharBoundary_append whole more k).mp hjb)
    omega
  have htail : IsTail limit (whole ++ more) ((whole ++ more).bytes.drop (whole.len + m)) :=
    hboth.isTail (by omega) fun j _ hj => by omega
  have hdrop : (whole ++ more).bytes.drop (whole.len + m) = more.bytes.drop m := by
    rw [append_bytes]
    exact List.drop_length_add_append m
  rwa [hdrop] at htail

end Str
end Utf8
