/-
# Times as texts

`now` of `src-tauri/src/config.rs` and its like store a time as `DateTime::to_rfc3339` writes it:
with as many digits of the second's fraction as it needs, none, three, six or nine, and the offset
`+00:00`.  Job eviction, the pruning of transfers and that of backup records sort these texts.

A time is given by its date and its time of day (`UtcTime`).  The texts of two times are in the
order of the times (`stamps_in_order`): where one fraction is shorter, the sign of the offset
meets the point or a digit of the other one, and is below both.  So the three that go by the texts
go by time (`oldestTerminal_by_time`, `prune_by_time` and `pruneBackupRecords_sorts_by_time`).
-/

import HelmSsh.FixedWidth
import HelmSsh.Api.JobCreation
import HelmSsh.Transfer.History
import HelmSsh.Vault.Operations

namespace HelmSsh
namespace Config

open FixedWidth

/-! ### The calendar -/

/-- A leap year. -/
def isLeapYear (year : ℕ) : Bool :=
  year % 4 = 0 && (year % 100 ≠ 0 || year % 400 = 0)

/-- The days of a year. -/
def daysInYear (year : ℕ) : ℕ :=
  if isLeapYear year then 366 else 365

/-- The days of a month, the first one being `1`. -/
def daysInMonth (year : ℕ) : ℕ → ℕ
  | 1 | 3 | 5 | 7 | 8 | 10 | 12 => 31
  | 4 | 6 | 9 | 11 => 30
  | 2 => if isLeapYear year then 29 else 28
  | _ => 0

/-- The days of the years before. -/
def daysBeforeYear : ℕ → ℕ
  | 0 => 0
  | year + 1 => daysBeforeYear year + daysInYear year

/-- The days of the months before. -/
def daysBeforeMonth (year : ℕ) : ℕ → ℕ
  | 0 => 0
  | month + 1 => daysBeforeMonth year month + daysInMonth year month

/-- A date and a time of day in UTC, with a year of four digits.  A second `60` is a leap second. -/
structure UtcTime where
  year : ℕ
  month : ℕ
  day : ℕ
  hour : ℕ
  minute : ℕ
  second : ℕ
  nano : ℕ
  year_lt : year < 10000
  month_pos : 0 < month
  month_le : month ≤ 12
  day_pos : 0 < day
  day_le : day ≤ daysInMonth year month
  hour_lt : hour < 24
  minute_lt : minute < 60
  second_le : second ≤ 60
  nano_lt : nano < 10 ^ 9

namespace UtcTime

variable (t : UtcTime)

/-- The days from the start of the year `0`. -/
def dayNumber : ℕ :=
  daysBeforeYear t.year + (daysBeforeMonth t.year t.month + (t.day - 1))

/-- The place of a time in the order of times: every minute has room for a leap second. -/
def instant : ℕ :=
  (((t.dayNumber * 24 + t.hour) * 60 + t.minute) * 61 + t.second) * 10 ^ 9 + t.nano

/-- The digits of the fraction of a second, as few groups of three as it needs. -/
def fraction (nano : ℕ) : List Char :=
  if nano = 0 then []
  else if nano % 10 ^ 6 = 0 then '.' :: digits 3 (nano / 10 ^ 6)
  else if nano % 10 ^ 3 = 0 then '.' :: digits 6 (nano / 10 ^ 3)
  else '.' :: digits 9 nano

/-- The offset of UTC. -/
def offset : List Char := ['+', '0', '0', ':', '0', '0']

/-- The characters of `to_rfc3339`. -/
def chars : List Char :=
  digits 4 t.year ++ '-' :: (digits 2 t.month ++ '-' :: (digits 2 t.day ++ 'T' ::
    (digits 2 t.hour ++ ':' :: (digits 2 t.minute ++ ':' :: (digits 2 t.second ++
      (fraction t.nano ++ offset))))))

/-- `to_rfc3339`. -/
def toRfc3339 : String := String.ofList t.chars

end UtcTime

/-! ### Counting days -/

/-- Parts that are counted one after the other: who is in an earlier part, or in the same one at an
earlier place, comes first. -/
theorem counted_lt_iff {f g : ℕ → ℕ} (hf : ∀ n, f (n + 1) = f n + g n) {n m x y : ℕ}
    (hx : x < g n) (hy : y < g m) : f n + x < f m + y ↔ n < m ∨ n = m ∧ x < y := by
  have hmono : ∀ {n m}, n < m → f n + g n ≤ f m := by
    intro n m hless
    rw [← hf]
    induction hless with
    | refl => exact Nat.le_refl _
    | step _ ih => exact Nat.le_trans ih (by rw [hf]; exact Nat.le_add_right _ _)
  rcases Nat.lt_trichotomy n m with h | rfl | h
  · have hstep := hmono h
    omega
  · omega
  · have hstep := hmono h
    omega

theorem daysBeforeMonth_thirteen (year : ℕ) : daysBeforeMonth year 13 = daysInYear year := by
  simp only [daysBeforeMonth, daysInMonth, daysInYear]
  split_ifs <;> rfl

theorem daysBeforeMonth_add_lt {year month day : ℕ} (hmonth : month ≤ 12)
    (hday : day < daysInMonth year month) : daysBeforeMonth year month + day < daysInYear year := by
  have hmono : ∀ {n m}, n ≤ m → daysBeforeMonth year n ≤ daysBeforeMonth year m := by
    intro n m hle
    induction hle with
    | refl => exact Nat.le_refl _
    | step _ ih => exact Nat.le_trans ih (Nat.le_add_right _ _)
  have hnext : daysBeforeMonth year (month + 1) ≤ daysBeforeMonth year 13 :=
    hmono (Nat.succ_le_succ hmonth)
  rw [daysBeforeMonth, daysBeforeMonth_thirteen] at hnext
  omega

namespace UtcTime

variable {a b : UtcTime}

theorem day_pred_lt (t : UtcTime) : t.day - 1 < daysInMonth t.year t.month := by
  have hpos := t.day_pos
  have hle := t.day_le
  omega

/-- Days are in the order of years, months and days of the month. -/
theorem dayNumber_lt_iff : a.dayNumber < b.dayNumber ↔
    a.year < b.year ∨ a.year = b.year ∧
      (a.month < b.month ∨ a.month = b.month ∧ a.day < b.day) := by
  rw [dayNumber, dayNumber, counted_lt_iff (f := daysBeforeYear) (g := daysInYear) (fun _ => rfl)
    (daysBeforeMonth_add_lt a.month_le a.day_pred_lt)
    (daysBeforeMonth_add_lt b.month_le b.day_pred_lt)]
  refine or_congr_right (and_congr_right fun hyear => ?_)
  have hb := b.day_pred_lt
  rw [← hyear] at hb ⊢
  rw [counted_lt_iff (f := daysBeforeMonth a.year) (g := daysInMonth a.year) (fun _ => rfl)
    a.day_pred_lt hb]
  have hapos := a.day_pos
  have hbpos := b.day_pos
  omega

theorem dayNumber_eq_iff : a.dayNumber = b.dayNumber ↔
    a.year = b.year ∧ a.month = b.month ∧ a.day = b.day := by
  have hlt := dayNumber_lt_iff (a := a) (b := b)
  have hgt := dayNumber_lt_iff (a := b) (b := a)
  omega

/-- Times are in the order of their days and times of day. -/
theorem instant_lt_iff : a.instant < b.instant ↔
    a.dayNumber < b.dayNumber ∨ a.dayNumber = b.dayNumber ∧ (a.hour < b.hour ∨
      a.hour = b.hour ∧ (a.minute < b.minute ∨ a.minute = b.minute ∧
        (a.second < b.second ∨ a.second = b.second ∧ a.nano < b.nano))) := by
  have ha := a.hour_lt
  have hb := b.hour_lt
  have ha' := a.minute_lt
  have hb' := b.minute_lt
  have has := a.second_le
  have hbs := b.second_le
  have han := a.nano_lt
  have hbn := b.nano_lt
  rw [instant, instant]
  omega

/-! ### The order of the texts -/

/-- A longer fraction is a longer part of the same nine digits. -/
theorem fraction_eq {nano : ℕ} (h : nano ≠ 0) : ∃ k, fraction nano = '.' :: (digits 9 nano).take k ∧
    ∀ c ∈ (digits 9 nano).drop k, c = '0' := by
  rw [fraction, if_neg h]
  have hsix := digits_add 3 6 nano
  have hthree := digits_add 6 3 nano
  split_ifs with hmillis hmicros
  · refine ⟨3, ?_, ?_⟩
    · rw [hsix, List.take_left' (length_digits _ _)]
    · rw [hsix, List.drop_left' (length_digits _ _)]
      exact fun c hc => eq_zero_of_mem_digits hmillis hc
  · refine ⟨6, ?_, ?_⟩
    · rw [hthree, List.take_left' (length_digits _ _)]
    · rw [hthree, List.drop_left' (length_digits _ _)]
      exact fun c hc => eq_zero_of_mem_digits hmicros hc
  · refine ⟨9, ?_, ?_⟩
    · rw [List.take_of_length_le (by simp)]
    · rw [List.drop_of_length_le (by simp)]
      exact fun c hc => absurd hc List.not_mem_nil

/-- A smaller fraction comes first, whatever the lengths: the sign of the offset is below the point
and below the digits. -/
theorem fraction_lt {n m : ℕ} (hn : n < 10 ^ 9) (hm : m < 10 ^ 9) (h : n < m) :
    fraction n ++ offset < fraction m ++ offset := by
  obtain ⟨k', hm', hmk⟩ := fraction_eq (Nat.ne_of_gt (Nat.zero_lt_of_lt h))
  rw [hm']
  by_cases hzero : n = 0
  · subst hzero
    exact List.cons_lt_cons_iff.mpr (Or.inl (by decide))
  · obtain ⟨k, hn', hnk⟩ := fraction_eq hzero
    rw [hn', List.cons_append, List.cons_append, List.cons_lt_cons_iff]
    refine Or.inr ⟨rfl, ?_⟩
    exact cut_lt_cut (by decide) (by simp) (fun c hc => zero_le_of_mem_digits hc)
      (fun c hc => zero_le_of_mem_digits hc) hnk hmk ((digits_lt_iff hn hm).mpr h)

/-- Fractions, with the offset behind them, are in the order of the nanoseconds. -/
theorem fraction_lt_iff {n m : ℕ} (hn : n < 10 ^ 9) (hm : m < 10 ^ 9) :
    fraction n ++ offset < fraction m ++ offset ↔ n < m := by
  refine ⟨fun h => ?_, fraction_lt hn hm⟩
  rcases Nat.lt_trichotomy n m with hless | rfl | hless
  · exact hless
  · exact absurd h (List.lt_irrefl _)
  · exact absurd (List.lt_trans h (fraction_lt hm hn hless)) (List.lt_irrefl _)

theorem cons_lt_cons_same {c : Char} {s t : List Char} : c :: s < c :: t ↔ s < t :=
  List.cons_lt_cons_self

/-- The texts are in the order of the dates and times of day. -/
theorem chars_lt_iff : a.chars < b.chars ↔
    a.year < b.year ∨ a.year = b.year ∧ (a.month < b.month ∨ a.month = b.month ∧
      (a.day < b.day ∨ a.day = b.day ∧ (a.hour < b.hour ∨ a.hour = b.hour ∧
        (a.minute < b.minute ∨ a.minute = b.minute ∧
          (a.second < b.second ∨ a.second = b.second ∧ a.nano < b.nano))))) := by
  have hmonth : ∀ t : UtcTime, t.month < 10 ^ 2 := fun t => by have := t.month_le; omega
  have hday : ∀ t : UtcTime, t.day < 10 ^ 2 := by
    intro t
    have hle := t.day_le
    have hall : daysInMonth t.year t.month ≤ 31 := by
      unfold daysInMonth
      split <;> first | omega | (split_ifs <;> omega)
    omega
  have hhour : ∀ t : UtcTime, t.hour < 10 ^ 2 := fun t => by have := t.hour_lt; omega
  have hminute : ∀ t : UtcTime, t.minute < 10 ^ 2 := fun t => by have := t.minute_lt; omega
  have hsecond : ∀ t : UtcTime, t.second < 10 ^ 2 := fun t => by have := t.second_le; omega
  rw [chars, chars, digits_append_lt_iff a.year_lt b.year_lt, cons_lt_cons_same,
    digits_append_lt_iff (hmonth a) (hmonth b), cons_lt_cons_same,
    digits_append_lt_iff (hday a) (hday b), cons_lt_cons_same,
    digits_append_lt_iff (hhour a) (hhour b), cons_lt_cons_same,
    digits_append_lt_iff (hminute a) (hminute b), cons_lt_cons_same,
    digits_append_lt_iff (hsecond a) (hsecond b), fraction_lt_iff a.nano_lt b.nano_lt]

/-- **The texts of times are in the order of the times.** -/
theorem toRfc3339_lt_iff (a b : UtcTime) : a.toRfc3339 < b.toRfc3339 ↔ a.instant < b.instant := by
  rw [String.lt_iff, toRfc3339, toRfc3339, String.toList_ofList, String.toList_ofList,
    chars_lt_iff, instant_lt_iff, dayNumber_lt_iff, dayNumber_eq_iff]
  omega

theorem toRfc3339_le_iff (a b : UtcTime) :
    a.toRfc3339 ≤ b.toRfc3339 ↔ a.instant ≤ b.instant := by
  rw [← String.not_lt, toRfc3339_lt_iff, Nat.not_lt]

/-- **The texts of times are in the order of the times**, so that among records the one with the
least text is the oldest one, and the one with the greatest text the newest one. -/
theorem stamps_in_order : (∀ a b : UtcTime, a.toRfc3339 < b.toRfc3339 ↔ a.instant < b.instant) ∧
    ∀ (times : List UtcTime) (t : UtcTime),
      ((∀ r ∈ times, t.toRfc3339 ≤ r.toRfc3339) ↔ ∀ r ∈ times, t.instant ≤ r.instant) ∧
      ((∀ r ∈ times, r.toRfc3339 ≤ t.toRfc3339) ↔ ∀ r ∈ times, r.instant ≤ t.instant) := by
  refine ⟨toRfc3339_lt_iff, fun times t => ⟨?_, ?_⟩⟩
  · exact forall₂_congr fun r _ => toRfc3339_le_iff t r
  · exact forall₂_congr fun r _ => toRfc3339_le_iff r t

end UtcTime

/-- **The backup records that are kept stand by time, the newest first**, whatever their order
was. -/
theorem pruneBackupRecords_sorts_by_time (env : Vault.Env) (data : VaultData)
    (time : BackupRecord → UtcTime)
    (hstored : ∀ record ∈ data.backupRecords, record.createdAt = (time record).toRfc3339) :
    (Vault.pruneBackupRecords env data).backupRecords.Pairwise
      fun left right => (time right).instant ≤ (time left).instant := by
  have hsorted := List.pairwise_insertionSort
    (fun left right : BackupRecord => right.createdAt ≤ left.createdAt) data.backupRecords
  refine (hsorted.sublist List.filter_sublist).imp_of_mem ?_
  intro left right hleft hright hle
  have hmem : ∀ {record}, record ∈ (Vault.pruneBackupRecords env data).backupRecords →
      record ∈ data.backupRecords :=
    fun h => (List.mem_insertionSort _).mp (List.mem_of_mem_filter h)
  rw [hstored left (hmem hleft), hstored right (hmem hright)] at hle
  exact UtcTime.toRfc3339_le_iff _ _ |>.mp hle

open Api.JobRegistry in
/-- **The job that `evict_oldest_terminal` takes** has ended, and none that has ended is older. -/
theorem oldestTerminal_by_time {jobs : Jobs} {oldest : ℕ × String} (time : ℕ × Job → UtcTime)
    (hstored : ∀ entry ∈ jobs, entry.2.createdAt = (time entry).toRfc3339)
    (holdest : jobs.oldestTerminal = some oldest) :
    ∃ entry ∈ jobs, entry.1 = oldest.1 ∧ entry.2.isTerminal = true ∧
      ∀ other ∈ jobs, other.2.isTerminal = true →
        (time entry).instant ≤ (time other).instant := by
  obtain hnone | ⟨entry, hentry, hid, hcreated, hterminal⟩ := Jobs.mem_of_foldl_candidate holdest
  · cases hnone
  refine ⟨entry, hentry, hid, hterminal, fun other hother hended => ?_⟩
  have hle := (Jobs.foldl_candidate_le holdest).2 other hother hended
  rw [← hcreated, hstored entry hentry, hstored other hother] at hle
  exact UtcTime.toRfc3339_le_iff _ _ |>.mp hle

open Transfer.History in
/-- **The records that `prune_transfer_history` removes** are the oldest of the finished ones. -/
theorem prune_by_time {s : State} {order : List TransferRecord} (time : TransferRecord → UtcTime)
    (hstored : ∀ r ∈ s.transfers, r.info.updatedAt = (time r).toRfc3339)
    (hprune : s.Enabled (.prune order)) :
    ∀ removed ∈ order.take (pruneCount s.transfers),
      ∀ kept ∈ order.drop (pruneCount s.transfers),
        (time removed).instant ≤ (time kept).instant := by
  obtain ⟨hperm, hsorted⟩ := hprune
  intro removed hremoved kept hkept
  have hmem : ∀ {r}, r ∈ order → r ∈ s.transfers :=
    fun h => List.mem_of_mem_filter (hperm.mem_iff.mp h)
  rw [← List.take_append_drop (pruneCount s.transfers) order] at hsorted
  have hle := (List.pairwise_append.mp hsorted).2.2 removed hremoved kept hkept
  rw [hstored _ (hmem (List.mem_of_mem_take hremoved)),
    hstored _ (hmem (List.mem_of_mem_drop hkept))] at hle
  exact UtcTime.toRfc3339_le_iff _ _ |>.mp hle

end Config
end HelmSsh
