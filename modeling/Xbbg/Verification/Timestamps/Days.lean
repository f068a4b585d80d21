import Xbbg.Verification.Timestamps.Civil

/-! # The days of dates

Dates of the SDK are decoded to the days of the calendar, and these are written as the same dates;
no operation of either conversion overflows. -/

namespace Xbbg.Timestamps

open Library

variable {x : ℤ}

theorem bind_i64 {β : Type} (f : ℤ → Option β) (hl : -9223372036854775808 ≤ x)
    (hu : x < 9223372036854775808) : (i64 x >>= f) = f x := by
  rw [i64, if_pos ⟨hl, hu⟩]
  rfl

theorem bind_u32 {β : Type} (f : ℤ → Option β) (hl : 0 ≤ x) (hu : x < 4294967296) :
    (u32 x >>= f) = f x := by
  rw [u32, if_pos ⟨hl, hu⟩]
  rfl

theorem i64_of_fits (hl : -9223372036854775808 ≤ x)
    (hu : x < 9223372036854775808) : i64 x = some x :=
  if_pos ⟨hl, hu⟩

variable {date : CivilDate}

theorem civilFromDaysChecked_eq {days : ℤ} (h : -1000000000 < days ∧ days < 1000000000) :
    civilFromDaysChecked days = some (civilFromDays days) := by
  unfold civilFromDaysChecked civilFromDays
  rw [bind_i64 _ (by omega) (by omega), bind_i64 _ (by split <;> omega) (by split <;> omega)]
  dsimp only
  rw [era_eq]
  generalize hera : (days + 719468) / 146097 = era
  rw [bind_i64 _ (by omega) (by omega), bind_i64 _ (by omega) (by omega)]
  generalize hdoe : days + 719468 - era * 146097 = doe
  have hd : 0 ≤ doe ∧ doe < 146097 := by omega
  simp only [Int.tdiv_eq_ediv_of_nonneg hd.1]
  simp (disch := omega) only [↓bind_i64]
  rw [Int.tdiv_eq_ediv_of_nonneg (a := doe - doe / 1460 + doe / 36524 - doe / 146096) (by omega)]
  obtain ⟨hy, hs, -⟩ := yearOfEra_spec hd
  unfold yearStart at hs
  unfold yearOfEra at hy hs
  generalize (doe - doe / 1460 + doe / 36524 - doe / 146096) / 365 = yoe at hy hs ⊢
  simp only [Int.tdiv_eq_ediv_of_nonneg hy.1]
  simp (disch := omega) only [↓bind_i64]
  generalize hdoy : doe - (365 * yoe + yoe / 4 - yoe / 100) = doy
  have hn : 0 ≤ doy ∧ doy < 146097 := by omega
  rw [Int.tdiv_eq_ediv_of_nonneg (a := 5 * doy + 2) (by omega)]
  generalize hmp : (5 * doy + 2) / 153 = mp
  have hmo : -9 ≤ mp + (if mp < 10 then 3 else -9) ∧ mp + (if mp < 10 then 3 else -9) < 146097 := by
    split <;> omega
  generalize mp + (if mp < 10 then 3 else -9) = month at hmo ⊢
  simp (disch := omega) only [↓bind_i64]
  rw [Int.tdiv_eq_ediv_of_nonneg (by omega)]
  simp (disch := omega) only [↓bind_i64]

section

variable (h : 0 ≤ date.year ∧ date.year ≤ 65535)
include h

theorem daysFromYmd_eq : daysFromYmd date.year date.month date.day = some date.toDays := by
  have hm := date.month_mem
  have hd : 1 ≤ date.day ∧ date.day ≤ 31 :=
    ⟨date.day_mem.1, Nat.le_trans date.day_mem.2 (daysInMonth_le _ _ hm.2)⟩
  unfold daysFromYmd
  generalize hy : date.year - (if (date.month : ℤ) ≤ 2 then (1 : ℤ) else 0) = y
  generalize hmp : (if (date.month : ℤ) > 2 then (date.month : ℤ) - 3 else date.month + 9) = mp
  have hyb : -1 ≤ y ∧ y ≤ 65535 := by omega
  have hmb : 0 ≤ mp ∧ mp ≤ 11 := by omega
  simp (disch := omega) only [bind_i64, bind_u32]
  rw [i64_of_fits (by omega) (by omega)]
  congr 1
  have hs := daysBeforeYear_of_era (y / 400) (show 0 ≤ y % 400 ∧ y % 400 < 400 by omega)
  rw [show y % 400 + y / 400 * 400 + 1 = y + 1 by omega] at hs
  unfold CivilDate.toDays
  unfold yearStart at hs
  by_cases hmo : date.month ≤ 2
  · rw [show y + 1 = date.year by omega] at hs
    obtain hm | hm : date.month = 1 ∨ date.month = 2 := by omega
    · have hb : daysBeforeMonth (isLeapYear date.year) 1 = 0 := rfl
      rw [hm, hb]
      omega
    · have hb : daysBeforeMonth (isLeapYear date.year) 2 = 31 := rfl
      rw [hm, hb]
      omega
  · have hb := daysBeforeMonth_of_march (isLeapYear date.year) (date.month - 3) (by omega)
    have hn := daysBeforeYear_succ date.year
    rw [show date.month - 3 + 3 = date.month by omega] at hb
    rw [show y + 1 = date.year + 1 by omega] at hs
    rw [hb]
    omega


theorem toMicros_dateOnly : (dateOnly date).toMicros = some (date.toDays * 86400000000) := by
  have hb := date.toDays_bounds
  have hd := daysFromYmd_eq h
  rw [← Int.toNat_of_nonneg h.1] at hd
  have ht : (dateOnly date).toTimeMicros = some 0 := by
    simp [HighPrecisionDatetime.toTimeMicros, dateOnly, i64]
  have ho : (dateOnly date).offsetMicros = some 0 := if_neg (show ¬7 &&& 8 = 8 by decide)
  unfold daysBeforeYear at hb
  simp only [HighPrecisionDatetime.toMicros, ht, ho]
  simp only [dateOnly, hd, Option.bind_eq_bind, Option.bind_some]
  rw [i64_of_fits (by omega) (by omega), Option.bind_some, Int.add_zero,
    i64_of_fits (by omega) (by omega), Option.bind_some, Int.sub_zero,
    i64_of_fits (by omega) (by omega)]

theorem getDate32_dateOnly : (dateOnly date).getDate32 = some date.toDays := by
  have hb := date.toDays_bounds
  unfold daysBeforeYear at hb
  rw [HighPrecisionDatetime.getDate32, toMicros_dateOnly h, Option.map_some,
    Int.mul_tdiv_cancel _ (by decide), Int.bmod_eq_of_le (by omega) (by omega)]

theorem civilFromDays_toDays : civilFromDays date.toDays = (date.year, date.month, date.day) := by
  have hb := date.toDays_bounds
  unfold daysBeforeYear at hb
  have hd : -1000000000 < date.toDays ∧ date.toDays < 1000000000 := by omega
  obtain ⟨civil, htoDays, hcivil⟩ := civilFromDays_spec hd
  rw [hcivil, CivilDate.toDays_injective htoDays]

end

/-- A date is decoded to its day, counted from the first of January 1970 without an overflow, and
the day is written as the date. -/
theorem decoded_days {date : CivilDate} (h : 0 ≤ date.year ∧ date.year ≤ 65535) :
    (daysFromYmd date.year date.month date.day = some date.toDays ∧
      (dateOnly date).getDate32 = some date.toDays) ∧
    ((date.year, date.month, date.day) = (1970, 1, 1) → date.toDays = 0) ∧
    (date.tomorrow.year ≤ 65535 → (dateOnly date.tomorrow).getDate32 = some (date.toDays + 1)) ∧
    civilFromDaysChecked date.toDays = some (date.year, date.month, date.day) ∧
    civilFromDays date.toDays = (date.year, date.month, date.day) := by
  have hc := civilFromDays_toDays h
  refine ⟨⟨daysFromYmd_eq h, getDate32_dateOnly h⟩, ?_, ?_, ?_, hc⟩
  · intro he
    obtain ⟨hy, hm, hd⟩ : date.year = 1970 ∧ date.month = 1 ∧ date.day = 1 := by simpa using he
    rw [CivilDate.toDays, hy, hm, hd]
    decide
  · intro hn
    have hl : date.year ≤ date.tomorrow.year := by
      unfold CivilDate.tomorrow
      split_ifs <;> simp only [Int.le_refl, Int.le_add_one]
    rw [getDate32_dateOnly ⟨by omega, hn⟩, date.toDays_tomorrow]
  · have hb := date.toDays_bounds
    unfold daysBeforeYear at hb
    rw [civilFromDaysChecked_eq (by omega), hc]

/-- At the end of February of a leap year. -/
theorem decoded_days_leap : (dateOnly ⟨2024, 2, 29, by decide, by decide⟩).getDate32 = some 19782 ∧
      (dateOnly ⟨2024, 3, 1, by decide, by decide⟩).getDate32 = some 19783 := by
  have hy : 0 ≤ (⟨2024, 2, 29, by decide, by decide⟩ : CivilDate).year ∧
      (⟨2024, 2, 29, by decide, by decide⟩ : CivilDate).year ≤ 65535 := by decide
  have h := decoded_days hy
  exact ⟨h.1.2, h.2.2.1 (by decide)⟩

end Xbbg.Timestamps
