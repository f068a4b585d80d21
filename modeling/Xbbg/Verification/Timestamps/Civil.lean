import Xbbg.Model.Timestamps

/-! # The civil date of a day

The conversion works in years that start in March, in eras of 400 of them. -/

namespace Xbbg.Timestamps

open Library

theorem era_eq (z : ℤ) : (if z ≥ 0 then z else z - 146096).tdiv 146097 = z / 146097 := by
  by_cases hz : z ≥ 0
  · rw [if_pos hz, Int.tdiv_eq_ediv_of_nonneg hz]
  · have hs : Int.sign 146097 = 1 := rfl
    rw [if_neg hz, Int.tdiv_eq_ediv, hs]
    by_cases hd : 0 ≤ z - 146096 ∨ (146097 : ℤ) ∣ z - 146096
    · rw [if_pos hd]
      omega
    · rw [if_neg hd]
      omega

def yearStart (yoe : ℤ) : ℤ := 365 * yoe + yoe / 4 - yoe / 100

def yearOfEra (doe : ℤ) : ℤ := (doe - doe / 1460 + doe / 36524 - doe / 146096) / 365

/-- The day of an era lies in the year that is computed for it; the last year of an era has a day
more than the formula counts. -/
theorem yearOfEra_spec {doe : ℤ} (hd : 0 ≤ doe ∧ doe < 146097) :
    (0 ≤ yearOfEra doe ∧ yearOfEra doe < 400) ∧ yearStart (yearOfEra doe) ≤ doe ∧
      (doe < yearStart (yearOfEra doe + 1) ∨ yearOfEra doe = 399 ∧ doe = 146096) := by
  by_cases hl : doe = 146096
  · subst hl
    decide
  have hy : yearOfEra doe = (doe - doe / 1460 + doe / 36524 - 0) / 365 := by
    rw [yearOfEra, show doe / 146096 = 0 by omega]
  generalize yearOfEra doe = yoe at hy ⊢
  have hc : yoe / 100 = doe / 36524 := by omega
  unfold yearStart
  refine ⟨by omega, ?_, Or.inl ?_⟩
  · rw [hc]
    omega
  · have hn : (yoe + 1) / 100 = yoe / 100 ∨ yoe + 1 = 100 * (yoe / 100 + 1) := by omega
    rcases hn with hn | hn
    · rw [hn, hc]
      omega
    · omega

theorem daysBeforeYear_of_era (era : ℤ) {yoe : ℤ} (hy : 0 ≤ yoe ∧ yoe < 400) :
    daysBeforeYear (yoe + era * 400 + 1) = era * 146097 + yearStart yoe := by
  unfold daysBeforeYear yearStart
  omega

theorem dayOfYear_lt {doe : ℤ} (hd : 0 ≤ doe ∧ doe < 146097) (era : ℤ) :
    doe - yearStart (yearOfEra doe) < 365 + (isLeapYear (yearOfEra doe + era * 400 + 1)).toNat := by
  obtain ⟨hy, -, hn⟩ := yearOfEra_spec hd
  have hl := daysBeforeYear_succ (yearOfEra doe + era * 400 + 1)
  rw [daysBeforeYear_of_era era hy] at hl
  by_cases hla : yearOfEra doe = 399
  · have hs := daysBeforeYear_of_era (era + 1) (show (0 : ℤ) ≤ 0 ∧ (0 : ℤ) < 400 by decide)
    rw [hla] at hl ⊢
    rw [show (399 : ℤ) + era * 400 + 1 + 1 = 0 + (era + 1) * 400 + 1 by omega, hs] at hl
    rw [show yearStart 0 = 0 from rfl] at hl
    omega
  · have hs := daysBeforeYear_of_era era
      (show 0 ≤ yearOfEra doe + 1 ∧ yearOfEra doe + 1 < 400 by omega)
    rw [show yearOfEra doe + 1 + era * 400 = yearOfEra doe + era * 400 + 1 by omega] at hs
    omega

theorem exists_date_of_era (era : ℤ) {doe yoe doy mp : ℤ} (hd : 0 ≤ doe ∧ doe < 146097)
    (hyo : yoe = yearOfEra doe) (hdo : doy = doe - yearStart yoe)
    (hmp : mp = (5 * doy + 2) / 153) :
    (0 ≤ doy ∧ 0 ≤ mp) ∧ ∃ date : CivilDate, date.toDays = era * 146097 + doe - 719468 ∧
      date.year = yoe + era * 400 + (if mp + (if mp < 10 then 3 else -9) ≤ 2 then 1 else 0) ∧
      date.month = mp + (if mp < 10 then 3 else -9) ∧
      date.day = doy - (153 * mp + 2) / 5 + 1 := by
  obtain ⟨hy, hs, -⟩ := yearOfEra_spec hd
  have hlt := dayOfYear_lt hd era
  have hl := Bool.toNat_le (isLeapYear (yearOfEra doe + era * 400 + 1))
  rw [← hyo] at hlt hy hs hl
  have hn : 0 ≤ doy := by omega
  refine ⟨⟨hn, by omega⟩, ?_⟩
  lift doy to ℕ using hn
  obtain ⟨date, ht, hye, hmo, hda⟩ :=
    exists_date_of_march (yoe + era * 400) (m := (5 * doy + 2) / 153) rfl (by omega)
  rw [daysBeforeYear_of_era era hy] at ht
  have hm : mp = ((5 * doy + 2) / 153 : ℕ) := by omega
  generalize (5 * doy + 2) / 153 = m at *
  refine ⟨date, by omega, ?_, ?_, ?_⟩
  · rw [hye, hm]
    split_ifs <;> omega
  · rw [hmo, hm]
    split_ifs <;> omega
  · rw [hda, hm]
    omega

/-- The casts of a date do not wrap, if that of the year does not. -/
theorem wrapped_date {date : CivilDate} (h : -2 ^ 31 ≤ date.year ∧ date.year < 2 ^ 31) :
    (date.year.bmod (2 ^ 32), ((date.month : ℤ) % 2 ^ 32).toNat,
      ((date.day : ℤ) % 2 ^ 32).toNat) = (date.year, date.month, date.day) := by
  have hm := date.month_mem
  have hd := date.day_mem
  have hl := daysInMonth_le (isLeapYear date.year) date.month hm.2
  rw [Int.bmod_eq_of_le (by omega) (by omega), Int.emod_eq_of_lt (by omega) (by omega),
    Int.emod_eq_of_lt (by omega) (by omega), Int.toNat_natCast, Int.toNat_natCast]

/-- The date of a day; the year has to fit in 32 bits. -/
theorem civilFromDays_spec {days : ℤ} (hdy : -1000000000 < days ∧ days < 1000000000) :
    ∃ date : CivilDate, date.toDays = days ∧
      civilFromDays days = (date.year, date.month, date.day) := by
  unfold civilFromDays
  extract_lets z era doe yoe y doy mp day month year
  have he : era = z / 146097 := era_eq z
  have hd : 0 ≤ doe ∧ doe < 146097 := by omega
  have hy : yoe = yearOfEra doe := by
    have hs : 0 ≤ doe - doe / 1460 + doe / 36524 - doe / 146096 := by omega
    rw [yearOfEra, ← Int.tdiv_eq_ediv_of_nonneg hs]
    simp only [← Int.tdiv_eq_ediv_of_nonneg hd.1]
    rfl
  have hye := (yearOfEra_spec hd).1.1
  rw [← hy] at hye
  have hdo : doy = doe - yearStart yoe := by
    rw [yearStart, ← Int.tdiv_eq_ediv_of_nonneg hye, ← Int.tdiv_eq_ediv_of_nonneg hye]
  have hst := (yearOfEra_spec hd).2.1
  rw [← hy] at hst
  have hmp : mp = (5 * doy + 2) / 153 := Int.tdiv_eq_ediv_of_nonneg (by omega)
  obtain ⟨⟨-, hn⟩, date, htoDays, hyear, hmon, hday⟩ :=
    exists_date_of_era era hd hy hdo hmp
  have hda : date.day = day := by
    rw [hday]
    simp only [day]
    rw [Int.tdiv_eq_ediv_of_nonneg (by omega)]
  have hb : -2 ^ 31 ≤ date.year ∧ date.year < 2 ^ 31 := by
    have hlt := (yearOfEra_spec hd).1.2
    rw [← hy] at hlt
    rw [hyear]
    split_ifs <;> omega
  refine ⟨date, by omega, ?_⟩
  rw [show year = date.year from hyear.symm, show month = date.month from hmon.symm, ← hda]
  exact wrapped_date hb

end Xbbg.Timestamps
