import Xbbg.Verification.Timestamps.Civil
import Xbbg.Library.Words
import Mathlib.Data.Set.Function

/-! # Texts of timestamps

A text is read back to the instant it was made from, except for instants before 1970 with a
fraction of a second. -/

namespace Xbbg.Timestamps

open List Library Timestamp

/-! ## Numbers and dates -/

theorem toList_pushPaddedU64 (out : String) (value width : ℕ) :
    (pushPaddedU64 out value width).toList = out.toList ++ padded width value := by
  simp only [pushPaddedU64, String.toList_append, String.toList_ofList, toList_toString, padded,
    ← String.length_toList, append_assoc]

theorem toList_pushPaddedI64 (out : String) {v : ℤ} (h : 0 ≤ v) (width : ℕ) :
    (pushPaddedI64 out v width).toList = out.toList ++ padded width v.toNat := by
  rw [pushPaddedI64, if_neg (by omega), toList_pushPaddedU64]

theorem toList_pushYear (out : String) (year : ℤ) :
    (pushPaddedI64 out year 4).toList = out.toList ++ yearText year := by
  unfold pushPaddedI64 yearText
  split
  · rw [toList_pushPaddedU64, String.toList_push, append_assoc, singleton_append]
  · rw [toList_pushPaddedU64]

theorem toList_pushDate (out : String) {days : ℤ} {date : CivilDate}
    (h : civilFromDays days = (date.year, date.month, date.day)) :
    (pushDate out days).toList = out.toList ++ yearText date.year ++ '-' ::
      (padded 2 date.month ++ '-' :: padded 2 date.day) := by
  rw [pushDate, h]
  simp only [toList_pushPaddedU64, String.toList_push, toList_pushYear, append_assoc,
    cons_append, nil_append]

/-! ## Times of a day -/

def timestampAt (date : CivilDate) (secs micro : ℕ) (hsecs : secs < 86400)
    (hmicro : micro < 1000000) : Timestamp where
  date := date
  hour := secs / 3600
  minute := secs / 60 % 60
  second := secs % 60
  micro := micro
  hour_lt := Nat.div_lt_of_lt_mul hsecs
  minute_lt := Nat.mod_lt _ (by decide)
  second_lt := Nat.mod_lt _ (by decide)
  micro_lt := hmicro

section TimestampAt

variable {date : CivilDate} {secs micro : ℕ} (hsecs : secs < 86400) (hmicro : micro < 1000000)

theorem toMicros_timestampAt : (timestampAt date secs micro hsecs hmicro).toMicros =
      (date.toDays * 86400 + secs) * 1000000 + micro := by
  simp only [toMicros, timestampAt]
  omega

theorem text_timestampAt : (timestampAt date secs micro hsecs hmicro).text =
      yearText date.year ++ '-' :: (padded 2 date.month ++ '-' ::
        (padded 2 date.day ++ 'T' :: (padded 2 (secs / 3600) ++ ':' ::
          (padded 2 (secs / 60 % 60) ++ ':' :: (padded 2 (secs % 60) ++ '.' ::
            (padded 6 micro ++ ['Z'])))))) := by
  simp [text, fields, timestampAt, fieldsText]

end TimestampAt

/-- A timestamp whose text is the given one and that is the given instant. -/
def Denotes (text : String) (micros : ℤ) : Prop :=
  (Timestamp.read text.toList).map Timestamp.toMicros = some micros

instance (text : String) (micros : ℤ) : Decidable (Denotes text micros) :=
  inferInstanceAs (Decidable (_ = _))

theorem denotes_of_text {text : String} {micros : ℤ} {t : Timestamp} (ht : text.toList = t.text)
    (hm : t.toMicros = micros) : Denotes text micros := by
  rw [Denotes, ht, read_text, Option.map_some, hm]

/-! ## Instants from 1970 on -/

theorem denotes_of_nonneg (chrono : Chrono) {micros : ℤ} (h : 0 ≤ micros) (hlt : micros < 2 ^ 63) :
    Denotes (formatTimestampMicros chrono micros) micros := by
  rw [formatTimestampMicros, if_neg (by omega)]
  extract_lets secs fracUs days secondsOfDay hours minutes seconds out₁ out₂ out₃ out₄
  have hsecs : secs = micros / 1000000 := Int.tdiv_eq_ediv_of_nonneg h
  have hf : fracUs = (micros % 1000000).toNat := by
    rw [← Int.tmod_eq_emod_of_nonneg h]
  have hda : days = secs / 86400 := Int.tdiv_eq_ediv_of_nonneg (by omega)
  have hd : secondsOfDay = secs % 86400 := Int.tmod_eq_emod_of_nonneg (by omega)
  have hd₀ : 0 ≤ secondsOfDay := by omega
  have hh : hours = secondsOfDay / 3600 := Int.tdiv_eq_ediv_of_nonneg hd₀
  have hm : minutes = secondsOfDay % 3600 / 60 := by
    rw [← Int.tmod_eq_emod_of_nonneg hd₀]
    exact Int.tdiv_eq_ediv_of_nonneg (Int.tmod_nonneg _ hd₀)
  have hs : seconds = secondsOfDay % 60 := Int.tmod_eq_emod_of_nonneg hd₀
  obtain ⟨date, ht, hc⟩ := civilFromDays_spec (show _ < days ∧ days < _ by omega)
  have hl : ((pushPaddedU64 out₄ fracUs 6).push 'Z').toList =
      (timestampAt date secondsOfDay.toNat fracUs (by omega) (by omega)).text := by
    rw [text_timestampAt]
    simp only [String.toList_push, toList_pushPaddedU64, out₄, out₃, out₂, out₁,
      toList_pushPaddedI64 _ (show 0 ≤ hours by omega),
      toList_pushPaddedI64 _ (show 0 ≤ minutes by omega),
      toList_pushPaddedI64 _ (show 0 ≤ seconds by omega), toList_pushDate _ hc]
    have hh' : hours.toNat = secondsOfDay.toNat / 3600 := by omega
    have hm' : minutes.toNat = secondsOfDay.toNat / 60 % 60 := by omega
    have hs' : seconds.toNat = secondsOfDay.toNat % 60 := by omega
    rw [hh', hm', hs']
    simp
  apply denotes_of_text hl
  rw [toMicros_timestampAt, ht]
  omega

/-! ## Instants before 1970 -/

/-- An instant before 1970 with a fraction of a second is written as a count: the cast wraps the
fraction to a number of nanoseconds that no time has. -/
theorem formatTimestampMicros_of_fraction (chrono : Chrono) {micros : ℤ} (hn : micros < 0)
    (hf : ¬ 1000000 ∣ micros) :
    formatTimestampMicros chrono micros = toString micros ++ "us" := by
  have hm : micros.tmod 1000000 = micros % 1000000 - 1000000 := by
    rw [Int.tmod_eq_emod, if_neg (by omega)]
    rfl
  have hw : (micros % 1000000 - 1000000) * 1000 / 2 ^ 32 = -1 := by omega
  rw [formatTimestampMicros, if_pos hn, formatTimestampMicrosFallback, hm,
    chrono.fromTimestamp_of_le (by omega)]

/-- Such a text is too short for a time. -/
theorem not_denotes_of_fraction (chrono : Chrono) {micros : ℤ} (hn : micros < 0)
    (hlt : -2 ^ 63 ≤ micros) (hf : ¬ 1000000 ∣ micros) :
    ¬ Denotes (formatTimestampMicros chrono micros) micros := by
  rw [formatTimestampMicros_of_fraction chrono hn hf]
  obtain ⟨n, rfl⟩ := Int.eq_negSucc_of_lt_zero hn
  have hlength : (toString (Int.negSucc n) ++ "us").toList.length ≤ 23 := by
    have hdigits := (Nat.length_toDigits_le_iff (b := 10) (k := 19) (n := n + 1) (by decide)
      (by decide)).mpr (by omega)
    have htext : toString (Int.negSucc n) = "-" ++ toString (n + 1) := rfl
    rw [htext, String.toList_append, String.toList_append, toList_toString, length_append,
      length_append]
    simp
    omega
  rw [Denotes, read_of_length hlength]
  simp

theorem denotes_of_seconds (chrono : Chrono) {secs : ℤ} (hn : secs < 0)
    (hlt : -2 ^ 63 ≤ secs * 1000000) (hr : (chrono.fromTimestamp secs 0).isSome) :
    Denotes (formatTimestampMicros chrono (secs * 1000000)) (secs * 1000000) := by
  obtain ⟨dt, hd⟩ := Option.isSome_iff_exists.mp hr
  obtain ⟨date, ht, -⟩ := civilFromDays_spec
    (show -1000000000 < secs / 86400 ∧ secs / 86400 < 1000000000 by omega)
  have hm : (timestampAt date (secs % 86400).toNat 0 (by omega) (by decide)).toMicros =
      secs * 1000000 := by
    rw [toMicros_timestampAt, ht]
    omega
  rw [formatTimestampMicros, if_pos (by omega), formatTimestampMicrosFallback,
    Int.mul_tdiv_cancel _ (by decide), Int.mul_tmod_left]
  simp only [hd, Int.zero_mul, Int.zero_emod, Int.toNat_zero]
  have hy : date.year ≤ 9999 := (date.year_le_of_toDays_neg (by omega)).trans (by decide)
  have hformat := @Chrono.toList_format chrono secs 0 dt _ hd (by decide) (by simpa using hm) hy
  exact denotes_of_text hformat hm

/-! ## All instants -/

/-- From 1970 on, or in the range of the library. -/
def Representable (chrono : Chrono) (micros : Int64) : Prop :=
  0 ≤ micros.toInt ∨ (chrono.fromTimestamp (micros.toInt / 1000000) 0).isSome

/-- From 1970 on, or at a whole second. -/
def Written (micros : Int64) : Prop := 0 ≤ micros.toInt ∨ 1000000 ∣ micros.toInt

/-- The text of an instant denotes it exactly if the instant is from 1970 on or a whole second, and
the texts of such instants are distinct. -/
theorem formatTimestampMicros_denotes_iff (chrono : Chrono) :
    (∀ micros : Int64, Representable chrono micros →
      (Denotes (formatTimestampMicros chrono micros.toInt) micros.toInt ↔ Written micros)) ∧
    Set.InjOn (fun micros : Int64 => formatTimestampMicros chrono micros.toInt)
      {micros | Representable chrono micros ∧ Written micros} := by
  have hdenotes : ∀ micros : Int64, Representable chrono micros →
      (Denotes (formatTimestampMicros chrono micros.toInt) micros.toInt ↔ Written micros) := by
    intro micros hrange
    by_cases hpos : 0 ≤ micros.toInt
    · exact iff_of_true (denotes_of_nonneg chrono hpos micros.toInt_lt) (.inl hpos)
    · by_cases hsecond : 1000000 ∣ micros.toInt
      · refine iff_of_true ?_ (.inr hsecond)
        obtain ⟨secs, hsecs⟩ := hsecond
        have hmin := micros.le_toInt
        have hsome := hrange.resolve_left hpos
        rw [hsecs, Int.mul_ediv_cancel_left _ (by decide)] at hsome
        rw [hsecs, Int.mul_comm] at hmin hpos ⊢
        exact denotes_of_seconds chrono (by omega) hmin hsome
      · exact iff_of_false (not_denotes_of_fraction chrono (by omega) micros.le_toInt hsecond)
          fun hwritten => hwritten.elim hpos hsecond
  refine ⟨hdenotes, ?_⟩
  rintro a ⟨ha, hwa⟩ b ⟨hb, hwb⟩ htext
  have hread := (hdenotes a ha).mpr hwa
  rw [show formatTimestampMicros chrono a.toInt = formatTimestampMicros chrono b.toInt from htext,
    Denotes, (hdenotes b hb).mpr hwb] at hread
  exact (Int64.toInt_inj.mp (Option.some.inj hread)).symm

/-- The last second before 1970. -/
def lastSecond : Timestamp :=
  ⟨⟨1969, 12, 31, by decide, by decide⟩, 23, 59, 59, 0, by decide, by decide, by decide, by decide⟩

/-- A library whose range is that second. -/
def sampleChrono : Chrono where
  DateTime := Timestamp
  fromTimestamp secs nsecs := if secs = -1 ∧ nsecs = 0 then some lastSecond else none
  format t := String.ofList t.text
  fromTimestamp_of_le h := if_neg (by omega)
  toList_format := by
    intro secs micro dt t hsome _ hmicros _
    obtain ⟨⟨rfl, hzero⟩, hlast⟩ := Option.ite_none_right_eq_some.mp hsome
    obtain rfl := Option.some.inj hlast
    have hsame : t.toMicros = lastSecond.toMicros := by
      rw [hmicros, show micro = 0 by omega]
      decide
    rw [String.toList_ofList, toMicros_injective hsame]

theorem formatTimestampMicros_denotes_second :
    Representable sampleChrono (-1000000) ∧ Written (-1000000) ∧
      formatTimestampMicros sampleChrono (-1000000) = "1969-12-31T23:59:59.000000Z" ∧
      Denotes "1969-12-31T23:59:59.000000Z" (-1000000) := by
  have hrange : Representable sampleChrono (-1000000) := .inr (by decide)
  have hwritten : Written (-1000000) := .inr (by decide)
  have htext : formatTimestampMicros sampleChrono (-1000000) = "1969-12-31T23:59:59.000000Z" := by
    decide
  refine ⟨hrange, hwritten, htext, ?_⟩
  rw [← htext]
  exact ((formatTimestampMicros_denotes_iff sampleChrono).1 (-1000000) hrange).mpr hwritten

/-- The microsecond before 1970, in a second of the range, has a text that is not a time. -/
theorem formatTimestampMicros_misses_fraction : Representable sampleChrono (-1) ∧
      formatTimestampMicros sampleChrono (-1 : Int64).toInt = "-1us" ∧
      ¬ Denotes "-1us" (-1) := by
  refine ⟨.inr (by decide), ?_, by decide⟩
  exact formatTimestampMicros_of_fraction sampleChrono (by decide) (by decide)

end Xbbg.Timestamps
