import Mathlib.Data.List.Basic
import Mathlib.Algebra.GroupWithZero.Nat
import Mathlib.Algebra.Ring.Int.Defs

/-! The proleptic Gregorian calendar, and times of its days written in the format of ISO 8601. -/

namespace Xbbg.Library

open List

/-! ### Dates -/

def isLeapYear (year : ℤ) : Bool := year % 4 == 0 && (year % 100 != 0 || year % 400 == 0)

def daysInMonth (leap : Bool) : ℕ → ℕ
  | 1 | 3 | 5 | 7 | 8 | 10 | 12 => 31
  | 4 | 6 | 9 | 11 => 30
  | 2 => if leap then 29 else 28
  | _ => 0

theorem daysInMonth_le : ∀ leap, ∀ month ≤ 12, daysInMonth leap month ≤ 31 := by
  decide

theorem one_le_daysInMonth : ∀ leap, ∀ month ≤ 12, 1 ≤ month → 1 ≤ daysInMonth leap month := by
  decide

structure CivilDate where
  year : ℤ
  month : ℕ
  day : ℕ
  month_mem : 1 ≤ month ∧ month ≤ 12
  day_mem : 1 ≤ day ∧ day ≤ daysInMonth (isLeapYear year) month
  deriving DecidableEq, Repr

/-- The days from the first of January of the year 1 to that of the given year. -/
def daysBeforeYear (year : ℤ) : ℤ :=
  365 * (year - 1) + (year - 1) / 4 - (year - 1) / 100 + (year - 1) / 400

def daysBeforeMonth (leap : Bool) (month : ℕ) : ℕ :=
  ((List.range month).map (daysInMonth leap)).sum

/-- The days from the first of January 1970. -/
def CivilDate.toDays (date : CivilDate) : ℤ :=
  daysBeforeYear date.year + daysBeforeMonth (isLeapYear date.year) date.month +
    (date.day - 1) - 719162

example : (⟨1970, 1, 1, by decide, by decide⟩ : CivilDate).toDays = 0 := by decide

example : (⟨2024, 2, 29, by decide, by decide⟩ : CivilDate).toDays = 19782 := by decide

theorem daysBeforeYear_succ (year : ℤ) :
    daysBeforeYear (year + 1) = daysBeforeYear year + 365 + (isLeapYear year).toNat := by
  cases hl : isLeapYear year with
  | false =>
    simp only [isLeapYear, Bool.and_eq_false_iff, beq_eq_false_iff_ne, Bool.or_eq_false_iff,
      bne_eq_false_iff_eq] at hl
    simp only [daysBeforeYear, Bool.toNat_false]
    omega
  | true =>
    simp only [isLeapYear, Bool.and_eq_true, beq_iff_eq, Bool.or_eq_true, bne_iff_ne] at hl
    simp only [daysBeforeYear, Bool.toNat_true]
    omega

theorem CivilDate.year_le_of_toDays_neg (date : CivilDate) (h : date.toDays < 0) :
    date.year ≤ 1969 := by
  have hd := date.day_mem.1
  unfold CivilDate.toDays daysBeforeYear at h
  omega

/-! ### The order of the days -/

theorem daysBeforeMonth_succ (leap : Bool) (month : ℕ) :
    daysBeforeMonth leap (month + 1) = daysBeforeMonth leap month + daysInMonth leap month := by
  simp [daysBeforeMonth, List.range_succ]

theorem daysBeforeMonth_add_le : ∀ leap, ∀ next ≤ 13, ∀ month < next,
    daysBeforeMonth leap month + daysInMonth leap month ≤ daysBeforeMonth leap next := by
  decide

theorem daysBeforeMonth_year : ∀ leap, daysBeforeMonth leap 13 = 365 + Bool.toNat leap := by
  decide

namespace CivilDate

theorem january_mem : 1 ≤ 1 ∧ 1 ≤ 12 := by
  decide

def tomorrow (date : CivilDate) : CivilDate :=
  if hd : date.day < daysInMonth (isLeapYear date.year) date.month then
    ⟨date.year, date.month, date.day + 1, date.month_mem, by omega, hd⟩
  else if hm : date.month < 12 then
    ⟨date.year, date.month + 1, 1, ⟨by omega, hm⟩, Nat.le_refl 1,
      one_le_daysInMonth _ _ hm (by omega)⟩
  else
    ⟨date.year + 1, 1, 1, january_mem, Nat.le_refl 1,
      one_le_daysInMonth _ 1 january_mem.2 january_mem.1⟩

theorem toDays_tomorrow (date : CivilDate) : date.tomorrow.toDays = date.toDays + 1 := by
  have hde := date.day_mem
  unfold tomorrow
  split_ifs with hd hm
  · simp only [toDays]
    omega
  · simp only [toDays, daysBeforeMonth_succ]
    omega
  · have hmo : date.month = 12 := by have := date.month_mem; omega
    have hy := daysBeforeMonth_year (isLeapYear date.year)
    have hs := daysBeforeYear_succ date.year
    have hb : daysBeforeMonth (isLeapYear (date.year + 1)) 1 = 0 := rfl
    rw [daysBeforeMonth_succ, ← hmo] at hy
    simp only [toDays, hb]
    omega

theorem toDays_bounds (date : CivilDate) : daysBeforeYear date.year ≤ date.toDays + 719162 ∧
    date.toDays + 719162 < daysBeforeYear (date.year + 1) := by
  have hd := date.day_mem
  have hm := daysBeforeMonth_add_le (isLeapYear date.year) 13 (by decide) date.month
    (by have := date.month_mem; omega)
  have hs := daysBeforeYear_succ date.year
  rw [daysBeforeMonth_year] at hm
  unfold toDays
  omega

theorem toDays_lt_of_year_lt {a b : CivilDate} (h : a.year < b.year) : a.toDays < b.toDays := by
  have ha := a.toDays_bounds
  have hb := b.toDays_bounds
  have hm : daysBeforeYear (a.year + 1) ≤ daysBeforeYear b.year := by
    unfold daysBeforeYear
    omega
  omega

theorem toDays_lt_of_month_lt {a b : CivilDate} (hy : a.year = b.year) (h : a.month < b.month) :
    a.toDays < b.toDays := by
  have hd := a.day_mem
  have hde := b.day_mem
  have hm := daysBeforeMonth_add_le (isLeapYear a.year) b.month
    (by have := b.month_mem; omega) a.month h
  unfold toDays
  rw [← hy] at hde ⊢
  omega

theorem toDays_injective {a b : CivilDate} (h : a.toDays = b.toDays) : a = b := by
  have hy : a.year = b.year := by
    rcases Int.lt_trichotomy a.year b.year with hl | he | hl
    · have := toDays_lt_of_year_lt hl
      omega
    · exact he
    · have := toDays_lt_of_year_lt hl
      omega
  have hm : a.month = b.month := by
    rcases Nat.lt_trichotomy a.month b.month with hl | he | hl
    · have := toDays_lt_of_month_lt hy hl
      omega
    · exact he
    · have := toDays_lt_of_month_lt hy.symm hl
      omega
  have hd : a.day = b.day := by
    unfold toDays at h
    rw [hy, hm] at h
    omega
  cases a
  cases b
  simp_all

end CivilDate

/-! ### Years that start in March

In a year that starts in March the leap day is the last one, and the first day of a month does not
depend on it. -/

theorem daysBeforeMonth_of_march : ∀ leap, ∀ m < 10,
    daysBeforeMonth leap (m + 3) = (153 * m + 2) / 5 + 59 + Bool.toNat leap := by
  decide

theorem daysInMonth_of_march : ∀ leap, ∀ m < 10,
    daysInMonth leap (m + 3) + (153 * m + 2) / 5 = (153 * (m + 1) + 2) / 5 := by
  decide

theorem exists_date_of_march (year : ℤ) {day m : ℕ} (hm : m = (5 * day + 2) / 153)
    (hd : day < 365 + (isLeapYear (year + 1)).toNat) :
    ∃ date : CivilDate, date.toDays = daysBeforeYear (year + 1) + day - 719468 ∧
      date.year = (if m < 10 then year else year + 1) ∧
      date.month = (if m < 10 then m + 3 else m - 9) ∧
      date.day = day - (153 * m + 2) / 5 + 1 := by
  have hla : day < 366 := lt_of_lt_of_le hd (by cases isLeapYear (year + 1) <;> decide)
  by_cases hl : m < 10
  · have hle := daysInMonth_of_march (isLeapYear year) m hl
    refine ⟨⟨year, m + 3, day - (153 * m + 2) / 5 + 1, by omega, by omega⟩, ?_, ?_, ?_, rfl⟩
    · have hb := daysBeforeMonth_of_march (isLeapYear year) m hl
      have hy := daysBeforeYear_succ year
      simp only [CivilDate.toDays, hb]
      omega
    · rw [if_pos hl]
    · rw [if_pos hl]
  · rw [if_neg hl, if_neg hl]
    obtain rfl | rfl : m = 10 ∨ m = 11 := by omega
    · refine ⟨⟨year + 1, 1, day - 306 + 1, by omega, ?_⟩, ?_, rfl, rfl, rfl⟩
      · have hle : daysInMonth (isLeapYear (year + 1)) 1 = 31 := rfl
        omega
      · have hb : daysBeforeMonth (isLeapYear (year + 1)) 1 = 0 := rfl
        simp only [CivilDate.toDays, hb]
        omega
    · refine ⟨⟨year + 1, 2, day - 337 + 1, by omega, ?_⟩, ?_, rfl, rfl, rfl⟩
      · have hle : daysInMonth (isLeapYear (year + 1)) 2 = 28 + (isLeapYear (year + 1)).toNat := by
          cases isLeapYear (year + 1) <;> rfl
        omega
      · have hb : daysBeforeMonth (isLeapYear (year + 1)) 2 = 31 := rfl
        simp only [CivilDate.toDays, hb]
        omega

/-! ### Numbers of a fixed width -/

/-- A number in decimal, with zeros in front up to the width. -/
def padded (width n : ℕ) : List Char :=
  List.replicate (width - (Nat.toDigits 10 n).length) '0' ++ Nat.toDigits 10 n

def readDigits (text : List Char) : Option ℕ :=
  if text.isEmpty || !text.all Char.isDigit then none else some (Nat.ofDigitChars 10 text 0)

theorem isDigit_of_mem_padded {width n : ℕ} {c : Char} (h : c ∈ padded width n) :
    c.isDigit = true := by
  rcases mem_append.mp h with h | h
  · rw [eq_of_mem_replicate h]
    rfl
  · exact Nat.isDigit_of_mem_toDigits (by decide) (by decide) h

theorem readDigits_padded (width n : ℕ) : readDigits (padded width n) = some n := by
  have ha : (padded width n).all Char.isDigit = true :=
    all_eq_true.mpr fun c hc => isDigit_of_mem_padded hc
  have hne : (padded width n).isEmpty = false := by simp [padded, Nat.toDigits_ne_nil]
  have hv : Nat.ofDigitChars 10 (padded width n) 0 = n := by
    rw [padded, Nat.ofDigitChars_append, Nat.ofDigitChars_replicate_zero, Nat.mul_zero,
      Nat.ofDigitChars_toDigits (by decide) (by decide)]
  rw [readDigits, ha, hne, hv]
  rfl

theorem length_padded {width n : ℕ} (hw : 0 < width) (h : n < 10 ^ width) :
    (padded width n).length = width := by
  have hl := (Nat.length_toDigits_le_iff (b := 10) (by decide) hw).mpr h
  rw [padded, length_append, length_replicate]
  omega

/-- A field: its width and the character that ends it. -/
abbrev FieldForm := ℕ × Char

def fieldsText (fields : List (FieldForm × ℕ)) : List Char :=
  fields.flatMap fun field => padded field.1.1 field.2 ++ [field.1.2]

def readFields : List FieldForm → List Char → Option (List ℕ)
  | [], [] => some []
  | [], _ :: _ => none
  | (width, stop) :: forms, text =>
    match text.drop width with
    | [] => none
    | c :: rest =>
      if c = stop then do
        let value ← readDigits (text.take width)
        let values ← readFields forms rest
        return value :: values
      else none

theorem readFields_fieldsText {fields : List (FieldForm × ℕ)}
    (h : ∀ field ∈ fields, 0 < field.1.1 ∧ field.2 < 10 ^ field.1.1) :
    readFields (fields.map Prod.fst) (fieldsText fields) = some (fields.map Prod.snd) := by
  induction fields with
  | nil => rfl
  | cons field fields ih =>
    obtain ⟨⟨width, stop⟩, value⟩ := field
    obtain ⟨hw, hv⟩ := h _ mem_cons_self
    have hl : (padded width value).length = width := length_padded hw hv
    have ht : fieldsText (((width, stop), value) :: fields) =
        padded width value ++ stop :: fieldsText fields := by
      simp [fieldsText]
    rw [ht, map_cons, map_cons, readFields, drop_left' hl, take_left' hl]
    simp [readDigits_padded, ih fun field hf => h field (mem_cons_of_mem _ hf)]

theorem length_fieldsText {fs : List (FieldForm × ℕ)} (h : ∀ f ∈ fs, 0 < f.1.1 ∧ f.2 < 10 ^ f.1.1) :
    (fieldsText fs).length = (fs.map fun f => f.1.1 + 1).sum := by
  induction fs with
  | nil => rfl
  | cons f fs ih =>
    obtain ⟨hw, hv⟩ := h f mem_cons_self
    have hr := ih fun f hf => h f (mem_cons_of_mem _ hf)
    rw [fieldsText, flatMap_cons, ← fieldsText, length_append, hr]
    simp [length_padded hw hv]

/-! ### Times -/

/-- A time of a day, to the microsecond. -/
structure Timestamp where
  date : CivilDate
  hour : ℕ
  minute : ℕ
  second : ℕ
  micro : ℕ
  hour_lt : hour < 24
  minute_lt : minute < 60
  second_lt : second < 60
  micro_lt : micro < 1000000
  deriving DecidableEq, Repr

namespace Timestamp

/-- The microseconds from the start of 1970. -/
def toMicros (t : Timestamp) : ℤ :=
  (t.date.toDays * 86400 + t.hour * 3600 + t.minute * 60 + t.second) * 1000000 + t.micro

def yearText (year : ℤ) : List Char :=
  if year < 0 then '-' :: padded 4 year.natAbs else padded 4 year.toNat

def fields (t : Timestamp) : List (FieldForm × ℕ) :=
  [((2, '-'), t.date.month), ((2, 'T'), t.date.day), ((2, ':'), t.hour), ((2, ':'), t.minute),
    ((2, '.'), t.second), ((6, 'Z'), t.micro)]

/-- For example `1999-12-31T23:59:59.000001Z`. -/
def text (t : Timestamp) : List Char := yearText t.date.year ++ '-' :: fieldsText t.fields

def readYear : List Char → Option ℤ
  | '-' :: digits => (readDigits digits).map fun (year : ℕ) => -(year : ℤ)
  | digits => (readDigits digits).map fun (year : ℕ) => (year : ℤ)

def ofFields (year : ℤ) : List ℕ → Option Timestamp
  | [month, day, hour, minute, second, micro] =>
    if h : ((1 ≤ month ∧ month ≤ 12) ∧ (1 ≤ day ∧ day ≤ daysInMonth (isLeapYear year) month)) ∧
        hour < 24 ∧ minute < 60 ∧ second < 60 ∧ micro < 1000000 then
      some ⟨⟨year, month, day, h.1.1, h.1.2⟩, hour, minute, second, micro, h.2.1, h.2.2.1,
        h.2.2.2.1, h.2.2.2.2⟩
    else none
  | _ => none

/-- The time that is written in a text. The year has no fixed width, all that follows it has. -/
def read (text : List Char) : Option Timestamp :=
  match text.drop (text.length - 23) with
  | '-' :: rest => do
    let year ← readYear (text.take (text.length - 23))
    let values ← readFields [(2, '-'), (2, 'T'), (2, ':'), (2, ':'), (2, '.'), (6, 'Z')] rest
    ofFields year values
  | _ => none

theorem toMicros_injective {a b : Timestamp} (h : a.toMicros = b.toMicros) : a = b := by
  obtain ⟨date, hour, minute, second, micro, hh, hm, hs, hu⟩ := a
  obtain ⟨date', hour', minute', second', micro', hh', hm', hs', hu'⟩ := b
  simp only [toMicros] at h
  obtain rfl : date = date' := CivilDate.toDays_injective (by omega)
  obtain ⟨rfl, rfl, rfl, rfl⟩ : hour = hour' ∧ minute = minute' ∧ second = second' ∧
      micro = micro' := by omega
  rfl

/-- A text without room for a year is not a time. -/
theorem read_of_length {text : List Char} (h : text.length ≤ 23) : read text = none := by
  have hyear : readYear (text.take (text.length - 23)) = none := by
    rw [Nat.sub_eq_zero_of_le h]
    rfl
  unfold read
  rw [hyear]
  split
  · exact Option.bind_none _
  · rfl

theorem readYear_yearText (year : ℤ) : readYear (yearText year) = some year := by
  unfold yearText
  split
  · rename_i hn
    rw [readYear, readDigits_padded, Option.map_some]
    congr 1
    omega
  · rename_i hp
    have hr : readYear (padded 4 year.toNat) =
        (readDigits (padded 4 year.toNat)).map fun (year : ℕ) => (year : ℤ) := by
      unfold readYear
      split
      · rename_i digits ht
        have hm : '-' ∈ padded 4 year.toNat := by rw [ht]; exact mem_cons_self
        exact absurd (isDigit_of_mem_padded hm) (by decide)
      · rfl
    rw [hr, readDigits_padded, Option.map_some]
    congr 1
    omega

theorem fields_fit (t : Timestamp) : ∀ f ∈ t.fields, 0 < f.1.1 ∧ f.2 < 10 ^ f.1.1 := by
  have hm := t.date.month_mem
  have hd := daysInMonth_le (isLeapYear t.date.year) t.date.month hm.2
  have hda := t.date.day_mem
  have hh := t.hour_lt
  have hmi := t.minute_lt
  have hs := t.second_lt
  have hmc := t.micro_lt
  simp only [fields, forall_mem_cons, not_mem_nil, false_implies, implies_true, and_true]
  refine ⟨⟨?_, ?_⟩, ⟨?_, ?_⟩, ⟨?_, ?_⟩, ⟨?_, ?_⟩, ⟨?_, ?_⟩, ?_, ?_⟩ <;> omega

theorem read_text (t : Timestamp) : read t.text = some t := by
  have hl : (fieldsText t.fields).length = 22 := length_fieldsText t.fields_fit
  have hf : t.text.length - 23 = (yearText t.date.year).length := by
    rw [text, length_append, length_cons, hl]
    omega
  have hfi : readFields [(2, '-'), (2, 'T'), (2, ':'), (2, ':'), (2, '.'), (6, 'Z')]
      (fieldsText t.fields) = some (t.fields.map Prod.snd) := readFields_fieldsText t.fields_fit
  have hv : ofFields t.date.year (t.fields.map Prod.snd) = some t := by
    rw [fields]
    exact dif_pos ⟨⟨t.date.month_mem, t.date.day_mem⟩, t.hour_lt, t.minute_lt, t.second_lt,
      t.micro_lt⟩
  unfold read
  rw [hf, text, drop_left, take_left]
  simp [readYear_yearText, hfi, hv]

end Timestamp

end Xbbg.Library
