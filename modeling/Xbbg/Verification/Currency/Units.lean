import Xbbg.Verification.Currency.Conversion

/-! What a converted number is worth. A code whose last letter is lower case stands for a hundredth
of its currency, such as pence. -/

namespace Xbbg.Currency

open Library

/-- An amount in units of the code, in units of its currency. -/
def majorAmount (r : Readings) (ccy : String) (value : ℚ) : ℚ :=
  if r.isMinor ccy then value / 100 else value

/-- `value` in units of `localCcy` is the same money as `converted` in units of `targetCcy`, where
`rate` units of the local currency are worth one unit of the target currency. -/
def SameMoney (r : Readings) (localCcy targetCcy : String) (rate value converted : ℚ) : Prop :=
  if sameCurrency r localCcy targetCcy then
    majorAmount r localCcy value = majorAmount r targetCcy converted
  else majorAmount r localCcy value = rate * majorAmount r targetCcy converted

/-- Codes of one currency have the same unit, and a currency is converted to a major unit only. -/
def ConsistentUnits (r : Readings) (localCcy targetCcy : String) : Prop :=
  if sameCurrency r localCcy targetCcy then r.isMinor localCcy = r.isMinor targetCcy
  else r.isMinor targetCcy = false

variable {r : Readings} {localCcy targetCcy : String} {rates : FxRatesByPair} {day : ℤ} {rate : ℚ}

theorem majorAmount_eq_div (localCcy targetCcy : String) (v : ℚ) :
    majorAmount r localCcy v = v / (buildFxPair r localCcy targetCcy).factor := by
  unfold majorAmount buildFxPair
  dsimp only
  split
  · rfl
  · rw [div_one]

/-- Of one currency the value is kept, which is right in one unit only. -/
theorem sameMoney_self_iff (hs : sameCurrency r localCcy targetCcy = true) (rate value : ℚ) :
    SameMoney r localCcy targetCcy rate value value ↔
      value = 0 ∨ ConsistentUnits r localCcy targetCcy := by
  rw [SameMoney, if_pos hs, ConsistentUnits, if_pos hs, majorAmount, majorAmount]
  grind

/-- Dividing by the rate and the unit factor gives units of the target currency, not of a part
of it. -/
theorem sameMoney_div_iff (hs : sameCurrency r localCcy targetCcy = false) (hr : rate ≠ 0)
    (v : ℚ) :
    SameMoney r localCcy targetCcy rate v
        (v / (rate * (buildFxPair r localCcy targetCcy).factor)) ↔
      v = 0 ∨ ConsistentUnits r localCcy targetCcy := by
  have hd : rate * (v / (rate * (buildFxPair r localCcy targetCcy).factor)) =
      majorAmount r localCcy v := by
    rw [majorAmount_eq_div localCcy targetCcy, ← div_div, mul_div_assoc', mul_div_cancel₀ _ hr]
  rw [SameMoney, ConsistentUnits, hs, if_neg Bool.false_ne_true, if_neg Bool.false_ne_true, ← hd]
  cases ht : r.isMinor targetCcy with
  | false => simp [majorAmount, ht]
  | true =>
    have hv : majorAmount r localCcy v = 0 ↔ v = 0 := by
      rw [majorAmount]
      grind
    rw [hd, majorAmount.eq_def r targetCcy, if_pos ht, mul_div_assoc', hd]
    grind

theorem rate_of_fxDenominator {info : FxConversionInfo} {denominator : ℚ}
    (hr : rates.lookupNested info.fxPair day = some rate)
    (h : fxDenominator info (some day) rates = some denominator) :
    denominator = rate * info.factor ∧ rate ≠ 0 := by
  rw [fxDenominator, Option.bind_some, hr] at h
  dsimp only at h
  split at h
  · rename_i hl
    refine ⟨(Option.some.inj h).symm, ?_⟩
    rintro rfl
    norm_num [epsilon] at hl
  · cases h

theorem fxRequirement_cases (targetCcy : String) (hc : (r.trim localCcy).isEmpty = false) :
    (sameCurrency r localCcy targetCcy = true ∧ fxRequirement r targetCcy localCcy = none) ∨
      (sameCurrency r localCcy targetCcy = false ∧
        fxRequirement r targetCcy localCcy = some (buildFxPair r localCcy targetCcy)) := by
  cases hs : sameCurrency r localCcy targetCcy with
  | true => exact .inl ⟨rfl, by simp [fxRequirement, hs]⟩
  | false => exact .inr ⟨rfl, by simp [fxRequirement, hs, hc]⟩

/-- The number that a value becomes, also inside a text, denotes the same money exactly where the
units are consistent or there is no money. -/
theorem sameMoney_converted_iff (hcode : (r.trim localCcy).isEmpty = false)
    (hrate : sameCurrency r localCcy targetCcy = false →
      rates.lookupNested (buildFxPair r localCcy targetCcy).fxPair day = some rate)
    (value : ℚ) :
    (∀ result, convertNumber (fxRequirement r targetCcy localCcy) (some day) rates
        (.finite value) = some result →
      ∃ converted, result = .finite converted ∧
        (SameMoney r localCcy targetCcy rate value converted ↔
          value = 0 ∨ ConsistentUnits r localCcy targetCcy)) ∧
    ∀ text result, r.parseFloat (r.trim text) = some (.finite value) →
      convertText r (fxRequirement r targetCcy localCcy) (some day) rates text = some result →
      ∃ converted, convertNumber (fxRequirement r targetCcy localCcy) (some day) rates
          (.finite value) = some (.finite converted) ∧
        (result = text ∧ converted = value ∨ result = r.display .float64 (.finite converted)) := by
  rcases fxRequirement_cases targetCcy hcode with ⟨hsame, hnone⟩ | ⟨hsame, hsome⟩
  · rw [hnone]
    constructor
    · intro result hresult
      exact ⟨value, (Option.some.inj hresult).symm, sameMoney_self_iff hsame rate value⟩
    · intro text result _ hresult
      exact ⟨value, rfl, .inl ⟨(Option.some.inj hresult).symm, rfl⟩⟩
  · rw [hsome]
    constructor
    · intro result hresult
      obtain ⟨denominator, hfound, rfl⟩ := Option.map_eq_some_iff.mp hresult
      obtain ⟨rfl, hne⟩ := rate_of_fxDenominator (hrate hsame) hfound
      exact ⟨_, rfl, sameMoney_div_iff hsame hne value⟩
    · intro text result hparsed hresult
      rw [convertText, hparsed] at hresult
      obtain ⟨denominator, hfound, rfl⟩ := Option.map_eq_some_iff.mp hresult
      exact ⟨_, Option.map_eq_some_iff.mpr ⟨denominator, hfound, rfl⟩, .inr rfl⟩

/-! ### Minor units of the target -/

def sampleRates (pair : String) : FxRatesByPair :=
  (∅ : FxRatesByPair).insert pair ((∅ : Map ℤ ℚ).insert 1 2)

/-- Three dollars become one and a half pence, and pence and pounds are taken for each other. -/
theorem converted_off_by_hundred :
    (convertNumber (fxRequirement asciiReadings "GBp" "USD") (some 1)
        (sampleRates "GBPUSD Curncy") (.finite 3) = some (.finite (3 / 2)) ∧
      ¬SameMoney asciiReadings "USD" "GBp" 2 3 (3 / 2)) ∧
    (convertNumber (fxRequirement asciiReadings "GBP" "GBp") (some 1) ∅ (.finite 150) =
        some (.finite 150) ∧ ¬SameMoney asciiReadings "GBp" "GBP" 1 150 150) ∧
    (convertNumber (fxRequirement asciiReadings "GBp" "GBP") (some 1) ∅ (.finite 150) =
        some (.finite 150) ∧ ¬SameMoney asciiReadings "GBP" "GBp" 1 150 150) := by
  refine ⟨⟨by decide +kernel, ?_⟩, ⟨rfl, ?_⟩, ⟨rfl, ?_⟩⟩
  · rw [SameMoney, if_neg (by decide), majorAmount, if_neg (by decide), majorAmount,
      if_pos (by decide)]
    norm_num
  · rw [SameMoney, if_pos (by decide), majorAmount, if_pos (by decide), majorAmount,
      if_neg (by decide)]
    norm_num
  · rw [SameMoney, if_pos (by decide), majorAmount, if_neg (by decide), majorAmount,
      if_pos (by decide)]
    norm_num

/-- Three hundred pence at two pounds for a dollar are one and a half dollars. -/
theorem sameMoney_converted_pence :
    ∃ converted, convertNumber (fxRequirement asciiReadings "USD" "GBp") (some 1)
        (sampleRates "USDGBP Curncy") (.finite 300) = some (.finite converted) ∧
      SameMoney asciiReadings "GBp" "USD" 2 300 converted := by
  have hunits : ConsistentUnits asciiReadings "GBp" "USD" := by
    rw [ConsistentUnits, if_neg (by decide)]
    decide
  have hfound : convertNumber (fxRequirement asciiReadings "USD" "GBp") (some 1)
      (sampleRates "USDGBP Curncy") (.finite 300) = some (.finite (3 / 2)) := by
    decide +kernel
  obtain ⟨converted, hconverted, hmoney⟩ :=
    (sameMoney_converted_iff (by decide) (fun _ => rfl) 300).1 _ hfound
  obtain rfl := Number.finite.inj hconverted
  exact ⟨3 / 2, hfound, hmoney.mpr (.inr hunits)⟩

end Xbbg.Currency
