import Mathlib.Tactic.IntervalCases
import Xbbg.Library.Lists
import Xbbg.Library.Results
import Xbbg.Model.Currency

/-! Which numbers the currency recipe returns: for every cell of a ticker, nothing, the value of a
ticker that is quoted in the target currency, or the value divided by the rate of its date. -/

namespace Xbbg.Currency

open List Library

variable {data response : Batch} {currency key ticker : String} {currencies : Map String String}
  {rates : FxRatesByPair} {row : ℕ} {column : Column}

/-! ### What responses say -/

def Reports (r : Readings) (response : Batch) (key ticker currency : String) : Prop :=
  ∃ tickers fields values row, asStringCol response key = .ok tickers ∧
    asStringCol response "field" = .ok fields ∧ findValueColumn response = .ok values ∧
    row < response.numRows ∧
    currencyEntry r tickers fields values.array row = some (ticker, currency)

def Quotes (r : Readings) (response : Batch) (key pair : String) (day : ℤ) (rate : ℚ) : Prop :=
  ∃ tickers fields values dates row, asStringCol response key = .ok tickers ∧
    asStringCol response "field" = .ok fields ∧ findValueColumn response = .ok values ∧
    extractDateKeys r response = .ok (some dates) ∧ row < response.numRows ∧
    rateEntry r tickers fields values.array dates row = some (pair, day, rate)

variable {r : Readings}

theorem reports_of_lookup (hp : parseCurrencyBatch r response key = .ok currencies)
    (hl : currencies.lookup ticker = some currency) :
    Reports r response key ticker currency := by
  unfold parseCurrencyBatch at hp
  split at hp
  · cases hp
    simp at hl
  · obtain ⟨tickers, ht, hp⟩ := bind_eq_ok.mp hp
    obtain ⟨fs, hf, hp⟩ := bind_eq_ok.mp hp
    obtain ⟨vs, hv, hp⟩ := bind_eq_ok.mp hp
    cases hp
    obtain ⟨row, hr, he⟩ := Map.exists_entry_of_lookup_collect hl
    exact ⟨tickers, fs, vs, row, ht, hf, hv, mem_range.mp hr, he⟩

theorem exists_lookup_of_reports (hp : parseCurrencyBatch r response key = .ok currencies)
    (hre : Reports r response key ticker currency) :
    ∃ found, currencies.lookup ticker = some found := by
  obtain ⟨tickers, fields, values, row, ht, hf, hv, hr, he⟩ := hre
  have hro : response.numRows ≠ 0 := Nat.ne_of_gt (Nat.zero_lt_of_lt hr)
  rw [parseCurrencyBatch, if_neg hro, ht, hf, hv] at hp
  cases hp
  exact Map.exists_lookup_collect _ (mem_range.mpr hr) he

theorem quotes_of_lookup {p : String} {day : ℤ} {rate : ℚ}
    (hp : parseFxRateBatch r response key = .ok rates)
    (hl : rates.lookupNested p day = some rate) : Quotes r response key p day rate := by
  unfold parseFxRateBatch at hp
  split at hp
  · cases hp
    simp [Map.lookupNested] at hl
  · obtain ⟨tickers, ht, hp⟩ := bind_eq_ok.mp hp
    obtain ⟨fs, hf, hp⟩ := bind_eq_ok.mp hp
    obtain ⟨vs, hv, hp⟩ := bind_eq_ok.mp hp
    obtain ⟨x, hd, hp⟩ := bind_eq_ok.mp hp
    cases x with
    | none => cases hp
    | some dates =>
      dsimp only at hp
      split at hp
      · cases hp
      · cases hp
        obtain ⟨row, hr, he⟩ := Map.exists_entry_of_lookup_collectNested hl
        exact ⟨tickers, fs, vs, dates, row, ht, hf, hv, hd, mem_range.mp hr, he⟩

/-! ### Required conversions -/

theorem trim_trim (s : String) : r.trim (r.trim s) = r.trim s := by
  simp only [Readings.trim, String.toList_ofList]
  rw [dropWhile_rdropWhile_dropWhile, rdropWhile_idempotent]

theorem trim_of_reports (h : Reports r response key ticker currency) :
    r.trim currency = currency ∧ currency.isEmpty = false := by
  obtain ⟨tickers, fs, vs, row, -, -, -, -, he⟩ := h
  unfold currencyEntry at he
  split at he
  · split at he
    · cases he
    · rename_i v hv
      obtain ⟨-, rfl⟩ := Prod.mk.inj (Option.some.inj he)
      exact ⟨trim_trim _, by simpa using hv⟩
  · cases he

section Requirements

variable {tickers : List String} {currencies : Map String String} {targetCcy ticker : String}
variable {info : FxConversionInfo} {currency : String}

theorem required_of_lookup
    (h : (buildFxRequirements r tickers currencies targetCcy).1.lookup ticker = some info) :
    ∃ currency, currencies.lookup ticker = some currency ∧
      fxRequirement r targetCcy currency = some info := by
  obtain ⟨x, -, he⟩ := Map.exists_entry_of_lookup_collect h
  obtain ⟨info', hr, hp⟩ := Option.map_eq_some_iff.mp he
  cases hp
  exact Option.bind_eq_some_iff.mp hr

theorem not_required_of_lookup (hm : ticker ∈ tickers)
    (h : (buildFxRequirements r tickers currencies targetCcy).1.lookup ticker = none)
    (hc : currencies.lookup ticker = some currency) :
    fxRequirement r targetCcy currency = none := by
  cases hr : fxRequirement r targetCcy currency with
  | none => rfl
  | some info =>
    have he : ((currencies.lookup ticker).bind (fxRequirement r targetCcy)).map
        (fun info => (ticker, info)) = some (ticker, info) := by
      simp [hc, hr]
    obtain ⟨x, hf⟩ := Map.exists_lookup_collect
      (fun ticker => ((currencies.lookup ticker).bind (fxRequirement r targetCcy)).map
        fun info => (ticker, info)) hm he
    rw [buildFxRequirements, hf] at h
    cases h

theorem fxPair_mem (hm : ticker ∈ tickers) (hc : currencies.lookup ticker = some currency)
    (hr : fxRequirement r targetCcy currency = some info) :
    info.fxPair ∈ (buildFxRequirements r tickers currencies targetCcy).2 := by
  simp only [buildFxRequirements, mem_insertionSort, mem_eraseDups]
  apply mem_map_of_mem
  rw [mem_filterMap]
  exact ⟨ticker, hm, by simp [hc, hr]⟩

/-- Nothing is required for a trimmed code only if it is that of the target up to case. -/
theorem sameCurrency_of_not_required (ht : r.trim currency = currency)
    (he : currency.isEmpty = false) (h : fxRequirement r targetCcy currency = none) :
    sameCurrency r currency targetCcy = true := by
  unfold fxRequirement at h
  split at h
  · rename_i hs
    simpa [ht, he] using hs
  · cases h

theorem buildFxPair_of_required (h : fxRequirement r targetCcy currency = some info) :
    info = buildFxPair r currency targetCcy := by
  unfold fxRequirement at h
  split at h
  · cases h
  · exact (Option.some.inj h).symm

end Requirements

/-! ### Adjusted cells -/

/-- The cell with its number divided; a text shows the quotient as `f64` values are printed. -/
def Cell.scale (r : Readings) (denominator : ℚ) : Cell → Cell
  | .number value => .number (value.div denominator)
  | .text value =>
    match r.parseFloat (r.trim value) with
    | some parsed => .text (r.display .float64 (parsed.div denominator))
    | none => .text value
  | cell => cell

/-- Numbers, and texts of a value column that can be read as one. -/
def isNumeric (r : Readings) (name : String) : Cell → Bool
  | .number _ => true
  | .text value => valueNames.contains name && (r.parseFloat (r.trim value)).isSome
  | _ => false

/-- The ticker that a cell belongs to: that of its row, or of its column in a wide batch. -/
def owner (r : Readings) (key : String) (data : Batch) (column : Column) (row : ℕ) :
    Option String :=
  if isLong data key then (rowTicker data key row).filter fun ticker => !ticker.isEmpty
  else columnTicker r key column.name

def dateOf (r : Readings) (data : Batch) (row : ℕ) : Option ℤ :=
  match extractDateKeys r data with
  | .ok (some dates) => dates[row]?.join
  | _ => none

/-- The second cell is the first one in the target currency: the same if the ticker is reported in
that currency, and else divided by a rate of the date and the unit factor. -/
def Converts (r : Readings) (engine : Engine) (targetCcy : String) (tickers : List String)
    (ticker : String) (date : Option ℤ) (cell found : Cell) : Prop :=
  ∃ reply currency, engine.send (currencyRequest tickers) = .ok reply ∧
    Reports r reply engine.keyColumn.asStr ticker currency ∧
    (currency = targetCcy ∧ found = cell ∨ ∃ quotes pairs startDate endDate day rate,
      engine.send (fxRequest pairs startDate endDate) = .ok quotes ∧
      (buildFxPair r currency targetCcy).fxPair ∈ pairs ∧ date = some day ∧
      Quotes r quotes engine.keyColumn.asStr (buildFxPair r currency targetCcy).fxPair day rate ∧
      found = cell.scale r (rate * (buildFxPair r currency targetCcy).factor))

def Column.cell (column : Column) (row : ℕ) : Option Cell := column.array.decode.cell row

def Batch.cell (data : Batch) (j row : ℕ) : Option Cell :=
  data.columns[j]?.bind fun column => column.cell row

/-- The column with the given number has a numeric cell of the ticker in the row. -/
def Holds (r : Readings) (key : String) (data : Batch) (j row : ℕ) (cell : Cell)
    (ticker : String) : Prop :=
  ∃ column, data.columns[j]? = some column ∧ column.cell row = some cell ∧
    isNumeric r column.name cell = true ∧ owner r key data column row = some ticker

/-- Every numeric cell of a ticker is null or converted in the result. -/
def Adjusts (r : Readings) (engine : Engine) (targetCcy : String) (data out : Batch) : Prop :=
  ∀ (j row : ℕ) (cell : Cell) (ticker : String),
    Holds r engine.keyColumn.asStr data j row cell ticker →
    ∀ found ∈ out.cell j row,
      Converts r engine targetCcy (batchTickers r data engine.keyColumn.asStr) ticker
        (dateOf r data row) cell found

/-- No currency is found for the ticker, or that of the target up to case. -/
def Unconverted (r : Readings) (engine : Engine) (targetCcy : String) (tickers : List String)
    (ticker : String) : Prop :=
  ∃ reply currencies, engine.send (currencyRequest tickers) = .ok reply ∧
    parseCurrencyBatch r reply engine.keyColumn.asStr = .ok currencies ∧
    ∀ currency, currencies.lookup ticker = some currency → sameCurrency r currency targetCcy = true

/-- The cells that the recipe passes over. -/
inductive Skipped (r : Readings) (engine : Engine) (targetCcy : String) (data : Batch) (j : ℕ)
    (ticker : String) : Prop where
  | undated (hdates : ∀ dates day, extractDateKeys r data = .ok (some dates) → some day ∉ dates)
  | unconverted (hunconverted : Unconverted r engine targetCcy
      (batchTickers r data engine.keyColumn.asStr) ticker)
  | otherColumn (hlong : isLong data engine.keyColumn.asStr = true) (hj : valueIndex data ≠ some j)

/-! ### Conversion of a cell -/

/-- The conversion of either layout, cell by cell. -/
def convertCell (r : Readings) (info : Option FxConversionInfo) (date : Option ℤ)
    (rates : FxRatesByPair) : Cell → Option Cell
  | .number value => (convertNumber info date rates value).map .number
  | .text value => (convertText r info date rates value).map .text
  | cell => some cell

theorem convertCell_none (date : Option ℤ) (rates : FxRatesByPair) (cell : Cell) :
    convertCell r none date rates cell = some cell := by
  cases cell <;> rfl

theorem convertCell_some (info : FxConversionInfo) (date : Option ℤ) (rates : FxRatesByPair)
    {name : String} {cell : Cell} (hn : isNumeric r name cell = true) :
    convertCell r (some info) date rates cell = none ∨
      ∃ denominator, fxDenominator info date rates = some denominator ∧
        convertCell r (some info) date rates cell = some (cell.scale r denominator) := by
  cases cell with
  | number v =>
    cases hd : fxDenominator info date rates with
    | none => exact .inl (by simp [convertCell, convertNumber, hd])
    | some denominator =>
      exact .inr ⟨denominator, rfl, by simp [convertCell, convertNumber, hd, Cell.scale]⟩
  | text v =>
    cases hp : r.parseFloat (r.trim v) with
    | none => simp [isNumeric, hp] at hn
    | some number =>
      cases number with
      | special => exact .inl (by simp [convertCell, convertText, hp])
      | finite number =>
        cases hd : fxDenominator info date rates with
        | none => exact .inl (by simp [convertCell, convertText, hp, hd])
        | some denominator =>
          refine .inr ⟨denominator, rfl, ?_⟩
          simp [convertCell, convertText, hp, hd, Cell.scale, Number.div]
  | date | instant | other => cases hn

theorem exists_rate_of_fxDenominator {info : FxConversionInfo} {date : Option ℤ} {denominator : ℚ}
    (h : fxDenominator info date rates = some denominator) :
    ∃ day rate, date = some day ∧ rates.lookupNested info.fxPair day = some rate ∧
      denominator = rate * info.factor := by
  unfold fxDenominator at h
  split at h
  · cases h
  · rename_i rate hr
    obtain ⟨day, hd, hr⟩ := Option.bind_eq_some_iff.mp hr
    split at h
    · exact ⟨day, rate, hd, hr, (Option.some.inj h).symm⟩
    · cases h

/-- The conversions and the rates that were fetched for the tickers of a batch. -/
structure Fetched (r : Readings) (engine : Engine) (targetCcy : String) (tickers : List String)
    (fxByTicker : Map String FxConversionInfo) (rates : FxRatesByPair) : Prop where
  exists_reply : ∃ reply currencies, engine.send (currencyRequest tickers) = .ok reply ∧
    parseCurrencyBatch r reply engine.keyColumn.asStr = .ok currencies ∧
    fxByTicker = (buildFxRequirements r tickers currencies targetCcy).1 ∧
    ∃ startDate endDate quotes,
      engine.send (fxRequest (buildFxRequirements r tickers currencies targetCcy).2
        startDate endDate) = .ok quotes ∧
      parseFxRateBatch r quotes engine.keyColumn.asStr = .ok rates

section Fetch

variable {engine : Engine} {targetCcy ticker : String} {data : Batch} {tickers : List String}
variable {fxByTicker : Map String FxConversionInfo} {dates : List (Option ℤ)}
variable {startDate endDate : String}

theorem fetched_of_fetchConversion {rates : FxRatesByPair}
    (h : fetchConversion r engine tickers targetCcy dates startDate endDate =
      .ok (some (fxByTicker, rates))) :
    Fetched r engine targetCcy tickers fxByTicker rates := by
  obtain ⟨currencies, hc, h⟩ := bind_eq_ok.mp h
  obtain ⟨reply, hr, hp⟩ := bind_eq_ok.mp hc
  dsimp only at h
  split at h
  · cases h
  · obtain ⟨x, hra, h⟩ := bind_eq_ok.mp h
    obtain ⟨quotes, hq, hqu⟩ := bind_eq_ok.mp hra
    obtain ⟨rfl, rfl⟩ := Prod.mk.inj (Option.some.inj (Except.ok.inj h))
    exact ⟨reply, currencies, hr, hp, rfl, _, _, quotes, hq, hqu⟩

/-- The tickers without a conversion are those that need none for what is reported. -/
theorem unconverted_iff {reply : Batch} {currencies : Map String String} (hm : ticker ∈ tickers)
    (hre : engine.send (currencyRequest tickers) = .ok reply)
    (hp : parseCurrencyBatch r reply engine.keyColumn.asStr = .ok currencies) :
    Unconverted r engine targetCcy tickers ticker ↔
      (buildFxRequirements r tickers currencies targetCcy).1.lookup ticker = none := by
  constructor
  · rintro ⟨reply', currencies', hre', hp', hs⟩
    cases hre.symm.trans hre'
    cases hp.symm.trans hp'
    cases hi : (buildFxRequirements r tickers currencies targetCcy).1.lookup ticker with
    | none => rfl
    | some info =>
      obtain ⟨currency, hc, hr⟩ := required_of_lookup hi
      simp [fxRequirement, hs currency hc] at hr
  · intro hi
    refine ⟨reply, currencies, hre, hp, fun currency hc => ?_⟩
    obtain ⟨htr, he⟩ := trim_of_reports (reports_of_lookup hp hc)
    exact sameCurrency_of_not_required htr he (not_required_of_lookup hm hi hc)

theorem Fetched.unconverted_iff {rates : FxRatesByPair} (hm : ticker ∈ tickers)
    (h : Fetched r engine targetCcy tickers fxByTicker rates) :
    Unconverted r engine targetCcy tickers ticker ↔ fxByTicker.lookup ticker = none := by
  obtain ⟨reply, currencies, hr, hp, rfl, -⟩ := h.exists_reply
  exact Currency.unconverted_iff hm hr hp

theorem Fetched.converts {rates : FxRatesByPair} {info : FxConversionInfo} (hm : ticker ∈ tickers)
    (h : Fetched r engine targetCcy tickers fxByTicker rates)
    (hi : fxByTicker.lookup ticker = some info) (date : Option ℤ)
    {name : String} {cell : Cell} (hnu : isNumeric r name cell = true) :
    ∀ found ∈ convertCell r (some info) date rates cell,
      Converts r engine targetCcy tickers ticker date cell found := by
  obtain ⟨reply, currencies, hr, hp, rfl, startDate, endDate, quotes, hq, hra⟩ :=
    h.exists_reply
  obtain ⟨currency, hc, hre⟩ := required_of_lookup hi
  have hrp := reports_of_lookup hp hc
  have hpa := fxPair_mem hm hc hre
  obtain rfl := buildFxPair_of_required hre
  intro found hfo
  rcases convertCell_some _ date rates hnu with hn | ⟨denominator, hf, hs⟩
  · rw [hn] at hfo
    cases hfo
  · obtain ⟨day, rate, hd, hl, rfl⟩ := exists_rate_of_fxDenominator hf
    rw [hs] at hfo
    exact ⟨reply, currency, hr, hrp, .inr ⟨quotes, _, startDate, endDate, day, rate, hq, hpa, hd,
      quotes_of_lookup hra hl, (Option.some.inj hfo).symm⟩⟩

/-- Without pairs to ask for, no ticker needs a conversion. -/
theorem unconverted_of_no_pairs (hm : ticker ∈ tickers)
    (h : fetchConversion r engine tickers targetCcy dates startDate endDate = .ok none) :
    Unconverted r engine targetCcy tickers ticker := by
  obtain ⟨currencies, hcr, h⟩ := bind_eq_ok.mp h
  obtain ⟨reply, hr, hpa⟩ := bind_eq_ok.mp hcr
  dsimp only at h
  split at h
  · rename_i hpi
    apply (unconverted_iff hm hr hpa).mpr
    cases hi : (buildFxRequirements r tickers currencies targetCcy).1.lookup ticker with
    | none => rfl
    | some info =>
      obtain ⟨currency, hcu, hre⟩ := required_of_lookup hi
      have hp := fxPair_mem hm hcu hre
      rw [isEmpty_iff.mp hpi] at hp
      cases hp
  · obtain ⟨x, -, h⟩ := bind_eq_ok.mp h
    cases h

end Fetch

/-! ### Conversion of a batch -/

theorem columns_of_tryNew {columns : List Column} {batch : Batch}
    (h : Batch.tryNew columns = .ok batch) : batch.columns = columns := by
  cases columns with
  | nil => cases h
  | cons first rest =>
    unfold Batch.tryNew at h
    dsimp only at h
    split at h
    · cases h
      rfl
    · cases h

theorem cell_convertCells {α : Type*} (convert : Option FxConversionInfo → Option ℤ → α → Option α)
    (infos : ℕ → Option FxConversionInfo) (dates : List (Option ℤ)) (cs : List (Option α))
    (row : ℕ) : (convertCells convert infos dates cs)[row]?.join =
      cs[row]?.join.bind (convert (infos row) dates[row]?.join) := by
  rw [convertCells, getElem?_mapIdx]
  cases cs[row]? <;> rfl

theorem cell_convertLongValues {infos : ℕ → Option FxConversionInfo} {dates : List (Option ℤ)}
    {arr converted : ColumnArray}
    (h : convertLongValues r infos dates rates arr = .ok converted) (row : ℕ) :
    converted.decode.cell row =
      (arr.decode.cell row).bind (convertCell r (infos row) dates[row]?.join rates) := by
  have ht : ∀ cs : List (Option String),
      (convertCells (fun info date => convertText r info date rates) infos dates
        cs)[row]?.join.map Cell.text =
      (cs[row]?.join.map Cell.text).bind (convertCell r (infos row) dates[row]?.join rates) := by
    intro cs
    rw [cell_convertCells]
    cases cs[row]?.join <;> rfl
  unfold convertLongValues at h
  split at h
  · cases h
    rfl
  · cases h
    exact ht _
  · cases h
    exact ht _
  · rename_i cs
    cases h
    simp only [ColumnArray.decode, Values.cell]
    rw [cell_convertCells]
    cases cs[row]?.join <;> rfl
  · cases h

theorem getElem?_buildFxRateArray {numRows : ℕ} (h : row < numRows) (dates : List (Option ℤ))
    (rates : FxRatesByPair) (info : FxConversionInfo) :
    (buildFxRateArray numRows dates (rates.lookup info.fxPair) info.factor)[row]? =
      some (fxDenominator info dates[row]?.join rates) := by
  rw [buildFxRateArray, getElem?_map, getElem?_range h]
  rfl

theorem cell_convertColumn {dates : List (Option ℤ)} {fxByTicker : Map String FxConversionInfo}
    {converted : Column} (h : convertColumn r key dates fxByTicker rates column = .ok converted)
    (row : ℕ) :
    converted.cell row = (column.cell row).bind (convertCell r
      ((columnTicker r key column.name).bind fun ticker => fxByTicker.lookup ticker)
      dates[row]?.join rates) := by
  unfold convertColumn at h
  cases hi : (columnTicker r key column.name).bind fun ticker => fxByTicker.lookup ticker with
  | none =>
    rw [hi] at h
    cases h
    cases column.cell row with
    | none => rfl
    | some cell => exact (convertCell_none _ _ cell).symm
  | some info =>
    rw [hi] at h
    dsimp only at h
    split at h
    · rename_i ha
      cases h
      simp [Column.cell, ha, ColumnArray.decode, Values.cell]
    · rename_i type cs ha
      cases h
      simp only [Column.cell, ha, ColumnArray.decode, Values.cell, getElem?_zipWith]
      cases hc : cs[row]? with
      | none => rfl
      | some cell =>
        have hr : row < cs.length := (List.getElem?_eq_some_iff.mp hc).1
        rw [getElem?_buildFxRateArray hr]
        cases cell with
        | none => rfl
        | some v =>
          simp only [Option.join_some, Option.map_some, Option.bind_some, convertCell,
            convertNumber]
          cases fxDenominator info dates[row]?.join rates <;> rfl
    · cases h

/-! ### Tickers of cells -/

theorem lt_length_of_cell {vs : Values} {cell : Cell} (h : vs.cell row = some cell) :
    row < vs.length := by
  have hl : ∀ {α : Type} {cs : List (Option α)} {f : α → Cell},
      cs[row]?.join.map f = some cell → row < cs.length := by
    intro α cs f hc
    by_contra hrow
    rw [getElem?_eq_none (Nat.le_of_not_lt hrow)] at hc
    cases hc
  cases vs with
  | null => cases h
  | text | numeric | date32 | instant | other => exact hl h

theorem length_take (ks : List (Option ℕ)) (vs : Values) : (vs.take ks).length = ks.length := by
  cases vs <;> simp [Values.take, Values.length, Values.select]

theorem length_decode (arr : ColumnArray) : arr.decode.length = arr.length := by
  cases arr with
  | plain vs => rfl
  | dictionary keyType ks vs => exact length_take ks vs

theorem lt_numRows_of_cell (hm : column ∈ data.columns) {cell : Cell}
    (h : column.cell row = some cell) : row < data.numRows := by
  rw [← data.rectangular column hm, ← length_decode]
  exact lt_length_of_cell h

theorem mem_batchTickers_of_owner (hm : column ∈ data.columns) (hr : row < data.numRows)
    (h : owner r key data column row = some ticker) : ticker ∈ batchTickers r data key := by
  unfold owner at h
  unfold batchTickers
  cases hl : isLong data key with
  | true =>
    rw [hl, if_pos rfl] at h
    obtain ⟨ht, he⟩ := Option.filter_eq_some_iff.mp h
    simp only [if_true, mem_eraseDups, mem_filter, mem_filterMap, mem_range]
    exact ⟨⟨row, hr, ht⟩, he⟩
  | false =>
    rw [hl] at h
    simp only [Bool.false_eq_true, if_false, mem_eraseDups, mem_filterMap]
    exact ⟨column, hm, h⟩

/-! ### Decoded batches -/

def Column.plain (column : Column) : Column := { column with array := .plain column.array.decode }

theorem length_plain (column : Column) (h : column ∈ data.columns.map Column.plain) :
    column.array.length = data.numRows := by
  obtain ⟨encoded, hm, rfl⟩ := mem_map.mp h
  rw [← data.rectangular encoded hm]
  exact length_decode encoded.array

/-- The batch with its dictionaries decoded. -/
def Batch.plain (data : Batch) : Batch :=
  ⟨data.columns.map Column.plain, data.numRows, length_plain⟩

theorem Batch.eq_of_columns {a b : Batch} (h : a.columns = b.columns) (hne : a.columns ≠ []) :
    a = b := by
  obtain ⟨cols, numRows, hr⟩ := a
  obtain ⟨_, _, hr'⟩ := b
  dsimp only at h hne
  subst h
  obtain ⟨column, hm⟩ := exists_mem_of_ne_nil cols hne
  obtain rfl := (hr column hm).symm.trans (hr' column hm)
  rfl

theorem eq_plain_of_decode {decoded : Batch} (h : decodeCurrencyDictionaries data = .ok decoded) :
    decoded = data.plain := by
  unfold decodeCurrencyDictionaries at h
  split at h
  · rename_i he
    have hc : decoded.columns = data.columns.map Column.plain := columns_of_tryNew h
    apply Batch.eq_of_columns hc
    rw [hc]
    intro hn
    rw [map_eq_nil_iff.mp hn] at he
    cases he
  · rename_i hp
    cases h
    have hid : ∀ column ∈ data.columns, column.plain = column := by
      intro column hm
      cases ha : column.array with
      | plain vs =>
        obtain ⟨name, arr⟩ := column
        cases ha
        rfl
      | dictionary keyType ks vs =>
        refine absurd (any_eq_true.mpr ⟨column, hm, ?_⟩) hp
        rw [ha]
    have hc : data.columns.map Column.plain = data.columns := by
      rw [map_congr_left hid, map_id']
    obtain ⟨cols, numRows, hr⟩ := data
    simp only [Batch.plain, Batch.mk.injEq, and_true]
    exact hc.symm

/-! ### The recipe -/

theorem findSome?_columnByName (data : Batch) :
    valueNames.findSome? data.columnByName = (valueIndex data).bind fun j => data.columns[j]? := by
  unfold valueIndex
  induction valueNames with
  | nil => rfl
  | cons name ns ih =>
    rw [findSome?_cons, findSome?_cons, Batch.columnByName, find?_eq_bind_findIdx?_getElem?]
    cases hf : data.columns.findIdx? fun column => column.name == name with
    | none => exact ih
    | some j =>
      have hj : j < data.columns.length := (findIdx?_eq_some_iff_getElem.mp hf).1
      simp [getElem?_eq_getElem hj]

variable {j : ℕ}

section Apply

variable {key : String} {dates : List (Option ℤ)} {fxByTicker : Map String FxConversionInfo}
  {rates : FxRatesByPair} {data out : Batch}

/-- The value column of a long batch is converted; the other columns are kept. -/
theorem cell_applyLongFxConversion
    (h : applyLongFxConversion r data key dates fxByTicker rates = .ok out) {column : Column}
    (hc : data.columns[j]? = some column) (row : ℕ) :
    out.cell j row =
      if valueIndex data = some j then (column.cell row).bind (convertCell r
        ((rowTicker data key row).bind fun ticker => fxByTicker.lookup ticker)
        dates[row]?.join rates) else column.cell row := by
  have hj : j < data.columns.length := (List.getElem?_eq_some_iff.mp hc).1
  unfold applyLongFxConversion at h
  split at h
  · cases h
  · cases h
  · rename_i keyColumn index hk hi
    rw [hi]
    dsimp only at h
    split at h
    · rename_i hn
      cases h
      rw [Batch.cell, hc, if_neg]
      · rfl
      · rintro ⟨rfl⟩
        rw [hc] at hn
        cases hn
    · rename_i found hf
      obtain ⟨converted, hco, hn⟩ := bind_eq_ok.mp h
      rw [Batch.cell, columns_of_tryNew hn]
      by_cases he : index = j
      · subst he
        cases hc.symm.trans hf
        rw [getElem?_set_self hj, if_pos rfl]
        exact cell_convertLongValues hco row
      · rw [getElem?_set_ne he, hc, if_neg (mt Option.some.inj he)]
        rfl

theorem cell_applyFxConversion
    (h : applyFxConversion r data key dates fxByTicker rates = .ok out) {column : Column}
    (hco : data.columns[j]? = some column) (row : ℕ) :
    out.cell j row = (column.cell row).bind (convertCell r
        ((columnTicker r key column.name).bind fun ticker => fxByTicker.lookup ticker)
        dates[row]?.join rates) := by
  unfold applyFxConversion at h
  split at h
  · cases h
  · obtain ⟨cols, hc, hn⟩ := bind_eq_ok.mp h
    obtain ⟨converted, hf, hcn⟩ :=
      exists_getElem?_of_forall₂ (forall₂_of_mapM hc) hco
    rw [Batch.cell, columns_of_tryNew hn, hf]
    exact cell_convertColumn hcn row

end Apply

section Recipe

variable {engine : Engine} {targetCcy startDate endDate : String} {data out : Batch}

theorem cell_of_null_values (hi : valueIndex data = some j) {column : Column}
    (hc : data.columns[j]? = some column) (hn : hasNullValues data = true) (row : ℕ) :
    column.cell row = none := by
  rw [hasNullValues, findSome?_columnByName, hi, Option.bind_some, hc] at hn
  obtain ⟨name, arr⟩ := column
  cases arr with
  | dictionary keyType ks vs => cases hn
  | plain vs =>
    cases vs with
    | null length => rfl
    | _ => cases hn

section Cells

variable {row : ℕ} {cell : Cell} {ticker : String}

/-- A cell is passed over and kept, or it is null or converted. -/
theorem cell_adjustDecoded (hok : adjustDecoded r engine data targetCcy startDate endDate = .ok out)
    (hh : Holds r engine.keyColumn.asStr data j row cell ticker) :
    (Skipped r engine targetCcy data j ticker ∧
      out.cell j row = some cell) ∨
    (¬Skipped r engine targetCcy data j ticker ∧
      ∀ found ∈ out.cell j row,
        Converts r engine targetCcy (batchTickers r data engine.keyColumn.asStr) ticker
          (dateOf r data row) cell found) := by
  obtain ⟨column, hcl, hc, hn, ho⟩ := hh
  have hm := mem_of_getElem? hcl
  have ht := mem_batchTickers_of_owner hm (lt_numRows_of_cell hm hc) ho
  have hkept : data.cell j row = some cell := by
    rw [Batch.cell, hcl, Option.bind_some, hc]
  unfold adjustDecoded at hok
  dsimp only at hok
  split at hok
  · -- all values are null
    rename_i hnu
    obtain ⟨hl, hnu⟩ := Bool.and_eq_true_iff.mp hnu
    cases hok
    refine .inl ⟨.otherColumn hl fun hi => ?_, hkept⟩
    rw [cell_of_null_values hi hcl hnu row] at hc
    cases hc
  split at hok
  · -- no tickers
    rename_i he
    rw [isEmpty_iff.mp he] at ht
    cases ht
  obtain ⟨x, hf, hok⟩ := bind_eq_ok.mp hok
  cases x with
  | none =>
    cases hok
    refine .inl ⟨.undated fun dates day hd => ?_, hkept⟩
    rw [hf] at hd
    cases hd
  | some dates =>
    have hd : dateOf r data row = dates[row]?.join := by
      rw [dateOf, hf]
    dsimp only at hok
    split at hok
    · -- no dates
      rename_i hno
      cases hok
      refine .inl ⟨.undated fun found day hd hda => ?_, hkept⟩
      cases hf.symm.trans hd
      have ha : dates.any Option.isSome = true := any_eq_true.mpr ⟨some day, hda, rfl⟩
      rw [ha] at hno
      cases hno
    rename_i hany
    obtain ⟨conversion, hcn, hok⟩ := bind_eq_ok.mp hok
    cases conversion with
    | none =>
      cases hok
      exact .inl ⟨.unconverted (unconverted_of_no_pairs ht hcn), hkept⟩
    | some conversion =>
      obtain ⟨fxByTicker, rates⟩ := conversion
      have hfe := fetched_of_fetchConversion hcn
      have hout : (isLong data engine.keyColumn.asStr = true ∧ valueIndex data ≠ some j ∧
            out.cell j row = some cell) ∨
          (¬(isLong data engine.keyColumn.asStr = true ∧ valueIndex data ≠ some j) ∧
            out.cell j row =
              convertCell r (fxByTicker.lookup ticker) dates[row]?.join rates cell) := by
        unfold owner at ho
        dsimp only at hok
        split at hok
        · rename_i hl
          rw [if_pos hl] at ho
          obtain ⟨hr, -⟩ := Option.filter_eq_some_iff.mp ho
          rw [cell_applyLongFxConversion hok hcl row, hc, hr]
          by_cases hi : valueIndex data = some j
          · exact .inr ⟨fun h => h.2 hi, by rw [if_pos hi]; rfl⟩
          · exact .inl ⟨hl, hi, if_neg hi⟩
        · rename_i hl
          rw [if_neg hl] at ho
          rw [cell_applyFxConversion hok hcl row, hc, ho]
          exact .inr ⟨fun h => hl h.1, rfl⟩
      rcases hout with ⟨hl, hi, hout⟩ | ⟨hlong, hout⟩
      · exact .inl ⟨.otherColumn hl hi, hout⟩
      rw [hout]
      cases hi : fxByTicker.lookup ticker with
      | none =>
        rw [convertCell_none]
        exact .inl ⟨.unconverted ((hfe.unconverted_iff ht).mpr hi), rfl⟩
      | some info =>
        refine .inr ⟨fun hs => ?_, hd ▸ hfe.converts ht hi _ hn⟩
        cases hs with
        | undated hdates =>
          apply hany
          rw [Bool.not_eq_true', any_eq_false]
          rintro (_ | day) hda
          · exact Bool.false_ne_true
          · exact absurd hda (hdates dates day hf)
        | unconverted hun =>
          rw [(hfe.unconverted_iff ht).mp hun] at hi
          cases hi
        | otherColumn hl hj => exact hlong ⟨hl, hj⟩

end Cells

/-- In an adjusted batch every numeric cell of a ticker is null or converted to the target currency
if and only if the cells that are passed over are in it already. -/
theorem adjusts_recipeAdjustCcy_iff (hlocal : eqIgnoreAsciiCase targetCcy "local" = false)
    (hok : recipeAdjustCcy r engine data targetCcy startDate endDate = .ok out) :
    Adjusts r engine targetCcy data.plain out ↔ ∀ (j row : ℕ) (cell : Cell) (ticker : String),
      Holds r engine.keyColumn.asStr data.plain j row cell ticker →
      Skipped r engine targetCcy data.plain j ticker →
      Converts r engine targetCcy (batchTickers r data.plain engine.keyColumn.asStr) ticker
        (dateOf r data.plain row) cell cell := by
  unfold recipeAdjustCcy at hok
  split at hok
  · -- an empty batch has no cells
    rename_i hempty
    have hnone : ∀ j row cell ticker,
        ¬Holds r engine.keyColumn.asStr data.plain j row cell ticker := by
      rintro j row cell ticker ⟨column, hcolumn, hcell, -⟩
      have hmem := mem_of_getElem? hcolumn
      have hrow : row < data.numRows :=
        show row < data.plain.numRows from lt_numRows_of_cell hmem hcell
      simp only [hlocal, Bool.or_false, Bool.or_eq_true, decide_eq_true_eq, List.isEmpty_iff]
        at hempty
      rcases hempty with hrows | hcolumns
      · omega
      · simp [Batch.plain, hcolumns] at hmem
    exact ⟨fun _ j row cell ticker hh => absurd hh (hnone j row cell ticker),
      fun _ j row cell ticker hh => absurd hh (hnone j row cell ticker)⟩
  · obtain ⟨decoded, hdecoded, hok⟩ := bind_eq_ok.mp hok
    rw [eq_plain_of_decode hdecoded] at hok
    constructor
    · intro hadjusts j row cell ticker hh hskipped
      rcases cell_adjustDecoded hok hh with ⟨-, hcell⟩ | ⟨hnot, -⟩
      · exact hadjusts j row cell ticker hh cell hcell
      · exact absurd hskipped hnot
    · intro hkept j row cell ticker hh
      rcases cell_adjustDecoded hok hh with ⟨hskipped, hcell⟩ | ⟨-, hconverts⟩
      · intro found hfound
        obtain rfl := Option.some.inj (hcell.symm.trans hfound)
        exact hkept j row cell ticker hh hskipped
      · exact hconverts

end Recipe

/-! ### Numbers that are kept -/

def asciiReadings : Readings where
  isWhitespace := Char.isWhitespace
  isLowercase := Char.isLower
  toUppercase s := String.ofList (s.toList.map Char.toUpper)
  parseFloat s := s.toNat?.map fun n => .finite n
  display _ _ := ""
  parseDate s := s.toNat?.map Int.ofNat
  displayDate _ := none
  fmtDate _ := none
  castDate _ _ := .ok none

theorem rectangular_nil : ∀ column ∈ ([] : List Column), column.array.length = 0 := by
  simp

def batchOf (columns : List Column) : Batch :=
  match Batch.tryNew columns with
  | .ok batch => batch
  | .error _ => ⟨[], 0, rectangular_nil⟩

def texts (name : String) (cells : List String) : Column :=
  ⟨name, .plain (.text .utf8 (cells.map some))⟩

def dates (name : String) (cells : List ℤ) : Column := ⟨name, .plain (.date32 (cells.map some))⟩

def numbers (name : String) (cells : List ℚ) : Column :=
  ⟨name, .plain (.numeric .float64 (cells.map fun value => some (.finite value)))⟩

def currencyReply (currencies : List (String × String)) : Batch :=
  batchOf [texts "ticker" (currencies.map Prod.fst),
    texts "field" (currencies.map fun _ => "CRNCY"), texts "value" (currencies.map Prod.snd)]

def sampleEngine (currencies : List (String × String)) : Engine where
  keyColumn := .ticker
  request request :=
    match request.operation with
    | .referenceData => .ok (currencyReply currencies)
    | .historicalData => .ok (batchOf [texts "ticker" ["USDGBP Curncy"], dates "date" [1],
        texts "field" ["PX_LAST"], numbers "value" [1 / 2]])

def dated : Batch :=
  batchOf [texts "ticker" ["A", "B"], dates "date" [1, 1], numbers "value" [150, 4]]

def undated : Batch := batchOf [texts "ticker" ["A"], numbers "value" [150]]

def resultCell (result : Except RecipeError Batch) (column row : ℕ) : Option Cell :=
  result.toOption.bind fun out => out.cell column row

theorem not_reports_of_lookup (hp : parseCurrencyBatch r response key = .ok currencies)
    (hl : currencies.lookup ticker = none) (currency : String) :
    ¬Reports r response key ticker currency := by
  intro hr
  obtain ⟨found, hf⟩ := exists_lookup_of_reports hp hr
  rw [hl] at hf
  cases hf

/-- A ticker without a reported currency keeps its number, and so does one that is reported in
another currency when the batch has no dates. -/
theorem recipeAdjustCcy_keeps_unconverted :
    (∃ out, recipeAdjustCcy asciiReadings (sampleEngine [("A", "USD")]) dated "USD" "" "" =
        .ok out ∧
      out.cell 2 1 = some (.number (.finite 4)) ∧
      (∀ currency, ¬Reports asciiReadings (currencyReply [("A", "USD")]) "ticker" "B" currency) ∧
      ¬Adjusts asciiReadings (sampleEngine [("A", "USD")]) "USD" dated.plain out) ∧
    ∃ out, recipeAdjustCcy asciiReadings (sampleEngine [("A", "GBP")]) undated "USD" "" "" =
        .ok out ∧
      out.cell 1 0 = some (.number (.finite 150)) ∧
      Reports asciiReadings (currencyReply [("A", "GBP")]) "ticker" "A" "GBP" := by
  constructor
  · have hunreported : ∀ currency,
        ¬Reports asciiReadings (currencyReply [("A", "USD")]) "ticker" "B" currency :=
      not_reports_of_lookup rfl rfl
    refine ⟨dated, rfl, rfl, hunreported, ?_⟩
    intro hadjusts
    obtain ⟨reply, currency, hreply, hreports, -⟩ := hadjusts 2 1 (.number (.finite 4)) "B"
      ⟨numbers "value" [150, 4], rfl, rfl, rfl, rfl⟩ _ rfl
    cases hreply
    exact hunreported currency hreports
  · exact ⟨undated, rfl, rfl, _, _, _, 0, rfl, rfl, rfl, by decide, rfl⟩

def pence : Engine := sampleEngine [("A", "GBp"), ("B", "USD")]

theorem not_skipped_pence : ¬Skipped asciiReadings pence "USD" dated.plain 2 "A" := by
  intro hskipped
  cases hskipped with
  | undated hdates => exact hdates _ 1 rfl (by decide)
  | unconverted hunconverted =>
    obtain ⟨reply, currencies, hreply, hcurrencies, hsame⟩ := hunconverted
    cases hreply
    cases hcurrencies
    exact absurd (hsame "GBp" rfl) (by decide)
  | otherColumn _ hj => exact hj rfl

theorem converts_pence {j : ℕ} {cell : Cell}
    (hh : Holds asciiReadings "ticker" dated.plain j row cell ticker)
    (hskipped : Skipped asciiReadings pence "USD" dated.plain j ticker) :
    Converts asciiReadings pence "USD" (batchTickers asciiReadings dated.plain "ticker") ticker
      (dateOf asciiReadings dated.plain row) cell cell := by
  obtain ⟨column, hcolumn, hcell, hnumeric, howner⟩ := hh
  have hj : j < 3 := (List.getElem?_eq_some_iff.mp hcolumn).1
  interval_cases j
  · cases hcolumn
    obtain ⟨text, -, rfl⟩ := Option.map_eq_some_iff.mp hcell
    cases hnumeric
  · cases hcolumn
    obtain ⟨day, -, rfl⟩ := Option.map_eq_some_iff.mp hcell
    cases hnumeric
  · have hrow : row < 2 := lt_numRows_of_cell (mem_of_getElem? hcolumn) hcell
    interval_cases row
    · cases howner
      exact absurd hskipped not_skipped_pence
    · cases howner
      exact ⟨_, "USD", rfl, ⟨_, _, _, 1, rfl, rfl, rfl, by decide, rfl⟩, .inl ⟨rfl, rfl⟩⟩

/-- 150 pence at half a pound for a dollar are three dollars; four dollars are kept. -/
theorem adjusts_recipeAdjustCcy_pence :
    resultCell (recipeAdjustCcy asciiReadings pence dated "USD" "" "") 2 0 =
        some (.number (.finite 3)) ∧
      resultCell (recipeAdjustCcy asciiReadings pence dated "USD" "" "") 2 1 =
        some (.number (.finite 4)) ∧
      ∃ out, recipeAdjustCcy asciiReadings pence dated "USD" "" "" = .ok out ∧
        Adjusts asciiReadings pence "USD" dated.plain out := by
  have hfirst : resultCell (recipeAdjustCcy asciiReadings pence dated "USD" "" "") 2 0 =
      some (.number (.finite 3)) := by
    decide +kernel
  refine ⟨hfirst, by decide +kernel, ?_⟩
  cases hok : recipeAdjustCcy asciiReadings pence dated "USD" "" "" with
  | error error =>
    rw [hok] at hfirst
    cases hfirst
  | ok out =>
    exact ⟨out, rfl, (adjusts_recipeAdjustCcy_iff (by decide) hok).mpr
      fun _ _ _ _ hh hskipped => converts_pence hh hskipped⟩

end Xbbg.Currency
