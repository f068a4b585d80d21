import Xbbg.Model.Currency
import Xbbg.Model.Tickers

/-! The series of a credit default index that applies on a date, from
`xbbg-recipes/src/futures.rs` with the series windows of `xbbg-ext/src/resolvers/cdx.rs`. Dates are
days since the epoch. -/

namespace Xbbg.Cdx

open Currency Tickers

/-! ### Metadata of tickers -/

/-- What the date functions and the number parser make of text and dates, besides the readings of
columns. -/
structure CdxReadings extends Readings where
  parseAnyDate : String → Option ℤ
  /-- `date32_to_naive`, which fails outside the range of dates. -/
  naiveDate : ℤ → Option ℤ
  /-- A date as messages print it. -/
  showDate : ℤ → String

variable (r : CdxReadings)

/-- The value of a row as a date, for the column types that are read. -/
def dateAt (array : ColumnArray) (row : ℕ) : Option ℤ :=
  match array with
  | .plain (.date32 cells) => cells[row]?.join.bind r.naiveDate
  | _ => (stringAt r.toReadings array row).bind r.parseAnyDate

structure RefdataIndex where
  tickers : List (Option String)
  fields : List (Option String)
  values : ColumnArray
  numRows : ℕ

namespace RefdataIndex

def new (batch : Batch) (key : String) : Except RecipeError RefdataIndex := do
  let tickers ← asStringCol batch key
  let fields ← asStringCol batch "field"
  match batch.columnByName "value" with
  | none => throw (.other "missing 'value' column")
  | some column => return ⟨tickers, fields, column.array, batch.numRows⟩

/-- The first row of a ticker and field with a value that is not blank. -/
def firstValue (index : RefdataIndex) (ticker field : String) : Option (ℕ × String) :=
  (List.range index.numRows).findSome? fun row =>
    match index.tickers[row]?.join, index.fields[row]?.join with
    | some rowTicker, some rowField =>
      if rowTicker = ticker && eqIgnoreAsciiCase rowField field then
        (stringAt r.toReadings index.values row).bind fun raw =>
          if (r.trim raw).isEmpty then none else some (row, raw)
      else none
    | _, _ => none

def string (index : RefdataIndex) (ticker field : String) : Option String :=
  (index.firstValue r ticker field).map fun found => r.trim found.2

def date (index : RefdataIndex) (ticker field : String) : Option ℤ :=
  (index.firstValue r ticker field).bind fun found => dateAt r index.values found.1

end RefdataIndex

/-- A positive whole number of 32 bits, also written as a floating point number. -/
def parseSeriesNumber (value : String) : Option ℕ :=
  match parseU32 (r.trim value).toList with
  | some number => if 0 < number then some number else none
  | none =>
    match r.parseFloat (r.trim value) with
    | some (.finite number) =>
      if number.den = 1 ∧ 1 ≤ number ∧ number ≤ 4294967295 then some number.num.toNat else none
    | _ => none

def accrualField : String := "CDS_FIRST_ACCRUAL_START_DATE"

def missingField (field ticker : String) : RecipeError :=
  .other ("missing " ++ field ++ " for '" ++ ticker ++ "' in Bloomberg response")

def requiredCdxNumber (metadata : RefdataIndex) (ticker field : String) : Except RecipeError ℕ :=
  match metadata.string r ticker field with
  | none => .error (missingField field ticker)
  | some raw =>
    match parseSeriesNumber r raw with
    | some number => .ok number
    | none => .error (.other
        ("unable to parse " ++ field ++ "='" ++ raw ++ "' for '" ++ ticker ++ "'"))

def requiredCdxDate (metadata : RefdataIndex) (ticker field : String) : Except RecipeError ℤ :=
  match metadata.date r ticker field with
  | none => .error (missingField field ticker)
  | some date => .ok date

/-- The engine, by its replies to requests for the series, version and accrual date of tickers. -/
structure CdxEngine where
  keyColumn : KeyColumn
  request : List String → Except BlpAsyncError Batch

def requestCdxMetadata (engine : CdxEngine) (securities : List String) :
    Except RecipeError Batch :=
  match engine.request securities with
  | .ok batch => .ok batch
  | .error error => .error (.engine error)

/-- An error of the ticker utilities as one of the recipe. -/
def ofExt {α : Type} : Except ExtError α → Except RecipeError α
  | .ok a => .ok a
  | .error error => .error (.ext error)

/-! ### Series windows -/

def cdxRollMonths : ℕ := 6
def cdxLadderBatch : ℕ := 24

section Windows

-- `NaiveDate::checked_sub_months`
variable (subMonths : ℕ → ℤ → Option ℤ)

/-- The loop of `cdx_rolls_between`; at most `fuel` further rolls are counted. -/
def countRolls (dt : ℤ) : ℕ → ℤ → ℕ
  | 0, _ => 0
  | fuel + 1, probe =>
    if dt < probe then
      match subMonths cdxRollMonths probe with
      | none => 0
      | some earlier => countRolls dt fuel earlier + 1
    else 0

def cdxRollsBetween (dt accrualStart : ℤ) : ℕ := countRolls subMonths dt cdxLadderBatch accrualStart

/-- The first window below the current series, whose size is an estimate. -/
def cdxPriorSeriesWindow (currentSeries : ℕ) (currentAccrualStart dt : ℤ) : Option (ℕ × ℕ) :=
  if currentAccrualStart ≤ dt || currentSeries ≤ 1 then none
  else
    some (max (currentSeries - 1 - cdxRollsBetween subMonths dt currentAccrualStart) 1,
      currentSeries - 1)

end Windows

/-- The window below an exhausted one. -/
def cdxNextSeriesWindow (probedLo : ℕ) : Option (ℕ × ℕ) :=
  if probedLo ≤ 1 then none
  else some (max (probedLo - 1 - (cdxLadderBatch - 1)) 1, probedLo - 1)

theorem lt_of_cdxNextSeriesWindow {probedLo lo hi : ℕ}
    (h : cdxNextSeriesWindow probedLo = some (lo, hi)) : lo < probedLo := by
  unfold cdxNextSeriesWindow at h
  split at h
  · cases h
  · obtain ⟨rfl, -⟩ := Prod.mk.inj (Option.some.inj h)
    omega

/-! ### The ladder -/

structure CdxSeriesAt where
  info : ResolvedCdxInfo
  accrualStart : ℤ

/-- Walk down the rungs of a fetched window; `above` is the rung that was looked at before. -/
def pickRungs (metadata : RefdataIndex) (genTicker : String) (dt : ℤ) :
    Option (ℕ × ℤ) → List (ℕ × String) → Except RecipeError (Option CdxSeriesAt)
  | _, [] => .ok none
  | above, (series, ticker) :: rest => do
    let accrualStart ← requiredCdxDate r metadata ticker accrualField
    match above.filter fun rung => decide (rung.2 ≤ accrualStart) with
    | some (aboveSeries, aboveAccrual) =>
      throw (.other ("'" ++ genTicker ++ "' S" ++ toString series ++ " starts " ++
        r.showDate accrualStart ++ ", not before S" ++ toString aboveSeries ++ " at " ++
        r.showDate aboveAccrual))
    | none =>
      if accrualStart ≤ dt then
        let version ← requiredCdxNumber r metadata ticker "VERSION"
        let parsed ← ofExt (parseCdxTicker ticker)
        let info ← ofExt (ResolvedCdxInfo.resolve parsed series version)
        return some ⟨info, accrualStart⟩
      else pickRungs metadata genTicker dt (some (series, accrualStart)) rest

def pickCdxLadderSeries (batch : Batch) (key genTicker : String) (aliases : List String) (lo : ℕ)
    (dt : ℤ) : Except RecipeError (Option CdxSeriesAt) :=
  if aliases.isEmpty then .ok none
  else do
    let metadata ← RefdataIndex.new batch key
    pickRungs r metadata genTicker dt none
      (aliases.zipIdx.map fun entry => (lo + entry.2, entry.1)).reverse

def resolveCdxLadder (engine : CdxEngine) (genTicker : String) (dt : ℤ) (lo hi : ℕ) :
    Except RecipeError (Option CdxSeriesAt) := do
  let aliases ← (List.range' lo (hi + 1 - lo)).mapM fun series =>
    ofExt (genToSpecific genTicker series)
  let batch ← requestCdxMetadata engine aliases
  pickCdxLadderSeries r batch engine.keyColumn.asStr genTicker aliases lo dt

/-- Probe windows from the given one down until one has an answer. -/
def probeWindows {ε α : Type} (probe : ℕ → ℕ → Except ε (Option α)) (exhausted : ε) (lo hi : ℕ) :
    Except ε α :=
  match probe lo hi with
  | .error error => .error error
  | .ok (some found) => .ok found
  | .ok none =>
    match _ : cdxNextSeriesWindow lo with
    | none => .error exhausted
    | some (nextLo, nextHi) => probeWindows probe exhausted nextLo nextHi
termination_by lo
decreasing_by exact lt_of_cdxNextSeriesWindow ‹_›

def resolveCdxSeriesAt (subMonths : ℕ → ℤ → Option ℤ) (engine : CdxEngine) (genTicker : String)
    (dt : ℤ) : Except RecipeError CdxSeriesAt := do
  let parsed ← ofExt (parseCdxTicker genTicker)
  if !parsed.isGeneric then
    throw (.invalidArgument ("'" ++ genTicker ++ "' must be a generic CDX ticker containing GEN"))
  else
    let batch ← requestCdxMetadata engine [genTicker]
    let metadata ← RefdataIndex.new batch engine.keyColumn.asStr
    let series ← requiredCdxNumber r metadata genTicker "ROLLING_SERIES"
    let accrualStart ← requiredCdxDate r metadata genTicker accrualField
    if accrualStart ≤ dt then
      let version ← requiredCdxNumber r metadata genTicker "VERSION"
      let info ← ofExt (ResolvedCdxInfo.resolve parsed series version)
      return ⟨info, accrualStart⟩
    else
      match cdxPriorSeriesWindow subMonths series accrualStart dt with
      | none => throw (.invalidArgument (r.showDate dt ++ " precedes S" ++ toString series ++
          ", the first series of '" ++ genTicker ++ "'"))
      | some (lo, hi) =>
        probeWindows (resolveCdxLadder r engine genTicker dt)
          (.invalidArgument ("no '" ++ genTicker ++ "' series had started by " ++ r.showDate dt))
          lo hi

end Xbbg.Cdx
