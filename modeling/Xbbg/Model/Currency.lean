import Mathlib.Algebra.Order.Ring.Rat
import Mathlib.Algebra.Order.Ring.Abs
import Mathlib.Data.List.DropRight
import Mathlib.Data.List.Sort
import Xbbg.Library.Maps
import Xbbg.Model.Types

/-! The currency conversion recipe, from `xbbg-recipes/src/currency.rs` with the helpers of
`utils.rs`, and the currency pairs of `xbbg-ext/src/transforms/currency.rs`. Arithmetic is exact:
a finite `f64` is a rational number. -/

namespace Xbbg.Currency

open Library

/-! ### Numbers and text -/

inductive Number where
  | finite (value : ℚ)
  /-- Infinite or not a number. -/
  | special
  deriving DecidableEq, Repr

def Number.div : Number → ℚ → Number
  | .finite value, denominator => .finite (value / denominator)
  | .special, _ => .special

/-- `f64::EPSILON`, two to the power of minus 52. -/
def epsilon : ℚ := 1 / 4503599627370496

inductive NumericType where
  | int8
  | int16
  | int32
  | int64
  | uint8
  | uint16
  | uint32
  | uint64
  | float16
  | float32
  | float64
  | decimal (debug : String)
  deriving DecidableEq, Repr

/-- What the standard library and the date functions make of characters, numbers and dates. Dates
are days since the epoch. -/
structure Readings where
  isWhitespace : Char → Bool
  isLowercase : Char → Bool
  toUppercase : String → String
  /-- `str::parse::<f64>`. -/
  parseFloat : String → Option Number
  /-- The text of a number of the given type. -/
  display : NumericType → Number → String
  parseDate : String → Option ℤ
  /-- A date as `%Y-%m-%d`, if it is in the range of dates. -/
  displayDate : ℤ → Option String
  /-- A date as requests have it, if it is in the range of dates. -/
  fmtDate : ℤ → Option String
  /-- The date of an instant of the given type, or the error of the cast. -/
  castDate : String → ℤ → Except String (Option ℤ)

def eqIgnoreAsciiCase (s t : String) : Bool :=
  s.toList.map Char.toLower == t.toList.map Char.toLower

/-- The first characters, of exactly the given number of bytes. -/
def takeBytes : ℕ → List Char → Option (List Char)
  | 0, _ => some []
  | _ + 1, [] => none
  | n + 1, c :: rest =>
    if c.utf8Size ≤ n + 1 then (takeBytes (n + 1 - c.utf8Size) rest).map (c :: ·) else none

namespace Readings

variable (r : Readings)

def trim (s : String) : String :=
  String.ofList ((s.toList.dropWhile r.isWhitespace).rdropWhile r.isWhitespace)

/-- Parse a number, allowing comma thousands separators. -/
def parseF64Like (value : String) : Option Number :=
  if (r.trim value).isEmpty then none
  else
    (r.parseFloat (String.ofList ((r.trim value).toList.filter (· != ',')))).filter (· != .special)

/-- Parse a date, or its first ten bytes, that fits into 32 bits. -/
def parseDateKey (raw : String) : Option ℤ :=
  if (r.trim raw).isEmpty then none
  else
    let parsed := (r.parseDate (r.trim raw)).orElse fun _ =>
      (takeBytes 10 (r.trim raw).toList).bind fun front => r.parseDate (String.ofList front)
    parsed.filter fun days => -2147483648 ≤ days && days ≤ 2147483647

end Readings

/-! ### Columns and batches -/

inductive TextLayout where
  | utf8
  | largeUtf8
  | utf8View
  deriving DecidableEq, Repr

/-- The cells of a column that is not dictionary encoded. Instants are `Date64` and timestamps, by
their counts. -/
inductive Values where
  | null (length : ℕ)
  | text (layout : TextLayout) (cells : List (Option String))
  | numeric (type : NumericType) (cells : List (Option Number))
  | date32 (cells : List (Option ℤ))
  | instant (debug : String) (cells : List (Option ℤ))
  | other (debug : String) (cells : List (Option Unit))

inductive ColumnArray where
  | plain (values : Values)
  | dictionary (keyType : String) (keys : List (Option ℕ)) (values : Values)

inductive Cell where
  | text (value : String)
  | number (value : Number)
  | date (days : ℤ)
  | instant (count : ℤ)
  | other
  deriving DecidableEq, Repr

namespace Values

def length : Values → ℕ
  | null n => n
  | text _ cells => cells.length
  | numeric _ cells => cells.length
  | date32 cells => cells.length
  | instant _ cells => cells.length
  | other _ cells => cells.length

def cell : Values → ℕ → Option Cell
  | null _, _ => none
  | text _ cells, row => cells[row]?.join.map .text
  | numeric _ cells, row => cells[row]?.join.map .number
  | date32 cells, row => cells[row]?.join.map .date
  | instant _ cells, row => cells[row]?.join.map .instant
  | other _ cells, row => cells[row]?.join.map fun _ => .other

/-- The data type as error messages print it. -/
def debug : Values → String
  | null _ => "Null"
  | text .utf8 _ => "Utf8"
  | text .largeUtf8 _ => "LargeUtf8"
  | text .utf8View _ => "Utf8View"
  | numeric type _ =>
    match type with
    | .int8 => "Int8"
    | .int16 => "Int16"
    | .int32 => "Int32"
    | .int64 => "Int64"
    | .uint8 => "UInt8"
    | .uint16 => "UInt16"
    | .uint32 => "UInt32"
    | .uint64 => "UInt64"
    | .float16 => "Float16"
    | .float32 => "Float32"
    | .float64 => "Float64"
    | .decimal name => name
  | date32 _ => "Date32"
  | instant name _ => name
  | other name _ => name

/-- The entries that the keys of a dictionary select. -/
def select {α : Type*} (entries : List (Option α)) (keys : List (Option ℕ)) : List (Option α) :=
  keys.map fun key => key.bind fun k => entries[k]?.join

def take (keys : List (Option ℕ)) : Values → Values
  | null _ => null keys.length
  | text layout entries => text layout (select entries keys)
  | numeric type entries => numeric type (select entries keys)
  | date32 entries => date32 (select entries keys)
  | instant name entries => instant name (select entries keys)
  | other name entries => other name (select entries keys)

def isNull : Values → Bool
  | null _ => true
  | _ => false

end Values

namespace ColumnArray

def length : ColumnArray → ℕ
  | plain values => values.length
  | dictionary _ keys _ => keys.length

def decode : ColumnArray → Values
  | plain values => values
  | dictionary _ keys values => values.take keys

def debug : ColumnArray → String
  | plain values => values.debug
  | dictionary keyType _ values => "Dictionary(" ++ keyType ++ ", " ++ values.debug ++ ")"

/-- The null type, or a null in every row. -/
def allNull : ColumnArray → Bool
  | plain values => (List.range values.length).all fun row => (values.cell row).isNone
  | dictionary _ keys _ => keys.all Option.isNone

end ColumnArray

structure Column where
  name : String
  array : ColumnArray

/-- A batch: named columns of one length. -/
structure Batch where
  columns : List Column
  numRows : ℕ
  rectangular : ∀ column ∈ columns, column.array.length = numRows

inductive RecipeError where
  | engine (error : BlpAsyncError)
  | ext (error : ExtError)
  | arrow (message : String)
  | invalidArgument (message : String)
  | other (message : String)
  deriving DecidableEq, Repr

namespace Batch

def tryNew (columns : List Column) : Except RecipeError Batch :=
  match columns with
  | [] => .error (.arrow "must either specify a row count or at least one column")
  | first :: rest =>
    if h : ∀ column ∈ first :: rest, column.array.length = first.array.length then
      .ok ⟨first :: rest, first.array.length, h⟩
    else .error (.arrow "all columns in a record batch must have the same length")

def columnByName (batch : Batch) (name : String) : Option Column :=
  batch.columns.find? fun column => column.name == name

end Batch

/-! ### Reading columns -/

/-- Text of any layout; rows of other columns have none. -/
def textAt : ColumnArray → ℕ → Option String
  | .plain (.text _ cells), row => cells[row]?.join
  | _, _ => none

def asStringCol (batch : Batch) (name : String) : Except RecipeError (List (Option String)) :=
  match batch.columnByName name with
  | none => .error (.other ("missing '" ++ name ++ "' column"))
  | some column =>
    match column.array with
    | .plain (.text .utf8 cells) => .ok cells
    | _ => .error (.other ("'" ++ name ++ "' column must be Utf8"))

section Read

variable (r : Readings)

/-- The value of a row as text, for the column types that are read. -/
def stringAt (array : ColumnArray) (row : ℕ) : Option String :=
  match array with
  | .plain (.text .utf8 cells) => cells[row]?.join
  | .plain (.text .largeUtf8 cells) => cells[row]?.join
  | .plain (.numeric .float64 cells) => cells[row]?.join.map (r.display .float64)
  | .plain (.numeric .int64 cells) => cells[row]?.join.map (r.display .int64)
  | .plain (.numeric .int32 cells) => cells[row]?.join.map (r.display .int32)
  | .plain (.date32 cells) => cells[row]?.join.bind r.displayDate
  | _ => none

/-- The value of a row as a number, for the column types that are read. -/
def f64At (array : ColumnArray) (row : ℕ) : Option Number :=
  match array with
  | .plain (.numeric .float64 cells) => cells[row]?.join
  | .plain (.numeric .int64 cells) => cells[row]?.join
  | .plain (.numeric .int32 cells) => cells[row]?.join
  | _ => (stringAt r array row).bind r.parseF64Like

def valueNames : List String := ["value", "value_f64", "value_i64", "value_str"]

def findValueColumn (batch : Batch) : Except RecipeError Column :=
  match valueNames.findSome? batch.columnByName with
  | some column => .ok column
  | none => .error
      (.other "response batch missing value column (value/value_f64/value_i64/value_str)")

/-- The dates of the rows; `none` without a date column. -/
def extractDateKeys (batch : Batch) : Except RecipeError (Option (List (Option ℤ))) :=
  match batch.columnByName "date" with
  | none => .ok none
  | some column =>
    if column.array.allNull then .ok (some (List.replicate column.array.length none))
    else
      match column.array with
      | .plain (.date32 cells) => .ok (some cells)
      | .plain (.instant name cells) =>
        match cells.mapM (m := Except String) fun cell => match cell with
            | none => .ok none
            | some count => r.castDate name count with
        | .ok dates => .ok (some dates)
        | .error message => .error (.arrow message)
      | .plain (.text _ cells) => .ok (some (cells.map fun cell => cell.bind r.parseDateKey))
      | array => .error (.other
          ("'date' column must be a date, timestamp, or Utf8, got " ++ array.debug))

end Read

/-! ### Currency pairs -/

structure FxConversionInfo where
  fxPair : String
  factor : ℚ
  fromCcy : String
  toCcy : String
  deriving DecidableEq, Repr

/-- A code whose last character is lower case names a minor unit, such as pence. -/
def Readings.isMinor (r : Readings) (ccy : String) : Bool :=
  ccy.toList.getLast?.any r.isLowercase

def buildFxPair (r : Readings) (fromCcy toCcy : String) : FxConversionInfo where
  fxPair := r.toUppercase toCcy ++ r.toUppercase fromCcy ++ " Curncy"
  factor := if r.isMinor fromCcy then 100 else 1
  fromCcy := r.toUppercase fromCcy
  toCcy := r.toUppercase toCcy

def sameCurrency (r : Readings) (ccy1 ccy2 : String) : Bool :=
  r.toUppercase ccy1 == r.toUppercase ccy2

/-- The conversion of a ticker in the given currency, if it needs one. -/
def fxRequirement (r : Readings) (targetCcy localCcy : String) : Option FxConversionInfo :=
  if (r.trim localCcy).isEmpty || sameCurrency r localCcy targetCcy then none
  else some (buildFxPair r localCcy targetCcy)

/-- The conversions by ticker, and the pairs that they need without repetition, sorted. -/
def buildFxRequirements (r : Readings) (tickers : List String)
    (tickerCurrencies : Map String String) (targetCcy : String) :
    Map String FxConversionInfo × List String :=
  let required := fun ticker => (tickerCurrencies.lookup ticker).bind (fxRequirement r targetCcy)
  (Map.collect (fun ticker => (required ticker).map fun info => (ticker, info)) tickers,
    ((tickers.filterMap required).map FxConversionInfo.fxPair).eraseDups.insertionSort (· ≤ ·))

abbrev FxRatesByPair := Map String (Map ℤ ℚ)

/-- The number that values of a date are divided by. -/
def fxDenominator (info : FxConversionInfo) (date : Option ℤ) (rates : FxRatesByPair) : Option ℚ :=
  match date.bind fun day => rates.lookupNested info.fxPair day with
  | none => none
  | some rate => if epsilon < |rate * info.factor| then some (rate * info.factor) else none

/-! ### Requests and their responses -/

inductive KeyColumn where
  | ticker
  | security
  deriving DecidableEq, Repr

def KeyColumn.asStr : KeyColumn → String
  | ticker => "ticker"
  | security => "security"

inductive Operation where
  | referenceData
  | historicalData
  deriving DecidableEq, Repr

structure Request where
  operation : Operation
  securities : List String
  fields : List String
  startDate : Option String
  endDate : Option String
  format : String
  deriving DecidableEq, Repr

structure Engine where
  keyColumn : KeyColumn
  request : Request → Except BlpAsyncError Batch

def Engine.send (engine : Engine) (request : Request) : Except RecipeError Batch :=
  match engine.request request with
  | .ok batch => .ok batch
  | .error error => .error (.engine error)

def currencyRequest (tickers : List String) : Request :=
  ⟨.referenceData, tickers, ["CRNCY"], none, none, "long"⟩

def fxRequest (fxPairs : List String) (startDate endDate : String) : Request :=
  ⟨.historicalData, fxPairs, ["PX_LAST"], some startDate, some endDate, "long"⟩

/-- The ticker of a long row about the given field. -/
def tickerOf (field : String) (tickers fields : List (Option String)) (row : ℕ) : Option String :=
  match tickers[row]?.join, fields[row]?.join with
  | some ticker, some name => if eqIgnoreAsciiCase name field then some ticker else none
  | _, _ => none

section Parse

variable (r : Readings)

/-- The currency that a row reports. -/
def currencyEntry (tickers fields : List (Option String)) (values : ColumnArray) (row : ℕ) :
    Option (String × String) :=
  match tickerOf "CRNCY" tickers fields row, stringAt r values row with
  | some ticker, some value =>
    if (r.trim value).isEmpty then none else some (ticker, r.trim value)
  | _, _ => none

def parseCurrencyBatch (batch : Batch) (key : String) : Except RecipeError (Map String String) :=
  if batch.numRows = 0 then .ok ∅
  else do
    let tickers ← asStringCol batch key
    let fields ← asStringCol batch "field"
    let values ← findValueColumn batch
    return Map.collect (currencyEntry r tickers fields values.array) (List.range batch.numRows)

/-- The rate of a pair that a row quotes. -/
def rateEntry (tickers fields : List (Option String)) (values : ColumnArray)
    (dates : List (Option ℤ)) (row : ℕ) : Option (String × ℤ × ℚ) :=
  match tickerOf "PX_LAST" tickers fields row, dates[row]?.join, f64At r values row with
  | some ticker, some date, some (.finite rate) =>
    if |rate| ≤ epsilon then none else some (ticker, date, rate)
  | _, _, _ => none

def parseFxRateBatch (batch : Batch) (key : String) : Except RecipeError FxRatesByPair :=
  if batch.numRows = 0 then .ok ∅
  else do
    let tickers ← asStringCol batch key
    let fields ← asStringCol batch "field"
    let values ← findValueColumn batch
    match ← extractDateKeys r batch with
    | none => throw (.other "FX rate response missing required 'date' column")
    | some dates =>
      if dates.length ≠ batch.numRows then
        throw (.other "FX rate response date column length mismatch")
      else
        return Map.collectNested (rateEntry r tickers fields values.array dates)
          (List.range batch.numRows)

def fetchTickerCurrencies (engine : Engine) (tickers : List String) :
    Except RecipeError (Map String String) := do
  let batch ← engine.send (currencyRequest tickers)
  parseCurrencyBatch r batch engine.keyColumn.asStr

def fetchFxRates (engine : Engine) (fxPairs : List String) (startDate endDate : String) :
    Except RecipeError FxRatesByPair := do
  let batch ← engine.send (fxRequest fxPairs startDate endDate)
  parseFxRateBatch r batch engine.keyColumn.asStr

/-- First and last date of the rows, or the dates of the caller. -/
def resolveFxQueryDates (dates : List (Option ℤ)) (fallbackStart fallbackEnd : String) :
    String × String :=
  match (dates.reduceOption.min?).bind r.fmtDate, (dates.reduceOption.max?).bind r.fmtDate with
  | some first, some last => (first, last)
  | _, _ => (fallbackStart, fallbackEnd)

end Parse

/-! ### Tickers of a batch -/

def isValueColumn (name key : String) : Bool :=
  !(["date", key, "field", "value", "value_str", "value_f64", "value_i64", "value_bool",
    "value_date", "value_ts", "value_time", "dtype"].any fun special =>
      eqIgnoreAsciiCase name special)

def tickerFromColumnName (r : Readings) (name : String) : Option String :=
  let ticker := r.trim (String.ofList (name.toList.takeWhile (· != '|')))
  if ticker.isEmpty then none else some ticker

/-- The ticker that the name of a wide column stands for. -/
def columnTicker (r : Readings) (key name : String) : Option String :=
  if isValueColumn name key then tickerFromColumnName r name else none

def decodeCurrencyDictionaries (data : Batch) : Except RecipeError Batch :=
  if data.columns.any fun column => match column.array with
      | .dictionary _ _ _ => true
      | .plain _ => false then
    Batch.tryNew (data.columns.map fun column =>
      { column with array := .plain column.array.decode })
  else .ok data

/-- The layout of a batch; a long batch has a key column and a value column. -/
def isLong (data : Batch) (key : String) : Bool :=
  (data.columnByName key).isSome && (valueNames.findSome? data.columnByName).isSome

/-- The ticker of a long row. -/
def rowTicker (data : Batch) (key : String) (row : ℕ) : Option String :=
  (data.columnByName key).bind fun column => textAt column.array row

/-- The tickers of a batch in the order in which they first occur. -/
def batchTickers (r : Readings) (data : Batch) (key : String) : List String :=
  if isLong data key then
    (((List.range data.numRows).filterMap (rowTicker data key)).filter (!·.isEmpty)).eraseDups
  else (data.columns.filterMap fun column => columnTicker r key column.name).eraseDups

/-! ### Conversion -/

section Convert

variable (r : Readings)

/-- A number of a ticker; without a conversion it is kept. -/
def convertNumber (info : Option FxConversionInfo) (date : Option ℤ) (rates : FxRatesByPair)
    (value : Number) : Option Number :=
  match info with
  | some info => (fxDenominator info date rates).map value.div
  | none => some value

/-- A text of a ticker; text that is not a number is kept. -/
def convertText (info : Option FxConversionInfo) (date : Option ℤ) (rates : FxRatesByPair)
    (value : String) : Option String :=
  match info with
  | none => some value
  | some info =>
    match r.parseFloat (r.trim value) with
    | none => some value
    | some .special => none
    | some (.finite number) => (fxDenominator info date rates).map fun denominator =>
        r.display .float64 (.finite (number / denominator))

/-- Convert the cells of a column, each with the conversion of its row's ticker. -/
def convertCells {α : Type*} (convert : Option FxConversionInfo → Option ℤ → α → Option α)
    (infos : ℕ → Option FxConversionInfo) (dates : List (Option ℤ)) (cells : List (Option α)) :
    List (Option α) :=
  cells.mapIdx fun row cell => cell.bind (convert (infos row) dates[row]?.join)

/-- The value column of a long batch; a column of the null type is left as it is. -/
def convertLongValues (infos : ℕ → Option FxConversionInfo) (dates : List (Option ℤ))
    (rates : FxRatesByPair) (array : ColumnArray) : Except RecipeError ColumnArray :=
  match array with
  | .plain (.null _) => .ok array
  | .plain (.text .largeUtf8 cells) =>
    .ok (.plain (.text .largeUtf8
      (convertCells (fun info date => convertText r info date rates) infos dates cells)))
  | .plain (.text _ cells) =>
    .ok (.plain (.text .utf8
      (convertCells (fun info date => convertText r info date rates) infos dates cells)))
  | .plain (.numeric _ cells) =>
    .ok (.plain (.numeric .float64
      (convertCells (fun info date => convertNumber info date rates) infos dates cells)))
  | array => .error (.invalidArgument
      ("currency value column must be numeric or text, got " ++ array.debug))

/-- The position of the value column of a long batch. -/
def valueIndex (data : Batch) : Option ℕ :=
  valueNames.findSome? fun name => data.columns.findIdx? fun column => column.name == name

def applyLongFxConversion (data : Batch) (key : String) (dates : List (Option ℤ))
    (fxByTicker : Map String FxConversionInfo) (rates : FxRatesByPair) :
    Except RecipeError Batch :=
  match data.columnByName key, valueIndex data with
  | none, _ => .error (.invalidArgument ("currency data requires a " ++ key ++ " column"))
  | some _, none => .error (.invalidArgument "currency data requires a value column")
  | some _, some index =>
    let infos := fun row => (rowTicker data key row).bind fun ticker => fxByTicker.lookup ticker
    match data.columns[index]? with
    | none => .ok data
    | some column => do
      let converted ← convertLongValues r infos dates rates column.array
      Batch.tryNew (data.columns.set index { column with array := converted })

/-- The denominators of the rows for a wide column. -/
def buildFxRateArray (numRows : ℕ) (dates : List (Option ℤ)) (ratesByDate : Option (Map ℤ ℚ))
    (factor : ℚ) : List (Option ℚ) :=
  (List.range numRows).map fun row =>
    match dates[row]?.join.bind fun day => ratesByDate.bind fun byDate => byDate.lookup day with
    | none => none
    | some rate => if epsilon < |rate * factor| then some (rate * factor) else none

def convertColumn (key : String) (dates : List (Option ℤ))
    (fxByTicker : Map String FxConversionInfo) (rates : FxRatesByPair) (column : Column) :
    Except RecipeError Column :=
  match (columnTicker r key column.name).bind fun ticker => fxByTicker.lookup ticker with
  | none => .ok column
  | some info =>
    match column.array with
    | .plain (.null _) => .ok column
    | .plain (.numeric _ cells) =>
      let denominators :=
        buildFxRateArray cells.length dates (rates.lookup info.fxPair) info.factor
      .ok { column with
        array := .plain (.numeric .float64 (List.zipWith (fun cell denominator =>
          match cell, denominator with
          | some value, some denominator => some (value.div denominator)
          | _, _ => none) cells denominators)) }
    | array => .error (.invalidArgument ("currency column '" ++ column.name ++
        "' must be numeric, got " ++ array.debug))

def applyFxConversion (data : Batch) (key : String) (dates : List (Option ℤ))
    (fxByTicker : Map String FxConversionInfo) (rates : FxRatesByPair) :
    Except RecipeError Batch :=
  if dates.length ≠ data.numRows then
    .error (.other "input date column length does not match row count")
  else do
    let columns ← data.columns.mapM (convertColumn r key dates fxByTicker rates)
    Batch.tryNew columns

end Convert

/-! ### The recipe -/

/-- The conversions and the rates, unless no ticker needs them. -/
def fetchConversion (r : Readings) (engine : Engine) (tickers : List String) (targetCcy : String)
    (dates : List (Option ℤ)) (startDate endDate : String) :
    Except RecipeError (Option (Map String FxConversionInfo × FxRatesByPair)) := do
  let currencies ← fetchTickerCurrencies r engine tickers
  let required := buildFxRequirements r tickers currencies targetCcy
  if required.2.isEmpty then return none
  else
    let range := resolveFxQueryDates r dates startDate endDate
    let rates ← fetchFxRates r engine required.2 range.1 range.2
    return some (required.1, rates)

/-- The value column has the null type. -/
def hasNullValues (data : Batch) : Bool :=
  match valueNames.findSome? data.columnByName with
  | some ⟨_, .plain values⟩ => values.isNull
  | _ => false

/-- The recipe for a batch without dictionaries that is to be converted. -/
def adjustDecoded (r : Readings) (engine : Engine) (data : Batch)
    (targetCcy startDate endDate : String) : Except RecipeError Batch :=
  let key := engine.keyColumn.asStr
  let long := isLong data key
  let tickers := batchTickers r data key
  if long && hasNullValues data then .ok data
  else if tickers.isEmpty then .ok data
  else do
    match ← extractDateKeys r data with
    | none => return data
    | some dates =>
      if !dates.any Option.isSome then return data
      else
        match ← fetchConversion r engine tickers targetCcy dates startDate endDate with
        | none => return data
        | some (fxByTicker, rates) =>
          if long then applyLongFxConversion r data key dates fxByTicker rates
          else applyFxConversion r data key dates fxByTicker rates

def recipeAdjustCcy (r : Readings) (engine : Engine) (data : Batch)
    (targetCcy startDate endDate : String) : Except RecipeError Batch :=
  if data.numRows = 0 || data.columns.isEmpty || eqIgnoreAsciiCase targetCcy "local" then .ok data
  else do
    let data ← decodeCurrencyDictionaries data
    adjustDecoded r engine data targetCcy startDate endDate

end Xbbg.Currency
