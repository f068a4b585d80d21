import Mathlib.Algebra.Ring.Int.Defs
import Xbbg.Model.Diagnostics

/-! Arrow columns and the builders that decoders fill row by row, from
`engine/state/typed_builder.rs` and `engine/state/value_utils.rs`. -/

namespace Xbbg.Columns

open Library Diagnostics

/-! ### Values and their conversions -/

/-- A high precision datetime by its readings. -/
structure HighPrecisionDatetime where
  hasDateParts : Bool
  toMicros : ℤ
  toTimeMicros : ℤ
  deriving DecidableEq, Repr

inductive Value where
  | null
  | bool (value : Bool)
  | int32 (value : ℤ)
  | int64 (value : ℤ)
  | float64 (value : F64)
  | string (value : String)
  | date32 (value : ℤ)
  | timestampMicros (value : ℤ)
  | time64Micros (value : ℤ)
  | datetime (value : HighPrecisionDatetime)
  | enum (value : String)
  | byte (value : ℕ)
  deriving DecidableEq, Repr

inductive ArrowType where
  | float64
  | int64
  | int32
  | string
  | bool
  | date32
  | timestampMicros
  | time64Micros
  deriving DecidableEq, Repr

namespace ArrowType

def fromValue : Value → ArrowType
  | .null => .string
  | .bool _ => .bool
  | .int32 _ => .int32
  | .int64 _ => .int64
  | .float64 _ => .float64
  | .string _ => .string
  | .enum _ => .string
  | .date32 _ => .date32
  | .timestampMicros _ => .timestampMicros
  | .datetime _ => .timestampMicros
  | .time64Micros _ => .time64Micros
  | .byte _ => .int32

def typeName : ArrowType → String
  | .float64 => "float64"
  | .int64 => "int64"
  | .int32 => "int32"
  | .string => "string"
  | .bool => "bool"
  | .date32 => "date32"
  | .timestampMicros => "timestamp"
  | .time64Micros => "time64"

/-- The Arrow data type as error messages print it. -/
def debug : ArrowType → String
  | .float64 => "Float64"
  | .int64 => "Int64"
  | .int32 => "Int32"
  | .string => "Utf8"
  | .bool => "Boolean"
  | .date32 => "Date32"
  | .timestampMicros => "Timestamp(Microsecond, Some(\"UTC\"))"
  | .time64Micros => "Time64(Microsecond)"

end ArrowType

/-- The conversions between numbers and to text that the standard library and the formatters
supply. -/
structure Conversions where
  intToFloat : ℤ → F64
  /-- A finite whole number in the range of `i64`. -/
  wholeInt64 : F64 → Option ℤ
  /-- A finite whole number in the range of `i32`. -/
  wholeInt32 : F64 → Option ℤ
  /-- Shortest text of a finite number, as string columns hold it. -/
  formatFloat : F64 → String
  /-- Text of a number as it is displayed. -/
  displayFloat : F64 → String
  formatDate32 : ℤ → String
  formatTimestampMicros : ℤ → String
  formatTime64Micros : ℤ → String
  deriving Inhabited

inductive Cell where
  | float64 (value : F64)
  | int64 (value : ℤ)
  | int32 (value : ℤ)
  | string (value : String)
  | bool (value : Bool)
  | date32 (value : ℤ)
  | timestampMicros (value : ℤ)
  | time64Micros (value : ℤ)
  deriving DecidableEq, Repr

def Cell.dataType : Cell → ArrowType
  | .float64 _ => .float64
  | .int64 _ => .int64
  | .int32 _ => .int32
  | .string _ => .string
  | .bool _ => .bool
  | .date32 _ => .date32
  | .timestampMicros _ => .timestampMicros
  | .time64Micros _ => .time64Micros

def microsPerDay : ℤ := 86400000000

def toInt32 (x : ℤ) : ℤ := Int.bmod x (2 ^ 32)

section Convert

variable (c : Conversions)

def asF64 : Value → Option F64
  | .float64 v => some v
  | .int64 v => some (c.intToFloat v)
  | .int32 v => some (c.intToFloat v)
  | .bool v => some (c.intToFloat (if v then 1 else 0))
  | .byte v => some (c.intToFloat v)
  | _ => none

def asI64 : Value → Option ℤ
  | .int64 v => some v
  | .int32 v => some v
  | .bool v => some (if v then 1 else 0)
  | .byte v => some v
  | .date32 v => some v
  | .timestampMicros v => some v
  | .time64Micros v => some v
  | .float64 v => c.wholeInt64 v
  | _ => none

def asI32 : Value → Option ℤ
  | .int32 v => some v
  | .int64 v => if -2 ^ 31 ≤ v ∧ v < 2 ^ 31 then some v else none
  | .byte v => some v
  | .bool v => some (if v then 1 else 0)
  | .float64 v => c.wholeInt32 v
  | _ => none

def asBool : Value → Option Bool
  | .bool v => some v
  | .int32 v => some (v != 0)
  | .int64 v => some (v != 0)
  | _ => none

/-- Text of a value; a null has none. -/
def asText : Value → Option String
  | .string s => some s
  | .enum s => some s
  | .float64 f => some (c.formatFloat f)
  | .int64 i => some (toString i)
  | .int32 i => some (toString i)
  | .bool v => some (if v then "true" else "false")
  | .date32 d => some (c.formatDate32 d)
  | .timestampMicros ts => some (c.formatTimestampMicros ts)
  | .datetime dt => some (c.formatTimestampMicros dt.toMicros)
  | .time64Micros t => some (c.formatTime64Micros t)
  | .byte v => some (toString v)
  | .null => none

def asDate32 : Value → Option ℤ
  | .date32 d => some d
  | .timestampMicros ts => some (toInt32 (ts / microsPerDay))
  | _ => none

def asTimestampMicros : Value → Option ℤ
  | .timestampMicros ts => some ts
  | .datetime dt => some dt.toMicros
  | .date32 d =>
    -- `i64::checked_mul`
    if -2 ^ 63 ≤ d * microsPerDay ∧ d * microsPerDay < 2 ^ 63 then some (d * microsPerDay)
    else none
  | _ => none

def asTime64Micros : Value → Option ℤ
  | .time64Micros t => if 0 ≤ t ∧ t < microsPerDay then some t else none
  | .timestampMicros ts => some (ts % microsPerDay)
  | _ => none

/-- The cell that a column of the given type holds for a non-null value, if it accepts it. -/
def convert (v : Value) : ArrowType → Option Cell
  | .float64 => (asF64 c v).map .float64
  | .int64 => (asI64 c v).map .int64
  | .int32 => (asI32 c v).map .int32
  | .string => (asText c v).map .string
  | .bool => (asBool v).map .bool
  | .date32 => (asDate32 v).map .date32
  | .timestampMicros => (asTimestampMicros v).map .timestampMicros
  | .time64Micros => (asTime64Micros v).map .time64Micros

def valueToString : Value → String
  | .float64 f => c.displayFloat f
  | v => (asText c v).getD ""

end Convert

def isNull : Value → Bool
  | .null => true
  | _ => false

/-- The cell of an optional value: a missing or null value, and one that the type rejects, are
null. -/
def cellOf (c : Conversions) (arrowType : ArrowType) : Option Value → Option Cell
  | none => none
  | some v => if isNull v then none else convert c v arrowType

/-- A non-null value that the column type rejects. -/
def typeMiss (c : Conversions) (arrowType : ArrowType) : Option Value → Bool
  | none => false
  | some v => !isNull v && (convert c v arrowType).isNone

theorem dataType_of_convert {c : Conversions} {v : Value} {arrowType : ArrowType} {cell : Cell}
    (h : convert c v arrowType = some cell) : cell.dataType = arrowType := by
  cases arrowType <;>
  · obtain ⟨x, -, rfl⟩ := Option.map_eq_some_iff.mp h
    rfl

theorem dataType_of_cellOf {c : Conversions} {value : Option Value} {arrowType : ArrowType}
    {cell : Cell} (h : cellOf c arrowType value = some cell) : cell.dataType = arrowType := by
  cases value with
  | none => simp [cellOf] at h
  | some v =>
    rw [cellOf] at h
    split at h
    · simp at h
    · exact dataType_of_convert h

/-! ### Arrays, builders and batches -/

/-- A column of cells of one type; a builder holds the array that it has built so far. -/
@[ext] structure ArrowArray where
  dataType : ArrowType
  values : List (Option Cell)
  typed : ∀ cell, some cell ∈ values → cell.dataType = dataType

namespace ArrowArray

/-- Map a list of raw values into cells of one type. -/
def ofList {α : Type*} (arrowType : ArrowType) (f : α → Option Cell)
    (hf : ∀ a cell, f a = some cell → cell.dataType = arrowType) (l : List α) : ArrowArray where
  dataType := arrowType
  values := l.map f
  typed := by
    intro cell hcell
    obtain ⟨a, -, ha⟩ := List.mem_map.mp hcell
    exact hf a cell ha

def nulls (arrowType : ArrowType) (n : ℕ) : ArrowArray where
  dataType := arrowType
  values := List.replicate n none
  typed := by
    intro cell hcell
    simp at hcell

def ofStrings : List String → ArrowArray :=
  ofList .string (fun s => some (.string s)) (by rintro s cell ⟨⟩; rfl)

def ofDates : List (Option ℤ) → ArrowArray :=
  ofList .date32 (Option.map .date32) (by
    intro date cell h
    obtain ⟨d, -, rfl⟩ := Option.map_eq_some_iff.mp h
    rfl)

def allNull (a : ArrowArray) : Bool := a.values.all Option.isNone

/-- Arrays of one type, one behind the other. -/
def append (a b : ArrowArray) (h : b.dataType = a.dataType) : ArrowArray where
  dataType := a.dataType
  values := a.values ++ b.values
  typed := by
    intro cell hcell
    rcases List.mem_append.mp hcell with hcell | hcell
    · exact a.typed cell hcell
    · exact (b.typed cell hcell).trans h

end ArrowArray

abbrev TypedBuilder := ArrowArray

namespace TypedBuilder

def new (arrowType : ArrowType) : TypedBuilder := .nulls arrowType 0

def appendNulls (b : TypedBuilder) (n : ℕ) : TypedBuilder :=
  b.append (.nulls b.dataType n) rfl

/-- Append a value; the flag says that a non-null value could not be converted. -/
def appendValue (c : Conversions) (b : TypedBuilder) (value : Option Value) : TypedBuilder × Bool :=
  (b.append (.ofList b.dataType (cellOf c b.dataType) (fun _ _ => dataType_of_cellOf) [value]) rfl,
    typeMiss c b.dataType value)

def padTo (b : TypedBuilder) (len : ℕ) : TypedBuilder := b.appendNulls (len - b.values.length)

end TypedBuilder

structure Field where
  name : String
  dataType : ArrowType
  deriving DecidableEq, Repr

structure Column where
  name : String
  array : ArrowArray

def Column.field (c : Column) : Field := ⟨c.name, c.array.dataType⟩

abbrev Column.values (c : Column) : List (Option Cell) := c.array.values

/-- A batch: named columns of one length. The fields of its schema are those of its columns. -/
structure RecordBatch where
  columns : List Column
  numRows : ℕ
  metadata : Metadata
  rectangular : ∀ column ∈ columns, column.values.length = numRows

namespace RecordBatch

def fields (b : RecordBatch) : List Field := b.columns.map Column.field

def tryNew (fields : List Field) (metadata : Metadata) (arrays : List ArrowArray) :
    Except String RecordBatch :=
  let columns := fields.zipWith (fun field array => ⟨field.name, array⟩) arrays
  if arrays.length ≠ fields.length then
    .error "number of columns must match number of fields in schema"
  else
    match arrays with
    | [] => .error "must either specify a row count or at least one column"
    | first :: _ =>
      if h : ∀ column ∈ columns, column.values.length = first.values.length then
        if arrays.map ArrowArray.dataType = fields.map Field.dataType then
          .ok ⟨columns, first.values.length, metadata, h⟩
        else .error "column types must match schema types"
      else .error "all columns in a record batch must have the same length"

def withMetadata (b : RecordBatch) (metadata : Metadata) : RecordBatch :=
  { b with metadata }

end RecordBatch

def ResponseMetadata.attachTo (m : ResponseMetadata) (batch : RecordBatch) : RecordBatch :=
  batch.withMetadata (m.attach batch.metadata)

/-- The outcome of building a batch, with the failure reported as an internal error. -/
def built (what : String) (m : ResponseMetadata) :
    Except String RecordBatch → Except BlpError RecordBatch
  | .ok batch => .ok (ResponseMetadata.attachTo m batch)
  | .error error => .error (.internal (what ++ ": " ++ error))

/-! ### Long rows with a common value column -/

/-- One long row as a decoder appends it. -/
structure LongRow where
  ticker : String
  date : Option Value
  field : String
  value : Option Value
  dtypeHint : Option String

/-- The common type of the value column: numeric when all requested fields have numeric
hints. -/
def commonValueType (fieldNames : List String) (fieldTypes : Map String ArrowType) : ArrowType :=
  if fieldNames.isEmpty || fieldTypes.isEmpty then .string
  else if fieldNames.all fun name =>
      match fieldTypes.lookup name with
      | some .float64 => true
      | some .int64 => true
      | some .int32 => true
      | _ => false then .float64
  else .string

/-- Calendar days of a date value. -/
def date32Value : Option Value → Option ℤ
  | some v => asDate32 v
  | none => none

structure LongStringColumns where
  ticker : List String
  date : Option (List (Option ℤ))
  field : List String
  value : TypedBuilder
  rowCount : ℕ
  responseMeta : ResponseMetadata

namespace LongStringColumns

def new (valueType : ArrowType) (includeDate : Bool) : LongStringColumns where
  ticker := []
  date := if includeDate then some [] else none
  field := []
  value := .new valueType
  rowCount := 0
  responseMeta := {}

def appendRow (c : Conversions) (l : LongStringColumns) (row : LongRow) : LongStringColumns where
  ticker := l.ticker ++ [row.ticker]
  date := l.date.map (· ++ [date32Value row.date])
  field := l.field ++ [row.field]
  value := (l.value.appendValue c row.value).1
  rowCount := l.rowCount + 1
  responseMeta :=
    if (l.value.appendValue c row.value).2 then l.responseMeta.recordTypeMiss row.field
    else l.responseMeta

def finishRefdata (l : LongStringColumns) : Except BlpError RecordBatch :=
  built "build long ReferenceData RecordBatch" l.responseMeta
    (RecordBatch.tryNew [⟨"ticker", .string⟩, ⟨"field", .string⟩, ⟨"value", l.value.dataType⟩] {}
      [.ofStrings l.ticker, .ofStrings l.field, l.value])

def finishHistdata (l : LongStringColumns) : Except BlpError RecordBatch :=
  match l.date with
  | none => .error (.internal "histdata long columns missing date builder")
  | some date =>
    built "build long HistoricalData RecordBatch" l.responseMeta
      (RecordBatch.tryNew
        [⟨"ticker", .string⟩, ⟨"date", .date32⟩, ⟨"field", .string⟩, ⟨"value", l.value.dataType⟩]
        {} [.ofStrings l.ticker, .ofDates date, .ofStrings l.field, l.value])

end LongStringColumns

/-! ### Long rows with one value column for each type -/

/-- What one value puts into the value columns of typed long rows. -/
structure TypedCells where
  f64 : Option F64 := none
  i64 : Option ℤ := none
  str : Option String := none
  bool : Option Bool := none
  date : Option ℤ := none
  ts : Option ℤ := none
  time : Option ℤ := none

def typedCells : Option Value → TypedCells
  | some (.float64 v) => { f64 := some v }
  | some (.int64 v) => { i64 := some v }
  | some (.int32 v) => { i64 := some v }
  | some (.string s) => { str := some s }
  | some (.enum s) => { str := some s }
  | some (.bool v) => { bool := some v }
  | some (.date32 days) => { date := some days }
  | some (.timestampMicros micros) => { ts := some micros }
  | some (.datetime dt) =>
    if dt.hasDateParts then { ts := some dt.toMicros } else { time := some dt.toTimeMicros }
  | some (.time64Micros micros) => { time := some micros }
  | some (.byte v) => { i64 := some v }
  | some .null => {}
  | none => {}

/-- Arrays of optional raw values. -/
def ArrowArray.ofOptions {α : Type*} (arrowType : ArrowType) (f : α → Cell)
    (hf : ∀ a, (f a).dataType = arrowType) (l : List (Option α)) : ArrowArray :=
  .ofList arrowType (Option.map f) (by
    intro a cell h
    obtain ⟨x, -, rfl⟩ := Option.map_eq_some_iff.mp h
    exact hf x) l

structure TypedLongColumns where
  ticker : List String
  date : Option (List (Option ℤ))
  field : List String
  cells : List TypedCells
  rowCount : ℕ

namespace TypedLongColumns

def new (includeDate : Bool) : TypedLongColumns where
  ticker := []
  date := if includeDate then some [] else none
  field := []
  cells := []
  rowCount := 0

def appendRow (l : TypedLongColumns) (row : LongRow) : TypedLongColumns where
  ticker := l.ticker ++ [row.ticker]
  date := l.date.map (· ++ [date32Value row.date])
  field := l.field ++ [row.field]
  cells := l.cells ++ [typedCells row.value]
  rowCount := l.rowCount + 1

def valueFields : List Field :=
  [⟨"value_f64", .float64⟩, ⟨"value_i64", .int64⟩, ⟨"value_str", .string⟩, ⟨"value_bool", .bool⟩,
    ⟨"value_date", .date32⟩, ⟨"value_ts", .timestampMicros⟩, ⟨"value_time", .time64Micros⟩]

def valueArrays (cells : List TypedCells) : List ArrowArray :=
  [.ofOptions .float64 .float64 (fun _ => rfl) (cells.map TypedCells.f64),
    .ofOptions .int64 .int64 (fun _ => rfl) (cells.map TypedCells.i64),
    .ofOptions .string .string (fun _ => rfl) (cells.map TypedCells.str),
    .ofOptions .bool .bool (fun _ => rfl) (cells.map TypedCells.bool),
    .ofOptions .date32 .date32 (fun _ => rfl) (cells.map TypedCells.date),
    .ofOptions .timestampMicros .timestampMicros (fun _ => rfl) (cells.map TypedCells.ts),
    .ofOptions .time64Micros .time64Micros (fun _ => rfl) (cells.map TypedCells.time)]

def finish (l : TypedLongColumns) : Except BlpError RecordBatch :=
  built "build typed long RecordBatch" {}
    (match l.date with
    | none =>
      RecordBatch.tryNew (⟨"ticker", .string⟩ :: ⟨"field", .string⟩ :: valueFields) {}
        (.ofStrings l.ticker :: .ofStrings l.field :: valueArrays l.cells)
    | some date =>
      RecordBatch.tryNew
        (⟨"ticker", .string⟩ :: ⟨"date", .date32⟩ :: ⟨"field", .string⟩ :: valueFields) {}
        (.ofStrings l.ticker :: .ofDates date :: .ofStrings l.field :: valueArrays l.cells))

end TypedLongColumns

/-! ### Wide rows -/

/-- One wide row: the values of the requested fields in their order. -/
structure WideRow where
  ticker : String
  date : Option Value
  values : List (Option Value)

structure WideFieldColumn where
  name : String
  typeHint : Option ArrowType
  builder : Option TypedBuilder
  typeMisses : ℕ

structure WideColumns where
  ticker : List String
  date : Option (List (Option ℤ))
  fields : List WideFieldColumn
  rowCount : ℕ
  /-- The schema of the last finished batch, dropped when a new column type makes it stale. -/
  schema : Option (List Field)

namespace WideFieldColumn

/-- The type of a column while no value has fixed it. -/
def defaultType (column : WideFieldColumn) : ArrowType := column.typeHint.getD .string

def dataType (column : WideFieldColumn) : ArrowType :=
  match column.builder with
  | some builder => builder.dataType
  | none => column.defaultType

/-- Append the value of one row after `rowCount` rows; the flag says that the schema is stale. -/
def append (c : Conversions) (rowCount : ℕ) (column : WideFieldColumn) (value : Option Value) :
    WideFieldColumn × Bool :=
  match column.builder with
  | some builder =>
    ({ column with
        builder := some (builder.appendValue c value).1
        typeMisses := column.typeMisses + if (builder.appendValue c value).2 then 1 else 0 }, false)
  | none =>
    match value with
    | none => (column, false)
    | some v =>
      if isNull v then (column, false)
      else
        let arrowType := column.typeHint.getD (.fromValue v)
        let builder := (TypedBuilder.new arrowType).appendNulls rowCount
        ({ column with
            builder := some (builder.appendValue c (some v)).1
            typeMisses := column.typeMisses + if (builder.appendValue c (some v)).2 then 1 else 0 },
          arrowType != column.defaultType)

/-- The array of the finished chunk. -/
def array (rowCount : ℕ) (column : WideFieldColumn) : ArrowArray :=
  column.builder.getD (.nulls column.defaultType rowCount)

/-- A finished column keeps its type and starts over. -/
def drained (column : WideFieldColumn) : WideFieldColumn :=
  { column with
    builder := column.builder.map fun builder => .new builder.dataType
    typeMisses := 0 }

end WideFieldColumn

namespace WideColumns

def new (fieldNames : List String) (fieldTypes : Map String ArrowType) (includeDate : Bool) :
    WideColumns where
  ticker := []
  date := if includeDate then some [] else none
  fields := fieldNames.map fun name => ⟨name, fieldTypes.lookup name, none, 0⟩
  rowCount := 0
  schema := none

/-- The value of each column in a row; a column without one gets none. -/
def appended (c : Conversions) (rowCount : ℕ) :
    List WideFieldColumn → List (Option Value) → List (WideFieldColumn × Bool)
  | [], _ => []
  | column :: columns, [] => column.append c rowCount none :: appended c rowCount columns []
  | column :: columns, value :: values =>
    column.append c rowCount value :: appended c rowCount columns values

def appendRow (c : Conversions) (w : WideColumns) (row : WideRow) : WideColumns where
  ticker := w.ticker ++ [row.ticker]
  date := w.date.map (· ++ [date32Value row.date])
  fields := (appended c w.rowCount w.fields row.values).map Prod.fst
  rowCount := w.rowCount + 1
  schema := if (appended c w.rowCount w.fields row.values).any Prod.snd then none else w.schema

def schemaFields (w : WideColumns) (includeDate : Bool) : List Field :=
  ⟨"ticker", .string⟩ :: (if includeDate then [⟨"date", .date32⟩] else []) ++
    w.fields.map fun column => ⟨column.name, column.dataType⟩

def diagnostics (w : WideColumns) : ResponseMetadata :=
  { typeMisses := w.fields.foldl (fun m column =>
      if column.typeMisses > 0 then m.insert column.name column.typeMisses else m) ∅ }

def finish (w : WideColumns) (includeDate : Bool) : Except BlpError RecordBatch × WideColumns :=
  let schema := w.schema.getD (w.schemaFields includeDate)
  match includeDate, w.date with
  | true, none =>
    (.error (.internal "wide HistoricalData columns missing date builder"),
      { w with ticker := [], schema := some schema })
  | _, date =>
    let arrays := .ofStrings w.ticker :: (if includeDate then [.ofDates (date.getD [])] else []) ++
        w.fields.map (WideFieldColumn.array w.rowCount)
    (built "build wide RecordBatch" w.diagnostics (RecordBatch.tryNew schema {} arrays),
      { ticker := []
        date := if includeDate then w.date.map fun _ => [] else w.date
        fields := w.fields.map WideFieldColumn.drained
        rowCount := 0
        schema := some schema })

end WideColumns

/-! ### Columns addressed by slots -/

/-- One resolved column; it joins the output once it is written. -/
structure SlotColumn where
  name : String
  builder : Option TypedBuilder

structure ColumnSet where
  columns : List SlotColumn := []
  slots : Map String ℕ := ∅
  written : List ℕ := []
  typeHints : Map String ArrowType := ∅
  rowCount : ℕ := 0
  responseMeta : ResponseMetadata := {}

namespace ColumnSet

def slot (s : ColumnSet) (name : String) : ℕ × ColumnSet :=
  match s.slots.lookup name with
  | some slot => (slot, s)
  | none =>
    (s.columns.length,
      { s with
        columns := s.columns ++ [⟨name, none⟩]
        slots := s.slots.insert name s.columns.length })

/-- Write a cell of the current row. The first write of a column fixes its type, and the rows
that the column missed are filled with nulls. A slot always comes from this set, so that an
unknown one is not modelled as a panic. -/
def write (c : Conversions) (s : ColumnSet) (slot : ℕ) (firstValueType : ArrowType)
    (value : Option Value) : ColumnSet :=
  match s.columns[slot]? with
  | none => s
  | some column =>
    let builder := (column.builder.getD
      (.new ((s.typeHints.lookup column.name).getD firstValueType))).padTo s.rowCount
    { s with
      columns := s.columns.set slot { column with builder := some (builder.appendValue c value).1 }
      written := if column.builder.isNone then s.written ++ [slot] else s.written
      responseMeta :=
        if (builder.appendValue c value).2 then s.responseMeta.recordTypeMiss column.name
        else s.responseMeta }

def appendSlot (c : Conversions) (s : ColumnSet) (slot : ℕ) (value : Value) : ColumnSet :=
  s.write c slot (.fromValue value) (some value)

def appendStrSlot (c : Conversions) (s : ColumnSet) (slot : ℕ) (value : String) : ColumnSet :=
  s.appendSlot c slot (.string value)

def appendNullSlot (c : Conversions) (s : ColumnSet) (slot : ℕ) : ColumnSet :=
  s.write c slot .string none

def endRow (s : ColumnSet) : ColumnSet := { s with rowCount := s.rowCount + 1 }

/-- Pad and finish one written column. -/
def finishColumn (s : ColumnSet) (slot : ℕ) : Option (Field × ArrowArray) :=
  (s.columns[slot]?).bind fun column =>
    column.builder.map fun builder =>
      (⟨column.name, builder.dataType⟩, builder.padTo s.rowCount)

/-- The slots in output order: those named by `order` first, the rest as they were written. -/
def outputOrder (s : ColumnSet) : List String → List ℕ → List ℕ
  | [], remaining => remaining
  | name :: order, remaining =>
    match s.slots.lookup name with
    | none => s.outputOrder order remaining
    | some slot =>
      if slot ∈ remaining then slot :: s.outputOrder order (remaining.erase slot)
      else s.outputOrder order remaining

def finishWithOrder (s : ColumnSet) (order : List String) : Except BlpError RecordBatch :=
  if s.written.isEmpty && order.isEmpty then .ok ⟨[], 0, {}, by simp⟩
  else if s.written.isEmpty then
    let fields := order.map fun name => (⟨name, (s.typeHints.lookup name).getD .string⟩ : Field)
    built "build empty RecordBatch from order" {}
      (RecordBatch.tryNew fields {} (fields.map fun field => .nulls field.dataType 0))
  else
    let finished := (s.outputOrder order s.written).filterMap s.finishColumn
    built "build RecordBatch" s.responseMeta
      (RecordBatch.tryNew (finished.map Prod.fst) {} (finished.map Prod.snd))

end ColumnSet

inductive LongMode where
  | string
  | withMetadata
  | typed
  deriving DecidableEq, Repr

inductive OutputFormat where
  | long
  | wide
  deriving DecidableEq, Repr

/-- Slots of long rows, resolved once for a column set. -/
structure LongRowWriter where
  mode : LongMode
  ticker : ℕ
  date : Option ℕ
  field : ℕ
  value : ℕ
  dtype : ℕ

namespace LongRowWriter

def new (s : ColumnSet) (mode : LongMode) (includeDate : Bool) : LongRowWriter × ColumnSet :=
  let (ticker, s) := s.slot "ticker"
  let (date, s) :=
    if includeDate then
      let (date, s) := s.slot "date"
      (some date, s)
    else (none, s)
  let (field, s) := s.slot "field"
  let (value, s) := s.slot "value"
  let (dtype, s) := s.slot "dtype"
  (⟨mode, ticker, date, field, value, dtype⟩, s)

def appendDate (c : Conversions) (w : LongRowWriter) (s : ColumnSet) (date : Option Value) :
    ColumnSet :=
  match w.date, date with
  | none, _ => s
  | some slot, some date => s.appendSlot c slot date
  | some slot, none => s.appendNullSlot c slot

/-- The typed mode appends through `TypedLongColumns` and never reaches this writer. -/
def appendValue (c : Conversions) (w : LongRowWriter) (s : ColumnSet) (row : LongRow) :
    ColumnSet :=
  match w.mode, row.value with
  | .string, some value => s.appendSlot c w.value value
  | .string, none => s.appendNullSlot c w.value
  | .withMetadata, some value =>
    (s.appendStrSlot c w.value (valueToString c value)).appendStrSlot c w.dtype
      (row.dtypeHint.getD (ArrowType.fromValue value).typeName)
  | .withMetadata, none => (s.appendNullSlot c w.value).appendStrSlot c w.dtype "null"
  | .typed, _ => s

def appendRow (c : Conversions) (w : LongRowWriter) (s : ColumnSet) (row : LongRow) : ColumnSet :=
  let s := s.appendStrSlot c w.ticker row.ticker
  let s := w.appendDate c s row.date
  let s := s.appendStrSlot c w.field row.field
  (w.appendValue c s row).endRow

end LongRowWriter

end Xbbg.Columns
