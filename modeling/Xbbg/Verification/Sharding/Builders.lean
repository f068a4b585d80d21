import Xbbg.Model.Responses
import Xbbg.Verification.Columns.Writes

/-! What the column builders hold after a number of rows: each column of the finished batch has
one cell for each row, read from the row at the type of the column. -/

namespace Xbbg.Columns

open Function List Library Diagnostics TypedBuilder ArrowArray

variable {c : Conversions} {includeDate : Bool} {rows : List LongRow} {s : ColumnSet}

/-! ### Long rows with a common value column -/

def tickerReader : Reader LongRow := ⟨"ticker", fun _ row => some (.string row.ticker)⟩

def dateReader : Reader LongRow :=
  ⟨"date", fun _ row => (date32Value row.date).map .date32⟩

def fieldReader : Reader LongRow := ⟨"field", fun _ row => some (.string row.field)⟩

def stringReaders (c : Conversions) (includeDate : Bool) : List (Reader LongRow) :=
  tickerReader :: (if includeDate then [dateReader] else []) ++
    [fieldReader, ⟨"value", fun arrowType row => cellOf c arrowType row.value⟩]

def stringFields (valueType : ArrowType) (includeDate : Bool) : List Field :=
  ⟨"ticker", .string⟩ :: (if includeDate then [⟨"date", .date32⟩] else []) ++
    [⟨"field", .string⟩, ⟨"value", valueType⟩]

theorem fills_strings {ρ : Type*} (rows : List ρ) (reader : Reader ρ) (f : ρ → String)
    (hr : reader.read .string = fun row => some (.string (f row))) :
    reader.Fills rows ⟨reader.name, .ofStrings (rows.map f)⟩ := by
  refine ⟨rfl, ?_⟩
  change map _ (rows.map f) = rows.map (reader.read .string)
  rw [hr, map_map]
  rfl

theorem fills_dates {ρ : Type*} (rows : List ρ) (reader : Reader ρ) (f : ρ → Option ℤ)
    (hr : reader.read .date32 = fun row => (f row).map .date32) :
    reader.Fills rows ⟨reader.name, .ofDates (rows.map f)⟩ := by
  refine ⟨rfl, ?_⟩
  change map _ (rows.map f) = rows.map (reader.read .date32)
  rw [hr, map_map]
  rfl

namespace LongStringColumns

variable {c : Conversions} {includeDate : Bool} {rows : List LongRow} {l : LongStringColumns}

structure Holds (c : Conversions) (valueType : ArrowType) (includeDate : Bool)
    (rows : List LongRow) (l : LongStringColumns) : Prop where
  ticker : l.ticker = rows.map LongRow.ticker
  date : l.date = if includeDate then some (rows.map fun row => date32Value row.date) else none
  field : l.field = rows.map LongRow.field
  dataType : l.value.dataType = valueType
  value : l.value.values = rows.map fun row => cellOf c valueType row.value
  rowCount : l.rowCount = rows.length
  responseMeta : OnlyMisses l.responseMeta

theorem holds_new (c : Conversions) (valueType : ArrowType) (includeDate : Bool) :
    Holds c valueType includeDate [] (new valueType includeDate) :=
  ⟨rfl, rfl, rfl, rfl, rfl, rfl, rfl, rfl⟩

variable {valueType : ArrowType}

theorem Holds.appendRow (h : Holds c valueType includeDate rows l)
    (row : LongRow) : Holds c valueType includeDate (rows ++ [row]) (l.appendRow c row) where
  ticker := by simp [LongStringColumns.appendRow, h.ticker]
  date := by
    cases includeDate <;> simp [LongStringColumns.appendRow, h.date]
  field := by simp [LongStringColumns.appendRow, h.field]
  dataType := h.dataType
  value := by
    simp [LongStringColumns.appendRow, h.value, h.dataType]
  rowCount := by simp [LongStringColumns.appendRow, h.rowCount]
  responseMeta := by
    simp only [LongStringColumns.appendRow]
    split
    · exact h.responseMeta.recordTypeMiss _
    · exact h.responseMeta

theorem Holds.fills_value (h : Holds c valueType includeDate rows l) :
    Reader.Fills rows ⟨"value", fun ty row => cellOf c ty row.value⟩
      ⟨"value", l.value⟩ :=
  ⟨rfl, by rw [Column.values, h.value, h.dataType]⟩

theorem Holds.finish (h : Holds c valueType includeDate rows l) :
    ∃ b, (if includeDate then l.finishHistdata else l.finishRefdata) = .ok b ∧
      Renders (stringReaders c includeDate) rows b ∧ Plain b.metadata ∧
      b.fields = stringFields valueType includeDate := by
  have ht := fills_strings rows tickerReader LongRow.ticker rfl
  have hf := fills_strings rows fieldReader LongRow.field rfl
  rw [← h.ticker] at ht
  rw [← h.field] at hf
  rw [← h.dataType]
  cases includeDate with
  | false =>
    exact exists_built (.cons ht (.cons hf (.cons h.fills_value .nil))) (by simp)
      h.responseMeta "build long ReferenceData RecordBatch"
  | true =>
    have hd := fills_dates rows dateReader (fun row => date32Value row.date) rfl
    rw [if_pos rfl, finishHistdata, h.date]
    exact exists_built (.cons ht (.cons hd (.cons hf (.cons h.fills_value .nil))))
      (by simp) h.responseMeta "build long HistoricalData RecordBatch"

end LongStringColumns

/-! ### Long rows with one value column for each type -/

def typedReader {α : Type*} (name : String) (f : α → Cell) (part : TypedCells → Option α) :
    Reader LongRow :=
  ⟨name, fun _ row => (part (typedCells row.value)).map f⟩

def valueReaders : List (Reader LongRow) :=
  [typedReader "value_f64" .float64 TypedCells.f64, typedReader "value_i64" .int64 TypedCells.i64,
    typedReader "value_str" .string TypedCells.str, typedReader "value_bool" .bool TypedCells.bool,
    typedReader "value_date" .date32 TypedCells.date,
    typedReader "value_ts" .timestampMicros TypedCells.ts,
    typedReader "value_time" .time64Micros TypedCells.time]

def typedReaders (includeDate : Bool) : List (Reader LongRow) :=
  tickerReader :: (if includeDate then [dateReader] else []) ++ fieldReader :: valueReaders

def typedFields (includeDate : Bool) : List Field :=
  ⟨"ticker", .string⟩ :: (if includeDate then [⟨"date", .date32⟩] else []) ++
    ⟨"field", .string⟩ :: TypedLongColumns.valueFields

namespace TypedLongColumns

variable {rows : List LongRow}

structure Holds (includeDate : Bool) (rows : List LongRow) (l : TypedLongColumns) : Prop where
  ticker : l.ticker = rows.map LongRow.ticker
  date : l.date = if includeDate then some (rows.map fun row => date32Value row.date) else none
  field : l.field = rows.map LongRow.field
  cells : l.cells = rows.map fun row => typedCells row.value
  rowCount : l.rowCount = rows.length

theorem holds_new (includeDate : Bool) : Holds includeDate [] (new includeDate) :=
  ⟨rfl, rfl, rfl, rfl, rfl⟩

variable {l : TypedLongColumns}

theorem Holds.appendRow {includeDate : Bool} (h : Holds includeDate rows l) (row : LongRow) :
    Holds includeDate (rows ++ [row]) (l.appendRow row) where
  ticker := by simp [TypedLongColumns.appendRow, h.ticker]
  date := by
    cases includeDate <;> simp [TypedLongColumns.appendRow, h.date]
  field := by simp [TypedLongColumns.appendRow, h.field]
  cells := by simp [TypedLongColumns.appendRow, h.cells]
  rowCount := by simp [TypedLongColumns.appendRow, h.rowCount]

theorem fills_typed {α : Type*} (name : String) (ty : ArrowType) (f : α → Cell)
    (hf : ∀ a, (f a).dataType = ty) (part : TypedCells → Option α) :
    (typedReader name f part).Fills rows ⟨name,
      .ofOptions ty f hf ((rows.map fun row => typedCells row.value).map part)⟩ := by
  refine ⟨rfl, ?_⟩
  change map _ (map _ (map _ rows)) = _
  rw [map_map, map_map]
  rfl

theorem fills_values (rows : List LongRow) : Forall₂ (Reader.Fills rows) valueReaders
      (valueFields.zipWith (fun f arr => ⟨f.name, arr⟩)
        (valueArrays (rows.map fun row => typedCells row.value))) :=
  .cons (fills_typed _ _ _ _ _) (.cons (fills_typed _ _ _ _ _) (.cons (fills_typed _ _ _ _ _)
    (.cons (fills_typed _ _ _ _ _) (.cons (fills_typed _ _ _ _ _) (.cons (fills_typed _ _ _ _ _)
      (.cons (fills_typed _ _ _ _ _) .nil))))))

theorem Holds.finish {includeDate : Bool} (h : Holds includeDate rows l) :
    ∃ b, l.finish = .ok b ∧ Renders (typedReaders includeDate) rows b ∧
      Plain b.metadata ∧ b.fields = typedFields includeDate := by
  have ht := fills_strings rows tickerReader LongRow.ticker rfl
  have hf := fills_strings rows fieldReader LongRow.field rfl
  have hv := fills_values rows
  rw [← h.cells] at hv
  rw [← h.ticker] at ht
  rw [← h.field] at hf
  rw [TypedLongColumns.finish, h.date]
  cases includeDate with
  | false =>
    exact exists_built (.cons ht (.cons hf hv)) (by simp) ⟨rfl, rfl⟩
      "build typed long RecordBatch"
  | true =>
    have hd := fills_dates rows dateReader (fun row => date32Value row.date) rfl
    exact exists_built (.cons ht (.cons hd (.cons hf hv))) (by simp) ⟨rfl, rfl⟩
      "build typed long RecordBatch"

end TypedLongColumns

/-! ### Wide rows -/

structure DataRow where
  ticker : String
  date : Option Value
  get : String → Option Value

/-- The row as the wide columns of the requested fields take it. -/
def DataRow.wide (fieldNames : List String) (row : DataRow) : WideRow :=
  ⟨row.ticker, row.date, fieldNames.map row.get⟩

def wideReaders (c : Conversions) (fieldNames : List String) (includeDate : Bool) :
    List (Reader DataRow) :=
  ⟨"ticker", fun _ row => some (.string row.ticker)⟩ ::
    (if includeDate then [⟨"date", fun _ row => (date32Value row.date).map .date32⟩] else []) ++
      fieldNames.map fun name => ⟨name, fun arrowType row => cellOf c arrowType (row.get name)⟩

namespace WideFieldColumn

variable {c : Conversions}

/-- The first value that is not null. -/
def firstValue (values : List (Option Value)) : Option Value :=
  values.findSome? (Option.filter (!isNull ·))

/-- The type of a column: hinted, or that of its first value. -/
def typeFor (hint : Option ArrowType) (values : List (Option Value)) : ArrowType :=
  hint.getD (((firstValue values).map ArrowType.fromValue).getD .string)

/-- A column after the given values: without a builder all of them were null. -/
structure Holds (c : Conversions) (name : String) (hint : Option ArrowType)
    (values : List (Option Value)) (column : WideFieldColumn) : Prop where
  name : column.name = name
  typeHint : column.typeHint = hint
  unbuilt : column.builder = none → firstValue values = none
  built : ∀ builder, column.builder = some builder →
    (firstValue values).isSome ∧ builder.dataType = typeFor hint values ∧
      builder.values = values.map (cellOf c builder.dataType)

theorem map_cellOf_of_firstValue {values : List (Option Value)} (h : firstValue values = none)
    (ty : ArrowType) : values.map (cellOf c ty) = replicate values.length none := by
  rw [eq_replicate_iff]
  refine ⟨length_map .., fun cell hc => ?_⟩
  obtain ⟨value, hv, rfl⟩ := mem_map.mp hc
  cases value with
  | none => rfl
  | some v =>
    have hn := findSome?_eq_none_iff.mp h (some v) hv
    rw [cellOf, if_pos (by simpa using hn)]

theorem firstValue_append (values : List (Option Value)) (value : Option Value) :
    firstValue (values ++ [value]) = (firstValue values).or (firstValue [value]) :=
  findSome?_append

variable {column : WideFieldColumn} {name : String} {hint : Option ArrowType}

theorem Holds.append {values : List (Option Value)} (h : Holds c name hint values column)
    (value : Option Value) :
    Holds c name hint (values ++ [value]) (column.append c values.length value).1 := by
  have hf := firstValue_append values value
  -- A null value leaves a column without a builder as it is.
  have hbl : column.builder = none → firstValue [value] = none →
      Holds c name hint (values ++ [value]) column := by
    intro hb hn
    refine ⟨h.name, h.typeHint, fun _ => ?_, fun builder hs => by rw [hb] at hs; cases hs⟩
    rw [hf, h.unbuilt hb, hn]
    rfl
  unfold WideFieldColumn.append
  split
  · rename_i builder hb
    refine ⟨h.name, h.typeHint, fun hno => (nomatch hno), fun next hne => ?_⟩
    cases hne
    obtain ⟨hs, ht, hv⟩ := h.built builder hb
    obtain ⟨first, hs⟩ := Option.isSome_iff_exists.mp hs
    rw [hs, Option.some_or] at hf
    refine ⟨Option.isSome_of_eq_some hf, ?_, ?_⟩
    · rw [dataType_appendValue, ht, typeFor, typeFor, hs, hf]
    · rw [values_appendValue, dataType_appendValue, hv, map_append, map_singleton]
  · rename_i hb
    split
    · exact hbl hb rfl
    · rename_i v
      split
      · rename_i hn
        exact hbl hb (by simp [firstValue, hn])
      · rename_i hn
        refine ⟨h.name, h.typeHint, fun hno => (nomatch hno), fun next hne => ?_⟩
        cases hne
        have hv : firstValue [some v] = some v := by simp [firstValue, hn]
        rw [h.unbuilt hb, Option.none_or, hv] at hf
        simp only [values_appendValue, values_appendNulls, values_new, dataType_appendValue,
          dataType_appendNulls, dataType_new, nil_append]
        refine ⟨Option.isSome_of_eq_some hf, ?_, ?_⟩
        · rw [typeFor, hf, h.typeHint]
          rfl
        · rw [map_append, map_cellOf_of_firstValue (h.unbuilt hb), map_singleton]

theorem array_dataType (rowCount : ℕ) (column : WideFieldColumn) :
    (column.array rowCount).dataType = column.dataType := by
  cases hb : column.builder <;> simp [array, dataType, hb, nulls]

theorem Holds.dataType_array {values : List (Option Value)} (h : Holds c name hint values column)
    (rowCount : ℕ) : (column.array rowCount).dataType = typeFor hint values := by
  cases hb : column.builder with
  | none => simp [array, hb, nulls, defaultType, h.typeHint, typeFor, h.unbuilt hb]
  | some builder => simpa [array, hb] using (h.built builder hb).2.1

theorem Holds.fills {rows : List DataRow}
    (h : Holds c name hint (rows.map fun row => row.get name) column) :
    Reader.Fills rows ⟨name, fun arrowType row => cellOf c arrowType (row.get name)⟩
      ⟨column.name, column.array rows.length⟩ := by
  refine ⟨h.name, ?_⟩
  cases hb : column.builder with
  | none =>
    have ha : column.array rows.length = .nulls column.defaultType rows.length := by
      simp [array, hb]
    have hn := map_cellOf_of_firstValue (c := c) (h.unbuilt hb) column.defaultType
    rw [map_map, length_map] at hn
    rw [Column.values, ha]
    exact hn.symm
  | some builder =>
    have ha : column.array rows.length = builder := by simp [array, hb]
    rw [Column.values, ha, (h.built builder hb).2.2, map_map]
    rfl

end WideFieldColumn

namespace WideColumns

variable {c : Conversions} {rows : List DataRow} {fieldNames : List String}

/-- The columns of a wide batch of the given rows. -/
def fieldsOf (fieldTypes : Map String ArrowType) (fieldNames : List String) (includeDate : Bool)
    (rows : List DataRow) : List Field :=
  ⟨"ticker", .string⟩ :: (if includeDate then [⟨"date", .date32⟩] else []) ++
    fieldNames.map fun name =>
      ⟨name, WideFieldColumn.typeFor (fieldTypes.lookup name) (rows.map fun row => row.get name)⟩

structure Holds (c : Conversions) (fieldTypes : Map String ArrowType) (fieldNames : List String)
    (includeDate : Bool) (rows : List DataRow) (w : WideColumns) : Prop where
  ticker : w.ticker = rows.map DataRow.ticker
  date : w.date = if includeDate then some (rows.map fun row => date32Value row.date) else none
  fields : List.Forall₂ (fun name column => WideFieldColumn.Holds c name (fieldTypes.lookup name)
    (rows.map fun row => row.get name) column) fieldNames w.fields
  rowCount : w.rowCount = rows.length
  schema : w.schema = none

theorem holds_new (c : Conversions) (fieldNames : List String) (fieldTypes : Map String ArrowType)
    (includeDate : Bool) :
    Holds c fieldTypes fieldNames includeDate [] (new fieldNames fieldTypes includeDate) where
  ticker := rfl
  date := rfl
  fields := by
    rw [new, forall₂_map_right_iff]
    apply forall₂_same.mpr
    intro name _
    exact ⟨rfl, rfl, fun _ => rfl, fun b hb => (nomatch hb)⟩
  rowCount := rfl
  schema := rfl

variable {cols : List WideFieldColumn} {fieldTypes : Map String ArrowType}

theorem forall₂_appended
    (h : Forall₂ (fun name col => WideFieldColumn.Holds c name (fieldTypes.lookup name)
      (rows.map fun row => row.get name) col) fieldNames cols) (row : DataRow) :
    Forall₂ (fun name col => WideFieldColumn.Holds c name (fieldTypes.lookup name)
      ((rows ++ [row]).map fun row => row.get name) col) fieldNames
      ((appended c rows.length cols (fieldNames.map row.get)).map Prod.fst) := by
  induction h with
  | nil => exact .nil
  | cons hc _ ih =>
    refine .cons ?_ ih
    simpa using hc.append (row.get _)

theorem Holds.appendRow {includeDate : Bool} {w : WideColumns}
    (h : Holds c fieldTypes fieldNames includeDate rows w) (row : DataRow) :
    Holds c fieldTypes fieldNames includeDate (rows ++ [row])
      (w.appendRow c (row.wide fieldNames)) where
  ticker := by simp [WideColumns.appendRow, h.ticker, DataRow.wide]
  date := by
    cases includeDate <;> simp [WideColumns.appendRow, h.date, DataRow.wide]
  fields := by
    simp only [WideColumns.appendRow, h.rowCount, DataRow.wide]
    exact forall₂_appended h.fields row
  rowCount := by simp [WideColumns.appendRow, h.rowCount]
  schema := by simp [WideColumns.appendRow, h.schema]

theorem forall₂_fills
    (h : Forall₂ (fun name col => WideFieldColumn.Holds c name (fieldTypes.lookup name)
      (rows.map fun row => row.get name) col) fieldNames cols) :
    Forall₂ (Reader.Fills rows)
      (fieldNames.map fun name => ⟨name, fun ty row => cellOf c ty (row.get name)⟩)
      (cols.map fun col => ⟨col.name, col.array rows.length⟩) ∧
    cols.map (fun col => ⟨col.name, (col.array rows.length).dataType⟩) =
      fieldNames.map fun name => (⟨name, WideFieldColumn.typeFor (fieldTypes.lookup name)
        (rows.map fun row => row.get name)⟩ : Field) := by
  induction h with
  | nil => exact ⟨.nil, rfl⟩
  | cons hc _ ih =>
    refine ⟨.cons hc.fills ih.1, ?_⟩
    rw [map_cons, map_cons, ih.2, hc.name, hc.dataType_array]

theorem Holds.finish {includeDate : Bool} {w : WideColumns}
    (h : Holds c fieldTypes fieldNames includeDate rows w) :
    ∃ b, (w.finish includeDate).1 = .ok b ∧
      Renders (wideReaders c fieldNames includeDate) rows b ∧ Plain b.metadata ∧
      b.fields = fieldsOf fieldTypes fieldNames includeDate rows := by
  have ht := fills_strings rows ⟨"ticker", fun _ row => some (.string row.ticker)⟩
    DataRow.ticker rfl
  obtain ⟨hf, hty⟩ := forall₂_fills h.fields
  rw [← h.ticker] at ht
  rw [← h.rowCount] at hf hty
  cases includeDate with
  | false =>
    obtain ⟨b, hb, hr, hp, hfi⟩ := exists_built (.cons ht hf) (by simp)
      (r := w.diagnostics) ⟨rfl, rfl⟩ "build wide RecordBatch"
    refine ⟨b, ?_, hr, hp, ?_⟩
    · rw [← hb]
      simp [WideColumns.finish, h.schema, h.date, schemaFields, comp_def, Column.field,
        WideFieldColumn.array_dataType, ofStrings, ofList]
    · rw [hfi, fieldsOf, ← hty, map_cons, map_map]
      rfl
  | true =>
    have hd := fills_dates rows ⟨"date", fun _ row => (date32Value row.date).map .date32⟩
      (fun row => date32Value row.date) rfl
    obtain ⟨b, hb, hr, hp, hfi⟩ := exists_built (.cons ht (.cons hd hf))
      (by simp) (r := w.diagnostics) ⟨rfl, rfl⟩ "build wide RecordBatch"
    refine ⟨b, ?_, hr, hp, ?_⟩
    · rw [← hb]
      simp [WideColumns.finish, h.schema, h.date, schemaFields, comp_def, Column.field,
        WideFieldColumn.array_dataType, ofStrings, ofDates, ofList]
    · rw [hfi, fieldsOf, ← hty, map_cons, map_cons, map_map]
      rfl

end WideColumns

/-! ### Columns addressed by slots -/

/-- The value that a row writes to a slot, and the type it gives to a new column. -/
structure SlotSource where
  name : String
  value : LongRow → Option Value
  firstType : LongRow → ArrowType

def dtypeOf (row : LongRow) : String :=
  match row.value with
  | some value => row.dtypeHint.getD (ArrowType.fromValue value).typeName
  | none => "null"

/-- The slots of long rows with metadata, in the order in which a row writes them. -/
def slotSources (c : Conversions) (includeDate : Bool) : List SlotSource :=
  ⟨"ticker", fun row => some (.string row.ticker), fun _ => .string⟩ ::
    (if includeDate then
      [⟨"date", LongRow.date, fun row => (row.date.map ArrowType.fromValue).getD .string⟩]
    else []) ++
    [⟨"field", fun row => some (.string row.field), fun _ => .string⟩,
      ⟨"value", fun row => row.value.map fun value => .string (valueToString c value),
        fun _ => .string⟩,
      ⟨"dtype", fun row => some (.string (dtypeOf row)), fun _ => .string⟩]

def SlotSource.reader (c : Conversions) (source : SlotSource) : Reader LongRow :=
  ⟨source.name, fun arrowType row => cellOf c arrowType (source.value row)⟩

def metadataReaders (c : Conversions) (includeDate : Bool) : List (Reader LongRow) :=
  (slotSources c includeDate).map (SlotSource.reader c)

/-! ### Long rows with metadata -/

def slotsOf (names : List String) : Map String ℕ :=
  names.zipIdx.foldl (fun slots entry => slots.insert entry.1 entry.2) ∅

def slotNames (includeDate : Bool) : List String :=
  "ticker" :: (if includeDate then ["date"] else []) ++ ["field", "value", "dtype"]

def slotOf (includeDate : Bool) (name : String) : ℕ :=
  ((slotsOf (slotNames includeDate)).lookup name).getD 0

/-- What a row writes, with the types that its writes give to new columns. -/
def slotWrites (c : Conversions) (typeHints : Map String ArrowType) (includeDate : Bool)
    (row : LongRow) : List (ArrowType × Write) :=
  (slotSources c includeDate).map fun source =>
    ((typeHints.lookup source.name).getD (source.firstType row), source.name, source.value row)

theorem map_name_slotWrites (c : Conversions) (typeHints : Map String ArrowType)
    (includeDate : Bool) (row : LongRow) :
    (slotWrites c typeHints includeDate row).map (fun w => w.2.1) = slotNames includeDate := by
  cases includeDate <;> rfl

theorem map_name_slotSources (c : Conversions) (includeDate : Bool) :
    (slotSources c includeDate).map SlotSource.name = slotNames includeDate := by
  cases includeDate <;> rfl

theorem nodup_slotNames (includeDate : Bool) : (slotNames includeDate).Nodup := by
  cases includeDate <;> decide

theorem find?_slotWrites (c : Conversions) (typeHints : Map String ArrowType) (row : LongRow)
    {src : SlotSource} (h : src ∈ slotSources c includeDate) :
    (slotWrites c typeHints includeDate row).find? (fun w => w.2.1 = src.name) =
      some ((typeHints.lookup src.name).getD (src.firstType row), src.name, src.value row) := by
  have hn : ((slotSources c includeDate).map SlotSource.name).Nodup :=
    map_name_slotSources c includeDate ▸ nodup_slotNames includeDate
  have hf := find?_eq_some_of_nodup hn h
  rw [slotWrites, find?_map]
  simp only [comp_def]
  rw [show ((slotSources c includeDate).find? fun o => o.name = src.name) = some src from hf]
  rfl

/-- The first row gives a column its type. -/
theorem typeOf_slotWrites (c : Conversions) (typeHints : Map String ArrowType) (a : LongRow)
    (rest : List LongRow) {src : SlotSource} (h : src ∈ slotSources c includeDate) :
    (rowsLog ((a :: rest).map (slotWrites c typeHints includeDate))).typeOf src.name =
      (typeHints.lookup src.name).getD (src.firstType a) := by
  rw [Log.typeOf, Log.entries, head?_filter, map_cons, rowsLog, mapIdx_cons, flatten_cons,
    find?_append, find?_map]
  simp only [comp_def]
  rw [find?_slotWrites c typeHints a h]
  rfl

structure ColumnSet.Holds (c : Conversions) (typeHints : Map String ArrowType) (includeDate : Bool)
    (rows : List LongRow) (s : ColumnSet) : Prop where
  written : Written c (rowsLog (rows.map (slotWrites c typeHints includeDate))) s
  slots : s.slots = slotsOf (slotNames includeDate)
  typeHints : s.typeHints = typeHints
  rowCount : s.rowCount = rows.length

/-- The writer of rows with metadata, which has the slots of the names in order. -/
def metadataWriter (includeDate : Bool) : LongRowWriter :=
  if includeDate then ⟨.withMetadata, 0, some 1, 2, 3, 4⟩ else ⟨.withMetadata, 0, none, 1, 2, 3⟩

theorem appendRow_eq_foldl (c : Conversions) (s : ColumnSet) (includeDate : Bool) (row : LongRow) :
    (metadataWriter includeDate).appendRow c s row =
      ((slotWrites c ∅ includeDate row).foldl (fun s w =>
        s.write c (slotOf includeDate w.2.1) w.1 w.2.2) s).endRow := by
  obtain ⟨ticker, date, f, v, dtypeHint⟩ := row
  cases includeDate <;> cases v <;> cases date <;> rfl

variable {typeHints : Map String ArrowType}

theorem ColumnSet.Holds.appendRow
    (h : ColumnSet.Holds c typeHints includeDate rows s) (row : LongRow) :
    ColumnSet.Holds c typeHints includeDate (rows ++ [row])
      ((metadataWriter includeDate).appendRow c s row) := by
  have hs : ∀ w ∈ slotWrites c ∅ includeDate row,
      s.slots.lookup w.2.1 = some (slotOf includeDate w.2.1) := by
    intro w hw
    have hn : w.2.1 ∈ slotNames includeDate :=
      map_name_slotWrites c ∅ includeDate row ▸ mem_map_of_mem hw
    have hall : ∀ name ∈ slotNames includeDate, (slotsOf (slotNames includeDate)).lookup name =
        some (slotOf includeDate name) := by
      cases includeDate <;> decide
    rw [h.slots]
    exact hall _ hn
  rw [appendRow_eq_foldl]
  obtain ⟨hw, hsl, hty, hro⟩ := h.written.writeAll hs rfl
  refine ⟨?_, hsl.trans h.slots, hty.trans h.typeHints, ?_⟩
  · have hlog : (slotWrites c ∅ includeDate row).map (fun w => entryOf s w.1 w.2) =
        (slotWrites c typeHints includeDate row).map fun w =>
          ⟨(rows.map (slotWrites c typeHints includeDate)).length, w.1, w.2⟩ := by
      rw [slotWrites, slotWrites, map_map, map_map]
      simp [entryOf, h.rowCount, h.typeHints, comp_def]
    rw [map_append, map_singleton, rowsLog_append, ← hlog]
    exact hw.endRow
  · simp [ColumnSet.endRow, hro, h.rowCount]

theorem metadataWriter_new (c : Conversions) (typeHints : Map String ArrowType)
    (includeDate : Bool) :
    ∃ s, LongRowWriter.new { typeHints := typeHints } .withMetadata includeDate =
        (metadataWriter includeDate, s) ∧ ColumnSet.Holds c typeHints includeDate [] s := by
  have hw := written_new c typeHints
  cases includeDate with
  | false =>
    refine ⟨_, rfl, ?_, rfl, rfl, rfl⟩
    exact ((((hw.slot "ticker").1.slot "field").1.slot "value").1.slot "dtype").1
  | true =>
    refine ⟨_, rfl, ?_, rfl, rfl, rfl⟩
    exact (((((hw.slot "ticker").1.slot "date").1.slot "field").1.slot "value").1.slot "dtype").1

theorem forall₂_fills_nil (c : Conversions) (typeOf : String → ArrowType)
    (sources : List SlotSource) :
    Forall₂ (Reader.Fills []) (sources.map (SlotSource.reader c))
      ((sources.map SlotSource.name).map fun name => ⟨name, .nulls (typeOf name) 0⟩) := by
  induction sources with
  | nil => exact .nil
  | cons src sources ih => exact .cons ⟨rfl, rfl⟩ ih

/-- The columns of rows with metadata: their types are hinted or those of the first row. -/
def slotFields (c : Conversions) (typeHints : Map String ArrowType) (includeDate : Bool)
    (rows : List LongRow) : List Field :=
  (slotSources c includeDate).map fun source =>
    ⟨source.name, (typeHints.lookup source.name).getD
      ((rows.head?.map source.firstType).getD .string)⟩

theorem ColumnSet.finish_of_unwritten (c : Conversions) (h : s.written = []) (includeDate : Bool) :
    ∃ b, s.finishWithOrder (slotNames includeDate) = .ok b ∧
      Renders (metadataReaders c includeDate) [] b ∧ Plain b.metadata ∧
      b.fields = slotFields c s.typeHints includeDate [] := by
  have hf := forall₂_fills_nil c (fun name => (s.typeHints.lookup name).getD .string)
    (slotSources c includeDate)
  rw [map_name_slotSources] at hf
  obtain ⟨b, hb, hr, hp, hfi⟩ := exists_built hf (by cases includeDate <;> simp [slotNames])
    (r := {}) ⟨rfl, rfl⟩ "build empty RecordBatch from order"
  refine ⟨b, ?_, hr, hp, ?_⟩
  · have hn : (slotNames includeDate).isEmpty = false := by cases includeDate <;> rfl
    rw [finishWithOrder, h, hn, ← hb, map_map, map_map]
    simp [comp_def, Column.field, nulls]
  · rw [hfi, ← map_name_slotSources c, map_map, map_map]
    rfl

/-- All columns are written by each row, in the order of the slots. -/
theorem names_slotWrites (hne : rows ≠ []) (c : Conversions) (typeHints : Map String ArrowType)
    (includeDate : Bool) :
    (rowsLog (rows.map (slotWrites c typeHints includeDate))).names = slotNames includeDate := by
  have hp : (rowsLog (rows.map (slotWrites c typeHints includeDate))).names <+:
      slotNames includeDate :=
    names_rowsLog_isPrefix (nodup_slotNames includeDate) fun ws hw => by
      obtain ⟨row, -, rfl⟩ := mem_map.mp hw
      exact map_name_slotWrites c typeHints includeDate row ▸ prefix_refl _
  obtain ⟨a, rest, rfl⟩ := exists_cons_of_ne_nil hne
  refine hp.eq_of_length_le ((subperm_of_subset (nodup_slotNames includeDate) ?_).length_le)
  intro name hn
  rw [← map_name_slotWrites c typeHints includeDate a] at hn
  rw [Log.names, mem_eraseDups, map_cons, rowsLog, mapIdx_cons, flatten_cons, map_append, map_map]
  exact mem_append_left _ hn

theorem ColumnSet.Holds.finish (h : ColumnSet.Holds c typeHints includeDate rows s) :
    ∃ b, s.finishWithOrder (slotNames includeDate) = .ok b ∧
      Renders (metadataReaders c includeDate) rows b ∧ Plain b.metadata ∧
      b.fields = slotFields c typeHints includeDate rows := by
  by_cases hr : rows = []
  · subst hr
    rw [← h.typeHints]
    exact ColumnSet.finish_of_unwritten c (map_eq_nil_iff.mp h.written.written.symm) includeDate
  · have hnames := names_slotWrites hr c typeHints includeDate
    have hd : ∀ ws ∈ rows.map (slotWrites c typeHints includeDate),
        (ws.map fun w => w.2.1).Nodup := by
      intro ws hw
      obtain ⟨row, -, rfl⟩ := mem_map.mp hw
      rw [map_name_slotWrites]
      exact nodup_slotNames includeDate
    have hl : (rows.map (slotWrites c typeHints includeDate)).length = s.rowCount := by
      rw [length_map, h.rowCount]
    obtain ⟨b, hb, -, hcols, hn, hm⟩ := h.written.exists_finish (by
      intro he
      rw [he] at hnames
      cases includeDate <;> cases hnames) (once_rowsLog hd)
      (fun _ he => hl ▸ row_lt_of_mem he) (slotNames includeDate)
    have hc := hcols (.inr (hnames ▸ prefix_refl _))
    rw [hnames] at hc
    refine ⟨b, hb, ⟨?_, hn.trans h.rowCount⟩, hm ▸ plain_attach h.written.misses ⟨rfl, rfl⟩, ?_⟩
    · rw [hc, metadataReaders, ← map_name_slotSources c, map_map, forall₂_map_left_iff,
        forall₂_map_right_iff]
      apply forall₂_same.mpr
      intro src hs
      refine ⟨rfl, ?_⟩
      have hs' : src.name ∈ (rowsLog (rows.map (slotWrites c typeHints includeDate))).names :=
        hnames ▸ map_name_slotSources c includeDate ▸ mem_map_of_mem hs
      have hv := values_rowsLog c hs' hd
      rw [hl, map_map] at hv
      refine hv.trans ?_
      apply map_congr_left
      intro row _
      rw [comp_apply, rowValue, find?_slotWrites c typeHints row hs]
      rfl
    · obtain ⟨a, rest, rfl⟩ := exists_cons_of_ne_nil hr
      rw [RecordBatch.fields, hc, ← map_name_slotSources c, map_map, map_map, slotFields]
      apply map_congr_left
      intro src hs
      have hname : src.name ∈ slotNames includeDate :=
        map_name_slotSources c includeDate ▸ mem_map_of_mem hs
      have ht := (Log.values_column c (hnames ▸ hname) (once_rowsLog hd)
        (fun _ he => hl ▸ row_lt_of_mem he)).1
      exact congrArg (Field.mk src.name) (ht.trans (typeOf_slotWrites c typeHints a rest hs))

end Xbbg.Columns
