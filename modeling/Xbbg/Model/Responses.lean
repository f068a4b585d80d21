import Xbbg.Model.Columns

/-! The decoders of reference and historical data, from `engine/state/refdata.rs` and
`engine/state/histdata.rs`. Elements are modelled by what the decoders read of them. -/

namespace Xbbg.Responses

open Library Diagnostics Columns

/-! ### Messages -/

/-- A row of `fieldData`: its date and its fields by name. -/
structure FieldRow where
  date : Option Value
  get : String → Option Value

/-- `fieldData` of one security. A reference data response has the fields as its children, a
historical one has a row for each date as its values. -/
structure FieldData where
  get : String → Option Value
  values : List FieldRow
  /-- `IS_DELAYED_STREAM` as a flag and `EXCHANGE_DELAY` in minutes. -/
  isDelayedStream : Option Bool
  exchangeDelay : Option ℕ

/-- One entry of `securityData`. -/
structure SecurityElements where
  security : Option String
  fieldData : Option FieldData
  eidData : Option (List (Option ℤ))
  /-- Absent, null or with its details. -/
  securityError : Option (Option SecurityErrorMeta)
  fieldExceptions : List FieldExceptionMeta

namespace SecurityElements

def ticker (s : SecurityElements) : String := s.security.getD ""

/-- The error of a failed security; a null element reports none. -/
def error (s : SecurityElements) : Option SecurityErrorMeta := s.securityError.join

end SecurityElements

structure Message where
  /-- The label of a top-level `responseError`. -/
  responseError : Option String
  securityData : List SecurityElements

/-! ### Diagnostics of one security -/

def recordFieldException (m : ResponseMetadata) (ticker : String)
    (exception : FieldExceptionMeta) : ResponseMetadata :=
  if m.hiddenFields.any fun hidden => hidden.toLower == exception.field.toLower then m
  else { m with fieldExceptions := m.fieldExceptions.record ticker exception }

def recordDelayed (m : ResponseMetadata) (ticker : String) (fieldData : FieldData) :
    ResponseMetadata :=
  match fieldData.isDelayedStream with
  | none => m
  | some delayed =>
    { m with
      delayed := m.delayed.insert ticker
        ⟨delayed, if delayed then fieldData.exchangeDelay else none⟩ }

/-- Collect all diagnostics before the caller decides whether to skip the security. -/
def recordSecurity (m : ResponseMetadata) (s : SecurityElements) : ResponseMetadata :=
  let m := s.eidData.elim m (m.recordEidData s.ticker)
  let m := s.error.elim m (m.recordSecurityError s.ticker)
  let m := s.fieldExceptions.foldl (fun m e => recordFieldException m s.ticker e) m
  if m.captureDelayed then s.fieldData.elim m (recordDelayed m s.ticker) else m

/-! ### Output columns of a request -/

/-- The builders of the requested output; the format decides which of them exist. -/
structure OutputColumns where
  includeDate : Bool
  fieldNames : List String
  fieldDtypeHints : List (Option String)
  format : OutputFormat
  longMode : LongMode
  columns : ColumnSet
  longRows : Option LongRowWriter
  longColumns : Option LongStringColumns
  typedLongColumns : Option TypedLongColumns
  wideColumns : Option WideColumns

namespace OutputColumns

def new (includeDate : Bool) (fields : List String) (format : OutputFormat) (longMode : LongMode)
    (fieldTypes : Map String ArrowType) : OutputColumns where
  includeDate := includeDate
  fieldNames := fields
  fieldDtypeHints := fields.map fun name => (fieldTypes.lookup name).map ArrowType.typeName
  format := format
  longMode := longMode
  columns :=
    if format = .long ∧ longMode = .withMetadata then { typeHints := fieldTypes } else {}
  longRows := none
  longColumns :=
    if format = .long ∧ longMode = .string then
      some (.new (commonValueType fields fieldTypes) includeDate)
    else none
  typedLongColumns :=
    if format = .long ∧ longMode = .typed then some (.new includeDate) else none
  wideColumns := if format = .wide then some (.new fields fieldTypes includeDate) else none

def rowCount (o : OutputColumns) : ℕ :=
  match o.format with
  | .long =>
    match o.longColumns, o.typedLongColumns with
    | some columns, _ => columns.rowCount
    | none, some columns => columns.rowCount
    | none, none => o.columns.rowCount
  | .wide =>
    match o.wideColumns with
    | some columns => columns.rowCount
    | none => o.columns.rowCount

/-- Append a row through the slots of `columns`, which are resolved on first use. -/
def appendSlotRow (c : Conversions) (o : OutputColumns) (row : LongRow) : OutputColumns :=
  match o.longRows with
  | some writer => { o with columns := writer.appendRow c o.columns row }
  | none =>
    let (writer, columns) := LongRowWriter.new o.columns o.longMode o.includeDate
    { o with longRows := some writer, columns := writer.appendRow c columns row }

/-- Append one long row to the first of the long builders that exists. -/
def appendLongRow (c : Conversions) (o : OutputColumns) (row : LongRow) : OutputColumns :=
  match o.longColumns, o.typedLongColumns with
  | some columns, _ => { o with longColumns := some (columns.appendRow c row) }
  | none, some columns => { o with typedLongColumns := some (columns.appendRow row) }
  | none, none => o.appendSlotRow c row

/-- The long rows of one row of fields, one for each requested field. -/
def longRowsOf (o : OutputColumns) (ticker : String) (date : Option Value)
    (get : String → Option Value) : List LongRow :=
  o.fieldNames.zipWith (fun name hint => ⟨ticker, date, name, get name, hint⟩) o.fieldDtypeHints

def processLongFormat (c : Conversions) (o : OutputColumns) (ticker : String)
    (date : Option Value) (get : String → Option Value) : OutputColumns :=
  (o.longRowsOf ticker date get).foldl (appendLongRow c) o

def processWideFormat (c : Conversions) (o : OutputColumns) (ticker : String)
    (date : Option Value) (get : String → Option Value) : OutputColumns :=
  { o with
    wideColumns := o.wideColumns.map fun columns =>
      columns.appendRow c ⟨ticker, date, o.fieldNames.map get⟩ }

/-- Append one row of fields in the output format. -/
def processRow (c : Conversions) (o : OutputColumns) (ticker : String) (date : Option Value)
    (get : String → Option Value) : OutputColumns :=
  match o.format with
  | .long => o.processLongFormat c ticker date get
  | .wide => o.processWideFormat c ticker date get

/-- The order of the columns that are addressed by slots. -/
def slotOrder (o : OutputColumns) : List String :=
  ["ticker"] ++ (if o.includeDate then ["date"] else []) ++ ["field", "value"] ++
    (if o.longMode = .withMetadata then ["dtype"] else [])

def finishLong (o : OutputColumns) : Except BlpError RecordBatch :=
  match o.longMode with
  | .string =>
    match o.longColumns with
    | some columns => if o.includeDate then columns.finishHistdata else columns.finishRefdata
    | none => o.columns.finishWithOrder o.slotOrder
  | .withMetadata => o.columns.finishWithOrder o.slotOrder
  | .typed => (o.typedLongColumns.getD (.new o.includeDate)).finish

def finish (o : OutputColumns) : Except BlpError RecordBatch :=
  match o.format with
  | .long => o.finishLong
  | .wide =>
    match o.wideColumns with
    | some columns => (columns.finish o.includeDate).1
    | none =>
      o.columns.finishWithOrder
        ("ticker" :: (if o.includeDate then ["date"] else []) ++ o.fieldNames)

end OutputColumns

/-! ### Reference data -/

structure RefDataState where
  includeSecurityErrors : Bool
  failedSecurities : List String
  output : OutputColumns
  responseMeta : ResponseMetadata

namespace RefDataState

def withFormat (fields : List String) (format : OutputFormat) (longMode : LongMode)
    (fieldTypes : Map String ArrowType) (includeSecurityErrors : Bool) : RefDataState where
  includeSecurityErrors := includeSecurityErrors
  failedSecurities := []
  output := .new false fields format longMode fieldTypes
  responseMeta := {}

def captureDelayed (s : RefDataState) (hiddenFields : List String) : RefDataState :=
  { s with
    responseMeta := { s.responseMeta with captureDelayed := true, hiddenFields := hiddenFields } }

def errorDetail (error : SecurityErrorMeta) : String :=
  "code=" ++ toString error.code ++ " category=" ++ error.category ++ " subcategory=" ++
    error.subcategory ++ " message=" ++ error.message

def errorRow (ticker : String) (error : SecurityErrorMeta) : LongRow :=
  ⟨ticker, none, "__SECURITY_ERROR__", some (.string (errorDetail error)), some "string"⟩

/-- The row of a failed security; in the wide format it goes to columns that are not output. -/
def appendSecurityErrorRow (c : Conversions) (s : RefDataState) (ticker : String)
    (error : SecurityErrorMeta) : RefDataState :=
  { s with output := s.output.appendLongRow c (errorRow ticker error) }

def processSecurity (c : Conversions) (s : RefDataState) (security : SecurityElements) :
    RefDataState :=
  let s := { s with responseMeta := recordSecurity s.responseMeta security }
  match security.error with
  | some error =>
    let s := { s with failedSecurities := s.failedSecurities ++ [security.ticker] }
    if s.includeSecurityErrors then s.appendSecurityErrorRow c security.ticker error else s
  | none =>
    match security.fieldData with
    | none => s
    | some fieldData =>
      { s with output := s.output.processRow c security.ticker none fieldData.get }

def processMessage (c : Conversions) (s : RefDataState) (message : Message) : RefDataState :=
  message.securityData.foldl (processSecurity c) s

end RefDataState

/-- Finish a decoder whose last message is processed: an error if all securities failed,
otherwise the batch with the diagnostics attached. -/
def reply (operation : String) (failedSecurities : List String) (output : OutputColumns)
    (responseMeta : ResponseMetadata) : Except BlpError RecordBatch :=
  if output.rowCount = 0 ∧ failedSecurities ≠ [] then
    .error (.requestFailure "//blp/refdata" (some operation)
      (some ("All securities failed: " ++ ", ".intercalate failedSecurities)))
  else
    match output.finish with
    | .ok batch => .ok (ResponseMetadata.attachTo responseMeta batch)
    | .error error => .error error

namespace RefDataState

def finish (c : Conversions) (s : RefDataState) (message : Message) :
    Except BlpError RecordBatch :=
  match message.responseError with
  | some label =>
    .error (.requestFailure "//blp/refdata" (some "ReferenceDataRequest") (some label))
  | none =>
    let s := s.processMessage c message
    reply "ReferenceDataRequest" s.failedSecurities s.output s.responseMeta

end RefDataState

/-! ### Historical data -/

structure HistDataState where
  failedSecurities : List String
  output : OutputColumns
  responseMeta : ResponseMetadata

namespace HistDataState

def withFormat (fields : List String) (format : OutputFormat) (longMode : LongMode)
    (fieldTypes : Map String ArrowType) : HistDataState where
  failedSecurities := []
  output := .new true fields format longMode fieldTypes
  responseMeta := {}

def processSecurity (c : Conversions) (s : HistDataState) (security : SecurityElements) :
    HistDataState :=
  let s := { s with responseMeta := recordSecurity s.responseMeta security }
  match security.error with
  | some _ => { s with failedSecurities := s.failedSecurities ++ [security.ticker] }
  | none =>
    match security.fieldData with
    | none => s
    | some fieldData =>
      { s with
        output := fieldData.values.foldl
          (fun output row => output.processRow c security.ticker row.date row.get) s.output }

/-- A historical message holds the data of a single security. -/
def processMessage (c : Conversions) (s : HistDataState) (message : Message) : HistDataState :=
  match message.securityData with
  | [] => s
  | security :: _ => s.processSecurity c security

def finish (c : Conversions) (s : HistDataState) (message : Message) :
    Except BlpError RecordBatch :=
  match message.responseError with
  | some label =>
    .error (.requestFailure "//blp/refdata" (some "HistoricalDataRequest") (some label))
  | none =>
    let s := s.processMessage c message
    reply "HistoricalDataRequest" s.failedSecurities s.output s.responseMeta

end HistDataState

end Xbbg.Responses
