import Xbbg.Model.Types

/-! Tables from the JSON replies to BQL queries, from `engine/state/bql.rs` and its
`bql/materialize.rs`. -/

namespace Xbbg.Bql

/-! ### Replies -/

/-- `serde_json::Number`. -/
inductive JsonNumber where
  | posInt (value : ℕ)
  | negInt (value : ℤ)
  | float (value : F64)

/-- `serde_json::Value`; the entries of an object are in the order of its map. -/
inductive JsonValue where
  | null
  | bool (value : Bool)
  | number (value : JsonNumber)
  | string (value : String)
  | array (items : List JsonValue)
  | object (entries : List (String × JsonValue))

namespace JsonValue

def get (key : String) : JsonValue → Option JsonValue
  | object entries => (entries.find? fun entry => entry.1 == key).map Prod.snd
  | _ => none

def asStr : JsonValue → Option String
  | string value => some value
  | _ => none

def asArray : JsonValue → Option (List JsonValue)
  | array items => some items
  | _ => none

end JsonValue

inductive BqlNumber where
  | signed (value : ℤ)
  | unsigned (value : ℕ)
  | float (value : F64)

def BqlNumber.fromJson : JsonNumber → BqlNumber
  | .posInt value => if value ≤ 9223372036854775807 then .signed value else .unsigned value
  | .negInt value => .signed value
  | .float value => .float value

/-- A cell of the typed tree; the view of a cell of either tree has the same cases. -/
inductive CellView where
  | string (value : String)
  | number (value : BqlNumber)
  | bool (value : Bool)
  | null
  | other (value : JsonValue)

def JsonValue.view : JsonValue → CellView
  | .string value => .string value
  | .number value => .number (.fromJson value)
  | .bool value => .bool value
  | .null => .null
  | other => .other other

structure ExceptionView where
  message : Option String
  nodeName : Option String

structure ColumnView where
  name : Option String := none
  typeHint : Option String := none
  values : List CellView := []

/-- What both trees give of a field of the results. -/
structure ResultField where
  idValues : List CellView
  valueColumn : ColumnView
  secondaryColumns : List ColumnView
  exceptions : List ExceptionView

/-! ### The two trees -/

structure BqlJsonField where
  idColumn : Option ColumnView
  valuesColumn : Option ColumnView
  secondaryColumns : List ColumnView
  responseExceptions : Option (List ExceptionView)

/-- The typed tree; the fields of the results are in the order of their map. -/
structure BqlJsonResponse where
  clientRequestId : Option String
  responseExceptions : Option (List ExceptionView)
  results : Option (List (String × BqlJsonField))

def BqlJsonField.view (field : BqlJsonField) : ResultField where
  idValues := (field.idColumn.map ColumnView.values).getD []
  valueColumn := field.valuesColumn.getD {}
  secondaryColumns := field.secondaryColumns
  exceptions := field.responseExceptions.getD []

def jsonException (exception : JsonValue) : ExceptionView where
  message := (exception.get "message").bind JsonValue.asStr
  nodeName := (exception.get "nodeName").bind JsonValue.asStr

def jsonExceptions (response : JsonValue) : List ExceptionView :=
  (((response.get "responseExceptions").bind JsonValue.asArray).getD []).map jsonException

def jsonColumn (column : JsonValue) : ColumnView where
  name := (column.get "name").bind JsonValue.asStr
  typeHint := (column.get "type").bind JsonValue.asStr
  values := (((column.get "values").bind JsonValue.asArray).getD []).map JsonValue.view

def jsonField (field : JsonValue) : ResultField where
  idValues :=
    ((((field.get "idColumn").bind (JsonValue.get "values")).bind JsonValue.asArray).getD []).map
      JsonValue.view
  valueColumn := ((field.get "valuesColumn").map jsonColumn).getD {}
  secondaryColumns :=
    (((field.get "secondaryColumns").bind JsonValue.asArray).getD []).map jsonColumn
  exceptions := jsonExceptions field

/-! ### Columns -/

/-- What the standard library makes of numbers and text. -/
structure Formats where
  ofSigned : ℤ → F64
  ofUnsigned : ℕ → F64
  /-- `str::parse::<f64>`. -/
  parse : String → Option F64
  display : F64 → String
  displayJson : JsonValue → String
  lowercase : String → String

variable (f : Formats)

def BqlNumber.asF64 : BqlNumber → F64
  | signed value => f.ofSigned value
  | unsigned value => f.ofUnsigned value
  | float value => value

def BqlNumber.asString : BqlNumber → String
  | signed value => toString value
  | unsigned value => toString value
  | float value => f.display value

def CellView.asString : CellView → Option String
  | string value => some value
  | number value => some (value.asString f)
  | bool value => some (if value then "true" else "false")
  | null => none
  | other value => some (f.displayJson value)

/-- An id is always shown, a null as an empty text. -/
def CellView.asId : CellView → Option String
  | null => some ""
  | cell => cell.asString f

def CellView.asF64 : CellView → Option F64
  | number value => some (value.asF64 f)
  | string value => f.parse value
  | _ => none

def CellView.isNumberOrNull : CellView → Bool
  | number _ => true
  | null => true
  | _ => false

inductive Values where
  | utf8 (cells : List (Option String))
  | float64 (cells : List (Option F64))
  deriving DecidableEq, Repr

def Values.length : Values → ℕ
  | utf8 cells => cells.length
  | float64 cells => cells.length

structure Column where
  name : String
  values : Values
  deriving DecidableEq, Repr

inductive ColumnKind where
  | numeric
  | string
  | infer
  deriving DecidableEq, Repr

def eqIgnoreAsciiCase (s t : String) : Bool :=
  s.toList.map Char.toLower == t.toList.map Char.toLower

def columnKind : Option String → ColumnKind
  | none => .infer
  | some hint =>
    if ["DOUBLE", "FLOAT", "INT32", "INT64", "INTEGER"].any (eqIgnoreAsciiCase hint) then .numeric
    else if ["STRING", "DATE", "DATETIME"].any (eqIgnoreAsciiCase hint) then .string
    else .infer

/-- Without a hint, a column is numeric if the rows that are emitted have only numbers and nulls. -/
def ColumnView.isNumeric (column : ColumnView) (rowCount : ℕ) : Bool :=
  match columnKind column.typeHint with
  | .numeric => true
  | .string => false
  | .infer => (column.values.take rowCount).all CellView.isNumberOrNull

/-- The column of the table, as long as the id column. -/
def appendColumn (name : String) (column : ColumnView) (rowCount : ℕ) : Column where
  name := name
  values :=
    if column.isNumeric rowCount then
      .float64 ((List.range rowCount).map fun row => column.values[row]?.bind (CellView.asF64 f))
    else
      .utf8 ((List.range rowCount).map fun row => column.values[row]?.bind (CellView.asString f))

/-! ### The table -/

/-- The errors of the materializer, of the kinds of `BlpError`. -/
inductive BqlError where
  | requestFailure (service operation : String) (requestId : Option String) (source : String)
  | internal (detail : String)
  deriving DecidableEq, Repr

structure RecordBatch where
  columns : List Column
  numRows : ℕ
  rectangular : ∀ column ∈ columns, column.values.length = numRows

def RecordBatch.tryNew (ticker : Column) (columns : List Column) : Except BqlError RecordBatch :=
  if h : ∀ column ∈ ticker :: columns, column.values.length = ticker.values.length then
    .ok ⟨ticker :: columns, ticker.values.length, h⟩
  else
    .error (.internal ("Failed to create RecordBatch: Invalid argument error: " ++
      "all columns in a record batch must have the same length"))

/-- The messages of the exceptions that have one. -/
def exceptionMessages (exceptions : List ExceptionView) : Option String :=
  exceptions.foldl (fun messages exception =>
    match exception.message with
    | none => messages
    | some message =>
      let text := message ++ (exception.nodeName.elim "" fun node => " (in " ++ node ++ ")")
      some (messages.elim text fun before => before ++ "; " ++ text)) none

/-- The first id column that is not empty fixes the rows. -/
def chosenIds (results : List (String × ResultField)) : List CellView :=
  ((results.map fun entry => entry.2.idValues).find? fun values => !values.isEmpty).getD []

/-- The secondary columns of a field; a name that is taken is left out. -/
def appendSecondaryColumns (rowCount : ℕ) :
    List ColumnView → List Column × List String → List Column × List String
  | [], taken => taken
  | column :: rest, (columns, names) =>
    match column.name.map f.lowercase with
    | none => appendSecondaryColumns rowCount rest (columns, names)
    | some name =>
      if names.contains name then appendSecondaryColumns rowCount rest (columns, names)
      else
        appendSecondaryColumns rowCount rest
          (columns ++ [appendColumn f name column rowCount], name :: names)

/-- The columns of the fields in turn, each behind its secondary columns. -/
def appendFields (rowCount : ℕ) :
    List (String × ResultField) → List Column × List String → List Column × List String
  | [], taken => taken
  | (fieldName, field) :: rest, taken =>
    let (columns, names) := appendSecondaryColumns f rowCount field.secondaryColumns taken
    appendFields rowCount rest
      (columns ++ [appendColumn f fieldName field.valueColumn rowCount], fieldName :: names)

def materialize (requestId : Option String) (exceptions : List ExceptionView)
    (results : List (String × ResultField)) : Except BqlError RecordBatch :=
  if results.isEmpty then
    match exceptionMessages exceptions with
    | some source => .error (.requestFailure "//blp/bqlsvc" "sendQuery" requestId source)
    | none => RecordBatch.tryNew ⟨"ticker", .utf8 []⟩ []
  else
    let idValues := chosenIds results
    let ids := idValues.map (CellView.asId f)
    RecordBatch.tryNew ⟨"ticker", .utf8 ids⟩ (appendFields f idValues.length results ([], [])).1

def fromTyped (response : BqlJsonResponse) : Except BqlError RecordBatch :=
  materialize f response.clientRequestId (response.responseExceptions.getD [])
    ((response.results.getD []).map fun entry => (entry.1, entry.2.view))

def fromValue (response : JsonValue) : Except BqlError RecordBatch :=
  let requestId := ((response.get "clientContext").bind (JsonValue.get "clientRequestId")).bind
    JsonValue.asStr
  match response.get "results" with
  | some (.object results) =>
    materialize f requestId (jsonExceptions response)
      (results.map fun entry => (entry.1, jsonField entry.2))
  | some .null => materialize f requestId (jsonExceptions response) []
  | none => materialize f requestId (jsonExceptions response) []
  | some other =>
    .error (.internal ("BQL 'results' has unexpected type: " ++ f.displayJson other))

/-- A reply as it was read: up to 32 KiB as the typed tree, above that as a plain value. -/
inductive Reply where
  | typed (response : BqlJsonResponse)
  | value (response : JsonValue)

def parseBqlJson : Reply → Except BqlError RecordBatch
  | .typed response => fromTyped f response
  | .value response => fromValue f response

/-! ### Reading the text -/

/-- `serde_json::from_str`, into a value and into the typed tree. -/
structure Parser where
  value : String → Except String JsonValue
  typed : String → Except String BqlJsonResponse

def parseBqlJsonTyped (parser : Parser) (text : String) : Except BqlError RecordBatch :=
  match parser.typed text with
  | .error e => .error (.internal ("Failed to parse BQL JSON: " ++ e))
  | .ok response => fromTyped f response

def parseBqlJsonValue (parser : Parser) (text : String) : Except BqlError RecordBatch :=
  match parser.value text with
  | .error e => .error (.internal ("Failed to parse BQL JSON: " ++ e))
  | .ok response => fromValue f response

def bqlTypedJsonMaxBytes : ℕ := 32 * 1024

def parseBqlJsonText (parser : Parser) (text : String) : Except BqlError RecordBatch :=
  if text.utf8ByteSize ≤ bqlTypedJsonMaxBytes then parseBqlJsonTyped f parser text
  else parseBqlJsonValue f parser text

end Xbbg.Bql
