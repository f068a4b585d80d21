import Xbbg.Model.Bql
import Xbbg.Model.Generic

/-! The messages of a BQL reply and the state that gathers them, from `engine/state/bql.rs`. -/

namespace Xbbg.Bql

open Generic (Element)
open Columns (ColumnSet Conversions Value)

/-! ### Elements -/

def childNamed (name : String) : Element → Option Element
  | .complex _ _ children => children.find? fun child => child.nameStr == name
  | _ => none

def children : Element → List Element
  | .complex _ _ children => children
  | _ => []

/-- What the decoder reads through the SDK and the formatter: the values of an element as elements,
its first value, what `get_value_with_datatype` gives for an element with elements inside, and the
debug text of a value. -/
structure Sdk where
  len : Element → ℕ
  getElement : Element → ℕ → Option Element
  getValue : Element → Option Value
  complexValue : Element → Option Value
  debug : Value → String

variable (c : Conversions) (sdk : Sdk)

def valueOf : Element → Option Value
  | .scalar _ datatype _ isNull values => Generic.getValueWithDatatype datatype isNull values
  | element => sdk.complexValue element

/-- The first value of an element, if it is the text of a JSON object. -/
def jsonAt (element : Element) : Option String :=
  match sdk.getValue element with
  | some (.string text) => if text.toList.head? = some '\x7b' then some text else none
  | _ => none

/-! ### Rows -/

/-- Write one child of a row into the column of its name. -/
def appendChild (columns : ColumnSet) (child : Element) : ColumnSet :=
  let (slot, columns) := columns.slot child.nameStr
  match valueOf sdk child with
  | some value => columns.appendSlot c slot value
  | none => columns.appendNullSlot c slot

def extractResults (columns : ColumnSet) (results : Element) : ColumnSet :=
  ((List.range (sdk.len results)).filterMap (sdk.getElement results)).foldl (fun columns row =>
    ((children row).foldl (appendChild c sdk) columns).endRow) columns

def leafText : Value → String
  | .string s => s
  | .enum s => s
  | .float64 x => c.displayFloat x
  | .int64 i => toString i
  | .int32 i => toString i
  | .bool b => if b then "true" else "false"
  | .null => ""
  | value => sdk.debug value

/-- The path of an item; at the top it is only the index. -/
def itemPath (path : String) (i : ℕ) : String := path ++ "[" ++ toString i ++ "]"

mutual

/-- The leaves of an element by path. -/
def flattenElement (path : String) : Element → List (String × String)
  | .scalar _ datatype _ isNull values =>
    match Generic.getValueWithDatatype datatype isNull values with
    | some value => [(path, leafText c sdk value)]
    | none => []
  | .complex _ _ children => flattenChildren path children
  | .array _ _ items => flattenItems path 0 items

def flattenChildren (path : String) : List Element → List (String × String)
  | [] => []
  | child :: rest =>
    flattenElement (Generic.childPath path child.nameStr) child ++ flattenChildren path rest

def flattenItems (path : String) (i : ℕ) : List Element → List (String × String)
  | [] => []
  | item :: rest => flattenElement (itemPath path i) item ++ flattenItems path (i + 1) rest

end

/-- The leaves as rows of two columns, whose slots are taken first. -/
def appendLeaves (columns : ColumnSet) (leaves : List (String × String)) : ColumnSet :=
  let (path, columns) := columns.slot "path"
  let (value, columns) := columns.slot "value"
  leaves.foldl (fun columns leaf =>
    ((columns.appendStrSlot c path leaf.1).appendStrSlot c value leaf.2).endRow) columns

/-! ### Messages -/

structure BqlState where
  columns : ColumnSet := {}
  jsonBuffer : Option String := none

/-- Where the data of a message is: a text, rows of a results element, or the leaves of the
message. -/
inductive Structure where
  | json (text : String)
  | results (results : Element)
  | flat

/-- The results of `beqlData`, which may be a text in their first element. -/
def resultsStructure (results : Element) : Structure :=
  let text := if sdk.len results = 0 then none else (sdk.getElement results 0).bind (jsonAt sdk)
  match text with
  | some text => .json text
  | none => .results results

/-- Results or a text at the top of a message, or nothing that is known. -/
def rootStructure (root : Element) : Structure :=
  match childNamed "results" root with
  | some results => .results results
  | none =>
    match jsonAt sdk root with
    | some text => .json text
    | none => .flat

def messageStructure (root : Element) : Structure :=
  match childNamed "beqlData" root with
  | none => rootStructure sdk root
  | some beqlData =>
    match childNamed "results" beqlData with
    | some results => resultsStructure sdk results
    | none =>
      match jsonAt sdk beqlData with
      | some text => .json text
      | none => rootStructure sdk root

/-- A text takes the place of the text before it; rows go to the columns. -/
def processMessage (state : BqlState) (root : Element) : BqlState :=
  match messageStructure sdk root with
  | .json text => { state with jsonBuffer := some text }
  | .results results => { state with columns := extractResults c sdk state.columns results }
  | .flat =>
    { state with columns := appendLeaves c state.columns (flattenElement c sdk "" root) }

/-- What is sent to the caller: the error of the last message, the table of a text, or the rows. -/
inductive Answer where
  | failed (error : BlpError)
  | table (result : Except BqlError RecordBatch)
  | rows (result : Except BlpError Columns.RecordBatch)

/-- A message, with the label of its top-level `responseError`. -/
structure Message where
  root : Element
  responseError : Option String

def finish (f : Formats) (parser : Parser) (state : BqlState) (message : Message) : Answer :=
  match message.responseError with
  | some label => .failed (.requestFailure "//blp/bqlsvc" (some "sendQuery") (some label))
  | none =>
    let state := processMessage c sdk state message.root
    match state.jsonBuffer with
    | some text => .table (parseBqlJsonText f parser text)
    | none => .rows (state.columns.finishWithOrder [])

/-- The answer to partial messages and a last one. -/
def answer (f : Formats) (parser : Parser) (partials : List Message) (last : Message) : Answer :=
  finish c sdk f parser ((partials.map Message.root).foldl (processMessage c sdk) {}) last

end Xbbg.Bql
