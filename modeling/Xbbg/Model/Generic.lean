import Xbbg.Model.Columns

/-! Flattening of any response into rows, from `engine/state/generic.rs` with the value access of
`value_utils.rs` and `xbbg-core/src/element.rs`. -/

namespace Xbbg.Generic

open Columns

/-! ### Elements -/

/-- The data types of elements that have values and not elements inside. -/
inductive ScalarType where
  | bool
  | char
  | byte
  | int32
  | int64
  | float32
  | float64
  | string
  | byteArray
  | date
  | time
  | decimal
  | datetime
  | enumeration
  | correlationId
  deriving DecidableEq, Repr

inductive ComplexType where
  | sequence
  | choice
  deriving DecidableEq, Repr

/-- A value as Bloomberg holds it; text may not be UTF-8. -/
inductive Payload where
  | bool (value : Bool)
  | char (value : ℕ)
  | int32 (value : ℤ)
  | int64 (value : ℤ)
  | float64 (value : F64)
  | text (value : Option String)
  | datetime (value : HighPrecisionDatetime)
  | bytes
  deriving DecidableEq, Repr

/-- Values of a data type, or elements inside: the named children of a sequence or the selected
child of a choice, and the items of an array of either. -/
inductive Element where
  | scalar (name : String) (datatype : ScalarType) (isArray isNull : Bool) (values : List Payload)
  | complex (name : String) (datatype : ComplexType) (children : List Element)
  | array (name : String) (datatype : ComplexType) (items : List Element)

def Element.nameStr : Element → String
  | scalar name _ _ _ _ => name
  | complex name _ _ => name
  | array name _ _ => name

/-! ### Values -/

def ScalarType.hasScalarValue : ScalarType → Bool
  | byteArray => false
  | correlationId => false
  | _ => true

def getBool : Payload → Option Bool
  | .bool value => some value
  | _ => none

def getChar : Payload → Option ℕ
  | .char value => some value
  | _ => none

def getI32 : Payload → Option ℤ
  | .int32 value => some value
  | _ => none

def getI64 : Payload → Option ℤ
  | .int64 value => some value
  | _ => none

def getF64 : Payload → Option F64
  | .float64 value => some value
  | _ => none

def getStr : Payload → Option String
  | .text value => value
  | _ => none

def getDatetime : Payload → Option HighPrecisionDatetime
  | .datetime value => some value
  | _ => none

/-- Some boolean fields are the characters `Y` and `N`. -/
def charValue (c : ℕ) : Value :=
  if c = 89 then .bool true else if c = 78 then .bool false else .byte c

/-- A value read by its data type. -/
def readPayload (payload : Payload) : ScalarType → Option Value
  | .bool => (getBool payload).map .bool
  | .char => (getChar payload).map charValue
  | .byte => (getChar payload).map charValue
  | .int32 => (getI32 payload).map .int32
  | .int64 => (getI64 payload).map .int64
  | .float32 => (getF64 payload).map .float64
  | .float64 => (getF64 payload).map .float64
  | .decimal => (getF64 payload).map .float64
  | .string => (getStr payload).map .string
  | .date => (getDatetime payload).map fun dt =>
      .date32 (toInt32 (dt.toMicros.tdiv microsPerDay))
  | .time => (getDatetime payload).map fun dt => .time64Micros dt.toTimeMicros
  | .datetime => (getDatetime payload).map fun dt =>
      if dt.hasDateParts then .timestampMicros dt.toMicros else .time64Micros dt.toTimeMicros
  | .enumeration => (getStr payload).map .enum
  | .byteArray => some .null
  | .correlationId => some .null

section Read

variable (datatype : ScalarType) (isNull : Bool) (values : List Payload)

/-- The getters fail on a null element and out of bounds; types without a getter are null. -/
def getValueFastWithDatatype (i : ℕ) : Option Value :=
  if datatype.hasScalarValue then
    if isNull then none else values[i]?.bind fun payload => readPayload payload datatype
  else some .null

/-- `Element::get_value`. -/
def getValue (i : ℕ) : Option Value :=
  if isNull then some .null
  else if values.length ≤ i then none
  else getValueFastWithDatatype datatype isNull values i

def getValueWithDatatype : Option Value :=
  if datatype.hasScalarValue then
    match getValueFastWithDatatype datatype isNull values 0 with
    | some value => some value
    | none => if isNull then some .null else none
  else if isNull then some .null
  else if values.isEmpty then none
  else some .null

end Read

/-! ### Rows -/

structure Row where
  path : String
  type : String
  valueStr : Option String
  valueNum : Option F64
  deriving DecidableEq, Repr

/-- `{:02}` of a signed number. -/
def pad2 (n : ℤ) : String := if 0 ≤ n ∧ n < 10 then "0" ++ toString n else toString n

def timeText (micros : ℤ) : String :=
  let t := micros.tdiv 1000000
  pad2 (t.tdiv 3600) ++ ":" ++ pad2 ((t.tmod 3600).tdiv 60) ++ ":" ++ pad2 (t.tmod 60)

variable (c : Conversions)

/-- The row of a leaf; a value that cannot be extracted is a null. -/
def leafRow (path : String) : Option Value → Row
  | none => ⟨path, "null", none, none⟩
  | some .null => ⟨path, "null", none, none⟩
  | some (.bool b) => ⟨path, "boolean", some (if b then "true" else "false"), none⟩
  | some (.int32 i) => ⟨path, "number", some (toString i), some (c.intToFloat i)⟩
  | some (.int64 i) => ⟨path, "number", some (toString i), some (c.intToFloat i)⟩
  | some (.float64 f) => ⟨path, "number", some (c.displayFloat f), some f⟩
  | some (.string s) => ⟨path, "string", some s, none⟩
  | some (.enum s) => ⟨path, "string", some s, none⟩
  | some (.date32 days) => ⟨path, "date", some (c.formatDate32 days), some (c.intToFloat days)⟩
  | some (.timestampMicros micros) =>
    ⟨path, "datetime", some (c.formatTimestampMicros micros), some (c.intToFloat micros)⟩
  | some (.datetime dt) =>
    ⟨path, "datetime", some (c.formatTimestampMicros dt.toMicros), some (c.intToFloat dt.toMicros)⟩
  | some (.byte b) => ⟨path, "number", some (toString b), some (c.intToFloat b)⟩
  | some (.time64Micros micros) =>
    ⟨path, "time", some (timeText micros), some (c.intToFloat micros)⟩

def childPath (path name : String) : String := if path.isEmpty then name else path ++ "." ++ name

def itemPath (path : String) (i : ℕ) : String := path ++ "[" ++ toString i ++ "]"

mutual

def flattenElement (path : String) : Element → List Row
  | .scalar _ datatype _ isNull values =>
    [leafRow c path (getValueWithDatatype datatype isNull values)]
  | .complex _ _ children => flattenChildren path children
  | .array _ .sequence items => flattenItems path 0 items
  -- A choice is walked by its children, and an array has none: its items are reached by index only.
  | .array _ .choice _ => []

def flattenChildren (path : String) : List Element → List Row
  | [] => []
  | child :: rest =>
    flattenElement (childPath path child.nameStr) child ++ flattenChildren path rest

def flattenItems (path : String) (i : ℕ) : List Element → List Row
  | [] => []
  | item :: rest => flattenElement (itemPath path i) item ++ flattenItems path (i + 1) rest

end

/-- The rows of a message. -/
def processMessage (root : Element) : List Row := flattenElement c "" root

end Xbbg.Generic
