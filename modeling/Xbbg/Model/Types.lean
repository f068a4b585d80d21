import Mathlib.Data.Nat.Notation
import Mathlib.Data.Int.Notation

/-! The values, layouts, updates and errors that pass through the engine, from
`engine/state/update.rs`. -/

namespace Xbbg

inductive BlpError where
  | internal (detail : String)
  | invalidArgument (detail : String)
  | subscriptionFailure (label : Option String)
  | schemaUnsupported (element detail : String)
  | requestFailure (service : String) (operation label : Option String)
  | requestTimeout
  | validation (message : String)
  | timeout
  deriving DecidableEq, Repr

inductive BlpAsyncError where
  | blp (error : BlpError)
  | internal (detail : String)
  | configError (detail : String)
  | channelClosed
  | allWorkersDown (poolSize : ℕ)
  deriving DecidableEq, Repr

/-- Errors of the ticker and date utilities. -/
inductive ExtError where
  | invalidTicker (ticker : String)
  | invalidInput (detail : String)
  | specificTicker (ticker : String)
  deriving DecidableEq, Repr

inductive FieldKind where
  | unknown
  | bool
  | i32
  | i64
  | f64
  | str
  | date32
  | time64Micros
  | timestampMicros
  deriving DecidableEq, Repr

structure FieldMeta where
  name : String
  index : ℕ
  kind : FieldKind
  provisional : Bool
  deriving DecidableEq, Repr

structure FieldLayout where
  version : ℕ
  fields : List FieldMeta
  deriving DecidableEq, Repr

/-- A double precision number by its bits. -/
structure F64 where
  bits : BitVec 64
  deriving DecidableEq, Inhabited, Repr

namespace F64

def isNan (x : F64) : Bool :=
  x.bits.extractLsb' 52 11 == BitVec.allOnes 11 && x.bits.extractLsb' 0 52 != 0

def isZero (x : F64) : Bool :=
  x.bits.extractLsb' 0 63 == 0

/-- Comparison of numbers: a NaN equals nothing and the two zeros are equal. -/
def eq (x y : F64) : Bool :=
  !x.isNan && !y.isNan && (x == y || x.isZero && y.isZero)

end F64

inductive UpdateValue where
  | null
  | bool (value : Bool)
  | i32 (value : ℤ)
  | i64 (value : ℤ)
  | f64 (value : F64)
  | str (value : String)
  | date32 (value : ℤ)
  | time64Micros (value : ℤ)
  | timestampMicros (value : ℤ)
  deriving DecidableEq, Repr

structure UpdateField where
  index : ℕ
  value : UpdateValue
  deriving DecidableEq, Repr

/-- A sparse delta: an absent field is unchanged and a null clears it. -/
structure SubscriptionUpdate where
  timestampUs : ℤ
  topicId : ℕ
  topic : String
  layout : FieldLayout
  values : List UpdateField
  deriving DecidableEq, Repr

end Xbbg
