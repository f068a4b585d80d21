import Xbbg.Library.Maps

/-! Types of requested fields, from `field_cache.rs`. Field names are looked up as they are written
and in upper case. -/

namespace Xbbg.FieldTypes

open Library

/-- What the cache knows about a field. -/
structure FieldInfo where
  arrowType : String
  deriving DecidableEq, Repr

section Resolve

variable (toUppercase : String → String) (cache : Map String FieldInfo)
  (manualOverrides : Option (Map String String))

/-- The type that an override gives to a field. -/
def overrideType (field : String) : Option String :=
  manualOverrides.bind fun overrides =>
    (overrides.lookup field).or (overrides.lookup (toUppercase field))

def cachedType (field : String) : Option String :=
  (cache.lookup (toUppercase field)).map FieldInfo.arrowType

def resolveTypes (fields : List String) (defaultType : String) : Map String String :=
  fields.foldl (fun result field =>
    result.insert field (((overrideType toUppercase manualOverrides field).or
      (cachedType toUppercase cache field)).getD defaultType)) ∅

/-- One turn of the loop of `resolve_cached_types`. -/
def resolveCached (result : Map String String) (field : String) : Map String String :=
  if field ∈ result ∨ toUppercase field ∈ result then result
  else
    match cachedType toUppercase cache field with
    | some arrowType => result.insert field arrowType
    | none => result

def resolveCachedTypes (fields : List String) : Map String String :=
  fields.foldl (resolveCached toUppercase cache) (manualOverrides.getD ∅)

end Resolve

end Xbbg.FieldTypes
