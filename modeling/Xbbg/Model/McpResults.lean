import Xbbg.Library.Json
import Xbbg.Library.Saturating
import Xbbg.Model.Diagnostics

/-! Results of the MCP server within a budget of bytes, from `xbbg-mcp/src/serialization.rs`. Sizes
and counters are words of 64 bits; sums that the source saturates are saturated here. -/

namespace Xbbg.Mcp

open Library Diagnostics

/-! ### Limits -/

structure ResultLimits where
  maxRows : ℕ
  maxCells : ℕ
  maxMetadataProperties : ℕ
  maxMetadataBytes : ℕ
  maxStringChars : ℕ
  maxStringBytes : ℕ
  maxResultBytes : ℕ
  maxMetadataProperties_le : maxMetadataProperties ≤ usizeMax
  maxResultBytes_le : maxResultBytes ≤ usizeMax

theorem defaultMetadataProperties_le : 50000 ≤ usizeMax := by decide

theorem defaultResultBytes_le : 1024 * 1024 ≤ usizeMax := by decide

def ResultLimits.default : ResultLimits where
  maxRows := 500
  maxCells := 50000
  maxMetadataProperties := 50000
  maxMetadataBytes := 64 * 1024
  maxStringChars := 2048
  maxStringBytes := 8 * 1024
  maxResultBytes := 1024 * 1024
  maxMetadataProperties_le := defaultMetadataProperties_le
  maxResultBytes_le := defaultResultBytes_le

def outputEnvelopeReserve : ℕ := 1536

def minResultBytes : ℕ := 2048

def maxEidMetadataSecurities : ℕ := 1000

def maxEidMetadataSecurityBytes : ℕ := 64 * 1024

def maxEntitlementEids : ℕ := 10000

def eidMetadataKey : String := "xbbg.eid_data"

def fieldExceptionsKey : String := "xbbg.field_exceptions"

def priorityMetadataKeys : List String :=
  ["xbbg.security_errors", "xbbg.field_errors", fieldExceptionsKey, "xbbg.delayed", eidMetadataKey]

/-- `ErrorData` of the conversion, by its cause. -/
inductive ErrorData where
  | budgetTooSmall (budget : ℕ)
  | formatter (message : String) (truncated : Bool)
  | missingFormatter
  | formatValue
  | exceeded (bytes budget : ℕ)
  deriving DecidableEq, Repr

structure ValueStats where
  truncatedValues : ℕ := 0
  knownOmittedBytes : ℕ := 0
  omittedComplexValues : ℕ := 0
  deriving DecidableEq, Repr

def ValueStats.merge (s other : ValueStats) : ValueStats where
  truncatedValues := satAdd s.truncatedValues other.truncatedValues
  knownOmittedBytes := satAdd s.knownOmittedBytes other.knownOmittedBytes
  omittedComplexValues := satAdd s.omittedComplexValues other.omittedComplexValues

structure ComponentBudget where
  remaining : ℕ
  truncated : Bool := false
  deriving DecidableEq, Repr

namespace ComponentBudget

def tryTake (b : ComponentBudget) (bytes : ℕ) : Bool × ComponentBudget :=
  if bytes > b.remaining then (false, { b with truncated := true })
  else (true, { b with remaining := b.remaining - bytes })

def markTruncated (b : ComponentBudget) : ComponentBudget := { b with truncated := true }

end ComponentBudget

/-- The bytes of the compact text, as a writer counts them. -/
def serializedLen (value : Json) : ℕ := saturate value.size

/-! ### Strings -/

def len (value : String) : ℕ := utf8Len value.toList

def identityStringFits (value : String) (limits : ResultLimits) : Bool :=
  len value ≤ limits.maxStringBytes &&
    (value.toList.take (satAdd limits.maxStringChars 1)).length ≤ limits.maxStringChars

/-- The characters in front of the first that exceeds a limit, after `chars` characters of `bytes`
bytes. -/
def boundedContent (charLimit byteLimit : ℕ) : ℕ → ℕ → List Char → List Char
  | _, _, [] => []
  | chars, bytes, c :: rest =>
    if chars = charLimit ∨ satAdd bytes c.utf8Size > byteLimit then []
    else c :: boundedContent charLimit byteLimit (chars + 1) (bytes + c.utf8Size) rest

def ellipsis : Char := '…'

def boundedString (value : String) (limits : ResultLimits) (stats : ValueStats) :
    String × ValueStats :=
  if identityStringFits value limits then (value, stats)
  else
    let content := boundedContent (limits.maxStringChars - 1)
      (limits.maxStringBytes - ellipsis.utf8Size) 0 0 value.toList
    (String.ofList (content ++ [ellipsis]),
      { stats with
        truncatedValues := stats.truncatedValues + 1
        knownOmittedBytes := satAdd stats.knownOmittedBytes (len value - utf8Len content) })

def jsonEscapedCharBytes (c : Char) : ℕ :=
  if c = '"' ∨ c = '\\' ∨ c = '\x08' ∨ c = '\t' ∨ c = '\n' ∨ c = '\x0c' ∨ c = '\r' then 2
  else if c.toNat ≤ 31 then 6
  else c.utf8Size

/-- The same with a third limit, on the bytes of the escaped text. -/
def boundedJsonContent (charLimit byteLimit jsonLimit : ℕ) : ℕ → ℕ → ℕ → List Char → List Char
  | _, _, _, [] => []
  | chars, rawBytes, jsonBytes, c :: rest =>
    if chars = charLimit ∨ satAdd rawBytes c.utf8Size > byteLimit ∨
        satAdd jsonBytes (jsonEscapedCharBytes c) > jsonLimit then []
    else c :: boundedJsonContent charLimit byteLimit jsonLimit (chars + 1)
      (rawBytes + c.utf8Size) (jsonBytes + jsonEscapedCharBytes c) rest

def boundedJsonString (value : String) (limits : ResultLimits) (maxSerializedBytes : ℕ)
    (stats : ValueStats) : String × ValueStats :=
  if identityStringFits value limits ∧
      value.toList.foldl (fun bytes c => satAdd bytes (jsonEscapedCharBytes c)) 2 ≤
        maxSerializedBytes then (value, stats)
  else if maxSerializedBytes < 5 then
    ("", { stats with
      truncatedValues := stats.truncatedValues + 1
      knownOmittedBytes := satAdd stats.knownOmittedBytes (len value) })
  else
    let content := boundedJsonContent (limits.maxStringChars - 1)
      (limits.maxStringBytes - ellipsis.utf8Size) (maxSerializedBytes - 2 - ellipsis.utf8Size)
      0 0 0 value.toList
    (String.ofList (content ++ [ellipsis]),
      { stats with
        truncatedValues := stats.truncatedValues + 1
        knownOmittedBytes := satAdd stats.knownOmittedBytes (len value - utf8Len content) })

/-! ### Formatted values -/

/-- What a formatter writes: its pieces, and whether it fails after them. -/
structure Rendering where
  chunks : List String
  failed : Bool

structure LimitedStringWriter where
  maxChars : ℕ
  maxBytes : ℕ
  value : List Char := []
  chars : ℕ := 0
  truncated : Bool := false

namespace LimitedStringWriter

def writeChars : LimitedStringWriter → List Char → Bool × LimitedStringWriter
  | w, [] => (true, w)
  | w, c :: rest =>
    if w.chars = w.maxChars ∨ satAdd (utf8Len w.value) c.utf8Size > w.maxBytes then
      (false, { w with truncated := true })
    else writeChars { w with value := w.value ++ [c], chars := w.chars + 1 } rest

def writeStr (w : LimitedStringWriter) (value : String) : Bool × LimitedStringWriter :=
  if w.truncated then (false, w) else w.writeChars value.toList

def writeChunks : LimitedStringWriter → List String → Bool × LimitedStringWriter
  | w, [] => (true, w)
  | w, chunk :: rest =>
    match w.writeStr chunk with
    | (true, w) => writeChunks w rest
    | (false, w) => (false, w)

/-- `write!`: stops at the first failure. -/
def write (w : LimitedStringWriter) (rendering : Rendering) : Bool × LimitedStringWriter :=
  let (ok, w) := w.writeChunks rendering.chunks
  (ok && !rendering.failed, w)

/-- Characters are popped until there is room for the ellipsis; the last one is the first here. -/
def popOverflow (maxChars maxBytes : ℕ) : ℕ → List Char → List Char
  | _, [] => []
  | chars, c :: rest =>
    if satAdd chars 1 > maxChars ∨ satAdd (utf8Len (c :: rest)) ellipsis.utf8Size > maxBytes then
      popOverflow maxChars maxBytes (chars - 1) rest
    else c :: rest

def finish (w : LimitedStringWriter) (stats : ValueStats) : String × ValueStats :=
  if w.truncated then
    (String.ofList ((popOverflow w.maxChars w.maxBytes w.chars w.value.reverse).reverse ++
      [ellipsis]), { stats with truncatedValues := stats.truncatedValues + 1 })
  else (String.ofList w.value, stats)

end LimitedStringWriter

def boundedDisplay (rendering : Rendering) (limits : ResultLimits) : String × ValueStats :=
  let (ok, writer) := LimitedStringWriter.write
    { maxChars := limits.maxStringChars, maxBytes := limits.maxStringBytes } rendering
  if !ok && !writer.truncated then ("<format error>", {}) else writer.finish {}

def formatArrayValueBounded (rendering : Rendering) (limits : ResultLimits) (stats : ValueStats) :
    Except ErrorData (String × ValueStats) :=
  let (ok, writer) := LimitedStringWriter.write
    { maxChars := limits.maxStringChars, maxBytes := limits.maxStringBytes } rendering
  if !ok && !writer.truncated then .error .formatValue else .ok (writer.finish stats)

def displayError (error : Rendering) (limits : ResultLimits) : ErrorData :=
  let (message, stats) := boundedDisplay
    { error with chunks := "failed to format Arrow value: " :: error.chunks } limits
  .formatter message (stats.truncatedValues > 0)

/-! ### Cells -/

/-- A float as a JSON number, if it is one, and as text. -/
structure FloatText where
  number : Option String
  shown : String

/-- What a value formatter writes for the value of a row. -/
abbrev Formatter := ℕ → Rendering

/-- The cells of an array, by the types that the conversion tells apart; `utf8` is also its large
form and `float` both precisions, dates are known by their text. -/
inductive ArrayData where
  | utf8 (cells : ℕ → Option String)
  | boolean (cells : ℕ → Option Bool)
  | int32 (cells : ℕ → Option ℤ)
  | int64 (cells : ℕ → Option ℤ)
  | uint32 (cells : ℕ → Option ℕ)
  | uint64 (cells : ℕ → Option ℕ)
  | float (cells : ℕ → Option FloatText)
  | date32 (cells : ℕ → Option String)
  | nested (isValid : ℕ → Bool)
  | other (isValid : ℕ → Bool) (formatter : Except Rendering Formatter)

structure Column where
  name : String
  dataType : Rendering
  nullable : Bool
  array : ArrayData

def jsSafeIntegerMax : ℕ := 9007199254740991

def int64ToJson (value : ℤ) : Json :=
  if value.natAbs ≤ jsSafeIntegerMax then .number (toString value) else .string (toString value)

def uint64ToJson (value : ℕ) : Json :=
  if value ≤ jsSafeIntegerMax then .number (toString value) else .string (toString value)

def floatToJson (value : FloatText) : Json :=
  match value.number with
  | some number => .number number
  | none => .string value.shown

def omittedComplexValueMarker (limits : ResultLimits) : String :=
  (boundedString "[nested Arrow value omitted]" limits {}).1

/-- A cell that is present, or null. -/
def presentCell {α : Type} (cell : Option α) (stats : ValueStats)
    (toJson : α → Json × ValueStats) : Json × ValueStats :=
  match cell with
  | none => (.null, stats)
  | some value => toJson value

def stringCell (limits : ResultLimits) (stats : ValueStats) (value : String) : Json × ValueStats :=
  let (bounded, stats) := boundedString value limits stats
  (.string bounded, stats)

def arrayCellToJson (array : ArrayData) (formatter : Option Formatter) (row : ℕ)
    (limits : ResultLimits) (stats : ValueStats) : Except ErrorData (Json × ValueStats) :=
  match array with
  | .utf8 cells => .ok (presentCell (cells row) stats (stringCell limits stats))
  | .boolean cells => .ok (presentCell (cells row) stats fun value => (.bool value, stats))
  | .int32 cells =>
    .ok (presentCell (cells row) stats fun value => (.number (toString value), stats))
  | .int64 cells => .ok (presentCell (cells row) stats fun value => (int64ToJson value, stats))
  | .uint32 cells =>
    .ok (presentCell (cells row) stats fun value => (.number (toString value), stats))
  | .uint64 cells => .ok (presentCell (cells row) stats fun value => (uint64ToJson value, stats))
  | .float cells => .ok (presentCell (cells row) stats fun value => (floatToJson value, stats))
  | .date32 cells => .ok (presentCell (cells row) stats (stringCell limits stats))
  | .nested isValid =>
    if isValid row then
      .ok (.string (omittedComplexValueMarker limits),
        { stats with
          truncatedValues := stats.truncatedValues + 1
          omittedComplexValues := stats.omittedComplexValues + 1 })
    else .ok (.null, stats)
  | .other isValid _ =>
    if isValid row then
      match formatter with
      | none => .error .missingFormatter
      | some format => do
        let (value, stats) ← formatArrayValueBounded (format row) limits stats
        return (.string value, stats)
    else .ok (.null, stats)

/-- The formatter of a selected column, if its cells need one. -/
def columnFormatter (limits : ResultLimits) (rowLimit : ℕ) (column : Column) :
    Except ErrorData (Option Formatter) :=
  match column.array with
  | .other _ formatter =>
    if rowLimit = 0 then .ok none
    else
      match formatter with
      | .ok formatter => .ok (some formatter)
      | .error error => .error (displayError error limits)
  | _ => .ok none

/-! ### Values of metadata -/

structure BoundedMetadataValue where
  value : Json
  bytes : ℕ
  returnedProperties : ℕ
  knownOmittedProperties : ℕ
  propertyCountComplete : Bool
  valueStats : ValueStats

/-- What was kept of a container so far. -/
structure BoundedItems (α : Type) where
  bounded : List α := []
  bytes : ℕ := 2
  returnedProperties : ℕ := 0
  knownOmittedProperties : ℕ := 0
  propertyCountComplete : Bool := true
  valueStats : ValueStats := {}

def atomicObjectProperties : Json → Option ℕ
  | .object entries =>
    if entries.all fun entry =>
        match entry.2 with
        | .object _ => false
        | .array _ => false
        | _ => true
    then some entries.length
    else none
  | _ => none

namespace BoundedItems

variable {α : Type}

/-- The properties are used up in front of the last `rest` children. -/
def stop (acc : BoundedItems α) (rest : ℕ) : BoundedItems α :=
  { acc with
    knownOmittedProperties := satAdd acc.knownOmittedProperties rest
    propertyCountComplete := false }

def skip (acc : BoundedItems α) : BoundedItems α :=
  { acc with
    knownOmittedProperties := acc.knownOmittedProperties + 1
    propertyCountComplete := false }

/-- A child is kept if it is whole where it has to be and the container stays within its budget. -/
def offer (acc : BoundedItems α) (maxBytes overhead : ℕ) (child : Json)
    (childValue : BoundedMetadataValue) (kept : List α) : BoundedItems α :=
  match childValue.propertyCountComplete, atomicObjectProperties child with
  | false, some atomicProperties =>
    { acc with
      knownOmittedProperties := satAdd acc.knownOmittedProperties (1 + atomicProperties)
      propertyCountComplete := false }
  | _, _ =>
    let candidateBytes := satAdd (satAdd acc.bytes overhead) childValue.bytes
    if candidateBytes > maxBytes then acc.skip
    else
      { bounded := kept
        bytes := candidateBytes
        returnedProperties := satAdd acc.returnedProperties (1 + childValue.returnedProperties)
        knownOmittedProperties :=
          satAdd acc.knownOmittedProperties childValue.knownOmittedProperties
        propertyCountComplete := acc.propertyCountComplete && childValue.propertyCountComplete
        valueStats := acc.valueStats.merge childValue.valueStats }

def finish (acc : BoundedItems α) (container : List α → Json) : BoundedMetadataValue where
  value := container acc.bounded
  bytes := acc.bytes
  returnedProperties := acc.returnedProperties
  knownOmittedProperties := acc.knownOmittedProperties
  propertyCountComplete := acc.propertyCountComplete
  valueStats := acc.valueStats

end BoundedItems

def boundText (limits : ResultLimits) (value : String) (maxBytes : ℕ) : BoundedMetadataValue :=
  let (bounded, stats) := boundedJsonString value limits maxBytes {}
  let bytes := serializedLen (.string bounded)
  { value := if bytes ≤ maxBytes then .string bounded else .null
    bytes := if bytes ≤ maxBytes then bytes else 4
    returnedProperties := 0
    knownOmittedProperties := 0
    propertyCountComplete := bytes ≤ maxBytes
    valueStats := stats }

def boundPrimitive (primitive : Json) (maxBytes : ℕ) : BoundedMetadataValue where
  value := primitive
  bytes := serializedLen primitive
  returnedProperties := 0
  knownOmittedProperties := 0
  propertyCountComplete := serializedLen primitive ≤ maxBytes
  valueStats := {}

mutual

def boundMetadataValue (limits : ResultLimits) : Json → ℕ → ℕ → BoundedMetadataValue
  | .object entries, maxProperties, maxBytes =>
    (boundEntries limits entries maxProperties maxBytes {}).finish .object
  | .array items, maxProperties, maxBytes =>
    (boundItems limits items maxProperties maxBytes {}).finish .array
  | .string value, _, maxBytes => boundText limits value maxBytes
  | .null, _, maxBytes => boundPrimitive .null maxBytes
  | .bool value, _, maxBytes => boundPrimitive (.bool value) maxBytes
  | .number text, _, maxBytes => boundPrimitive (.number text) maxBytes

def boundEntries (limits : ResultLimits) : List (String × Json) → ℕ → ℕ →
    BoundedItems (String × Json) → BoundedItems (String × Json)
  | [], _, _, acc => acc
  | (key, child) :: rest, maxProperties, maxBytes, acc =>
    if acc.returnedProperties = maxProperties then acc.stop (rest.length + 1)
    else if !identityStringFits key limits then
      boundEntries limits rest maxProperties maxBytes acc.skip
    else
      let overhead :=
        satAdd (satAdd (Json.separator acc.bounded) (serializedLen (.string key))) 1
      let childValue := boundMetadataValue limits child
        (maxProperties - (acc.returnedProperties + 1)) (maxBytes - satAdd acc.bytes overhead)
      boundEntries limits rest maxProperties maxBytes (acc.offer maxBytes overhead child childValue
          (Json.insertEntry key childValue.value acc.bounded))

def boundItems (limits : ResultLimits) : List Json → ℕ → ℕ → BoundedItems Json → BoundedItems Json
  | [], _, _, acc => acc
  | child :: rest, maxProperties, maxBytes, acc =>
    if acc.returnedProperties = maxProperties then acc.stop (rest.length + 1)
    else
      let overhead := Json.separator acc.bounded
      let childValue := boundMetadataValue limits child
        (maxProperties - (acc.returnedProperties + 1)) (maxBytes - satAdd acc.bytes overhead)
      boundItems limits rest maxProperties maxBytes
        (acc.offer maxBytes overhead child childValue (acc.bounded ++ [childValue.value]))

end

/-! ### Entries of metadata -/

structure MetadataEntry where
  value : Json
  counts : Option Json
  returnedProperties : ℕ
  knownOmittedProperties : ℕ
  propertyCountComplete : Bool
  valueStats : ValueStats
  specialTruncated : Bool

/-- How the parsers read the texts of metadata. -/
structure MetadataReadings where
  json : String → Option Json
  fieldExceptions : String → Option FieldExceptions
  eidData : String → Option (Map String (List ℤ))

/-- The keys of a map in the order of a sorted map. -/
def sortedKeys {β : Type} (m : Map String β) : List String :=
  m.keys.insertionSort (· ≤ ·)

def numberJson (n : ℕ) : Json := .number (toString n)

def boundedMetadataEntry (r : MetadataReadings) (raw : String) (limits : ResultLimits)
    (maxProperties maxOutputBytes : ℕ) : MetadataEntry :=
  let parsed := (r.json raw).getD (.string raw)
  let bounded := boundMetadataValue limits parsed maxProperties maxOutputBytes
  { value := bounded.value
    counts := none
    returnedProperties := bounded.returnedProperties
    knownOmittedProperties := bounded.knownOmittedProperties
    propertyCountComplete := bounded.propertyCountComplete
    valueStats := bounded.valueStats
    specialTruncated := false }

/-- The value for metadata that cannot be read, if there is room for a marker. -/
def invalidMarker (maxProperties maxOutputBytes : ℕ) : Json × ℕ :=
  if maxProperties > 0 ∧ maxOutputBytes ≥ 16 then (.ofEntries [("invalid", .bool true)], 1)
  else (.object [], 0)

def invalidEntry (maxProperties maxOutputBytes : ℕ) (counts : ℕ → Json) : MetadataEntry where
  value := (invalidMarker maxProperties maxOutputBytes).1
  counts := some (counts (invalidMarker maxProperties maxOutputBytes).2)
  returnedProperties := (invalidMarker maxProperties maxOutputBytes).2
  knownOmittedProperties := 0
  propertyCountComplete := false
  valueStats := {}
  specialTruncated := true

def occurrenceProperties : ℕ := 6

/-- A string of a record, within what the other members leave of the budget. -/
def boundedMember (limits : ResultLimits) (maxBytes : ℕ)
    (acc : List (String × Json) × ℕ × ValueStats) (field : String × String) :
    List (String × Json) × ℕ × ValueStats :=
  let (bounded, bytes, stats) := acc
  let (value, stats) := boundedJsonString field.2 limits (maxBytes - (bytes - 2)) stats
  (Json.insertEntry field.1 (.string value) bounded,
    satAdd bytes (serializedLen (.string value) - 2), stats)

def boundedFieldException (exception : FieldExceptionMeta) (limits : ResultLimits)
    (maxBytes : ℕ) : Option BoundedMetadataValue :=
  let fields := [("category", exception.category), ("field", exception.field),
    ("message", exception.message), ("subcategory", exception.subcategory)]
  if !identityStringFits "code" limits ||
      fields.any fun field => !identityStringFits field.1 limits then none
  else
    let code := .number (toString exception.code)
    let bytes := satAdd (satAdd (satAdd (satAdd 2 (serializedLen (.string "code"))) 1)
      (serializedLen code)) (fields.foldl (fun total field => satAdd total (len field.1 + 6)) 0)
    if bytes > maxBytes then none
    else
      let (bounded, bytes, stats) :=
        fields.foldl (boundedMember limits maxBytes) ([("code", code)], bytes, {})
      some
        { value := .object bounded
          bytes := bytes
          returnedProperties := 5
          knownOmittedProperties := 0
          propertyCountComplete := true
          valueStats := stats }

/-- What was kept of the exceptions of one security. -/
structure KeptRecords where
  kept : List Json := []
  bytes : ℕ
  properties : ℕ := 1
  stats : ValueStats := {}

def keepRecords (limits : ResultLimits) (maxProperties maxOutputBytes returned : ℕ) :
    List FieldExceptionMeta → KeptRecords → KeptRecords
  | [], acc => acc
  | exception :: rest, acc =>
    if maxProperties - (returned + acc.properties) < occurrenceProperties then acc
    else
      let separator := Json.separator acc.kept
      match boundedFieldException exception limits (maxOutputBytes - acc.bytes - separator) with
      | none => acc
      | some record =>
        keepRecords limits maxProperties maxOutputBytes returned rest
          { kept := acc.kept ++ [record.value]
            bytes := satAdd (satAdd acc.bytes separator) record.bytes
            properties := acc.properties + occurrenceProperties
            stats := acc.stats.merge record.valueStats }

structure BoundedExceptions where
  bounded : List (String × Json) := []
  bytes : ℕ := 2
  returnedProperties : ℕ := 0
  stats : ValueStats := {}

def boundExceptions (limits : ResultLimits) (maxProperties maxOutputBytes : ℕ)
    (exceptions : FieldExceptions) : List String → BoundedExceptions → BoundedExceptions
  | [], acc => acc
  | security :: rest, acc =>
    if acc.returnedProperties = maxProperties then acc
    else if !identityStringFits security limits then
      boundExceptions limits maxProperties maxOutputBytes exceptions rest acc
    else
      let fixedBytes := satAdd (satAdd (satAdd (Json.separator acc.bounded)
        (serializedLen (.string security))) 1) 2
      let candidateBytes := satAdd acc.bytes fixedBytes
      if candidateBytes > maxOutputBytes then
        boundExceptions limits maxProperties maxOutputBytes exceptions rest acc
      else
        let records := keepRecords limits maxProperties maxOutputBytes acc.returnedProperties
          (exceptions.forSecurity security) { bytes := candidateBytes }
        if records.kept.isEmpty && !(exceptions.forSecurity security).isEmpty then
          boundExceptions limits maxProperties maxOutputBytes exceptions rest acc
        else
          boundExceptions limits maxProperties maxOutputBytes exceptions rest
            { bounded := Json.insertEntry security (.array records.kept) acc.bounded
              bytes := records.bytes
              returnedProperties := acc.returnedProperties + records.properties
              stats := acc.stats.merge records.stats }

def boundedFieldExceptions (r : MetadataReadings) (raw : String) (limits : ResultLimits)
    (maxProperties maxOutputBytes : ℕ) : MetadataEntry :=
  match r.fieldExceptions raw with
  | none =>
    invalidEntry maxProperties maxOutputBytes fun returned => .ofEntries
      [("returned_properties", numberJson returned), ("known_omitted_properties", numberJson 0),
        ("property_count_complete", .bool false), ("valid", .bool false)]
  | some exceptions =>
    let securities := sortedKeys exceptions.securities
    let totalProperties := securities.foldl (fun total security => satAdd (satAdd total 1)
      (satMul (exceptions.forSecurity security).length occurrenceProperties)) 0
    let bounded := boundExceptions limits maxProperties maxOutputBytes exceptions securities {}
    let omitted := totalProperties - bounded.returnedProperties
    { value := .object bounded.bounded
      counts := some (.ofEntries
        [("returned_properties", numberJson bounded.returnedProperties),
          ("known_omitted_properties", numberJson omitted),
          ("property_count_complete", .bool true), ("valid", .bool true)])
      returnedProperties := bounded.returnedProperties
      knownOmittedProperties := omitted
      propertyCountComplete := true
      valueStats := bounded.stats
      specialTruncated := omitted > 0 }

/-- The identifiers of one security that fit, with the bytes of their array. -/
def keepEids (maxOutputBytes baseBytes : ℕ) : List ℤ → List Json × ℕ → List Json × ℕ
  | [], acc => acc
  | eid :: rest, (kept, arrayBytes) =>
    let eidBytes := serializedLen (.number (toString eid))
    let separator := Json.separator kept
    if satAdd (satAdd (satAdd baseBytes (arrayBytes - 2)) separator) eidBytes > maxOutputBytes then
      (kept, arrayBytes)
    else
      keepEids maxOutputBytes baseBytes rest
        (kept ++ [.number (toString eid)], satAdd (satAdd arrayBytes separator) eidBytes)

structure BoundedEids where
  bounded : List (String × Json) := []
  valueBytes : ℕ := 2
  returnedSecurities : ℕ := 0
  returnedSecurityBytes : ℕ := 0
  returnedEids : ℕ := 0
  returnedProperties : ℕ := 0

def boundEids (limits : ResultLimits) (maxProperties maxOutputBytes : ℕ) :
    List (String × List ℤ) → BoundedEids → BoundedEids
  | [], acc => acc
  | (security, eids) :: rest, acc =>
    if acc.returnedProperties = maxProperties then acc
    else if acc.returnedSecurities = maxEidMetadataSecurities ∨
        identityStringFits security limits = false ∨
        satAdd acc.returnedSecurityBytes (len security) > maxEidMetadataSecurityBytes then
      boundEids limits maxProperties maxOutputBytes rest acc
    else
      let keyBytes := serializedLen (.string security)
      let separator := Json.separator acc.bounded
      let fixedBytes := satAdd (satAdd (satAdd separator keyBytes) 1) 2
      if satAdd acc.valueBytes fixedBytes > maxOutputBytes then
        boundEids limits maxProperties maxOutputBytes rest acc
      else
        let eidLimit := min (maxEntitlementEids - acc.returnedEids)
          (maxProperties - (acc.returnedProperties + 1))
        let (kept, arrayBytes) := keepEids maxOutputBytes (satAdd acc.valueBytes fixedBytes)
          (eids.take eidLimit) ([], 2)
        boundEids limits maxProperties maxOutputBytes rest
          { bounded := Json.insertEntry security (.array kept) acc.bounded
            valueBytes := satAdd (satAdd (satAdd (satAdd acc.valueBytes separator) keyBytes) 1)
              arrayBytes
            returnedSecurities := acc.returnedSecurities + 1
            returnedSecurityBytes := acc.returnedSecurityBytes + len security
            returnedEids := acc.returnedEids + kept.length
            returnedProperties := acc.returnedProperties + (1 + kept.length) }

def invalidEids (maxProperties maxOutputBytes : ℕ) : MetadataEntry :=
  invalidEntry maxProperties maxOutputBytes fun _ => .ofEntries
    [("total_eids", .null), ("returned_eids", numberJson 0), ("total_securities", .null),
      ("returned_securities", numberJson 0), ("valid", .bool false),
      ("counts_complete", .bool false)]

def boundedEidMetadata (r : MetadataReadings) (raw : String) (limits : ResultLimits)
    (maxProperties maxOutputBytes : ℕ) : MetadataEntry :=
  match r.eidData raw with
  | none => invalidEids maxProperties maxOutputBytes
  | some data =>
    let securities := (sortedKeys data).filterMap fun security =>
      (data.lookup security).map fun eids => (security, eids)
    if securities.any fun entry => entry.2.any fun eid => eid ≤ 0 then
      invalidEids maxProperties maxOutputBytes
    else
      let totalEids := securities.foldl (fun total entry => satAdd total entry.2.length) 0
      let bounded := boundEids limits maxProperties maxOutputBytes securities {}
      { value := .object bounded.bounded
        counts := some (.ofEntries
          [("total_eids", numberJson totalEids), ("returned_eids", numberJson bounded.returnedEids),
            ("total_securities", numberJson securities.length),
            ("returned_securities", numberJson bounded.returnedSecurities),
            ("valid", .bool true), ("counts_complete", .bool true)])
        returnedProperties := bounded.returnedProperties
        knownOmittedProperties :=
          satAdd securities.length totalEids - bounded.returnedProperties
        propertyCountComplete := true
        valueStats := {}
        specialTruncated := totalEids > bounded.returnedEids ||
          securities.length > bounded.returnedSecurities }

/-! ### Metadata -/

structure MetadataOutput where
  metadata : List (String × Json) := []
  counts : List (String × Json) := []
  totalEntries : ℕ
  inspectedEntries : ℕ := 0
  returnedEntries : ℕ := 0
  inspectedInputBytes : ℕ := 0
  returnedInputBytes : ℕ := 0
  knownOmittedProperties : ℕ := 0
  inputCountComplete : Bool
  propertyCountComplete : Bool
  valueStats : ValueStats := {}
  specialTruncated : Bool := false

/-- The loop over the keys, with what is left of the limits. -/
structure MetadataState where
  output : MetadataOutput
  inputBytesRemaining : ℕ
  outputBytesRemaining : ℕ
  propertiesRemaining : ℕ
  budget : ComponentBudget

def priorityCountsReserve : ℕ := 192

/-- The entry of a key; the priority keys always have counts. -/
def metadataEntry (r : MetadataReadings) (limits : ResultLimits) (key raw : String)
    (maxProperties valueBudget : ℕ) : MetadataEntry :=
  let entry :=
    if key = eidMetadataKey then boundedEidMetadata r raw limits maxProperties valueBudget
    else if key = fieldExceptionsKey then
      boundedFieldExceptions r raw limits maxProperties valueBudget
    else boundedMetadataEntry r raw limits maxProperties valueBudget
  if entry.counts.isNone && priorityMetadataKeys.contains key then
    { entry with
      counts := some (.ofEntries
        [("returned_properties", numberJson entry.returnedProperties),
          ("known_omitted_properties", numberJson entry.knownOmittedProperties),
          ("property_count_complete", .bool entry.propertyCountComplete)]) }
  else entry

def keyedCost (key : String) (value : Json) : ℕ :=
  satAdd (satAdd (satAdd (serializedLen (.string key)) 1) (serializedLen value)) 1

def entryCost (key : String) (entry : MetadataEntry) : ℕ :=
  satAdd (keyedCost key entry.value) (entry.counts.elim 0 (keyedCost key))

namespace MetadataState

def incomplete (s : MetadataState) : MetadataState :=
  { s with output := { s.output with propertyCountComplete := false } }

/-- The entry is put in the output. -/
def keep (s : MetadataState) (key : String) (inputBytes : ℕ) (entry : MetadataEntry)
    (budget : ComponentBudget) : MetadataState where
  output :=
    { s.output with
      metadata := Json.insertEntry key entry.value s.output.metadata
      counts := entry.counts.elim s.output.counts fun counts =>
        Json.insertEntry key counts s.output.counts
      returnedEntries := s.output.returnedEntries + 1
      returnedInputBytes := satAdd s.output.returnedInputBytes inputBytes
      knownOmittedProperties :=
        satAdd s.output.knownOmittedProperties entry.knownOmittedProperties
      propertyCountComplete := s.output.propertyCountComplete && entry.propertyCountComplete
      valueStats := s.output.valueStats.merge entry.valueStats
      specialTruncated := s.output.specialTruncated || entry.specialTruncated }
  inputBytesRemaining := s.inputBytesRemaining
  outputBytesRemaining := s.outputBytesRemaining - entryCost key entry
  propertiesRemaining := s.propertiesRemaining - satAdd 1 entry.returnedProperties
  budget := budget

/-- Room for the value of a key. -/
def valueBudget (s : MetadataState) (key : String) : ℕ :=
  min s.outputBytesRemaining s.budget.remaining - satAdd (serializedLen (.string key)) 2 -
    if priorityMetadataKeys.contains key then priorityCountsReserve else 0

def inspect (s : MetadataState) (inputBytes : ℕ) : MetadataState :=
  { s with
    inputBytesRemaining := s.inputBytesRemaining - inputBytes
    output :=
      { s.output with
        inspectedEntries := s.output.inspectedEntries + 1
        inspectedInputBytes := satAdd s.output.inspectedInputBytes inputBytes } }

/-- One key of the loop. -/
def visit (r : MetadataReadings) (limits : ResultLimits) (entryLimit : ℕ) (s : MetadataState)
    (key raw : String) : MetadataState :=
  let inputBytes := satAdd (len key) (len raw)
  if s.output.inspectedEntries = entryLimit ∨ inputBytes > s.inputBytesRemaining then
    { s with
      inputBytesRemaining := 0
      output :=
        { s.output with inputCountComplete := false, propertyCountComplete := false } }
  else
    let s := s.inspect inputBytes
    if s.propertiesRemaining = 0 ∨ identityStringFits key limits = false then s.incomplete
    else if s.valueBudget key < 2 then
      { s.incomplete with budget := s.budget.markTruncated }
    else
      let entry := metadataEntry r limits key raw (s.propertiesRemaining - 1) (s.valueBudget key)
      if entryCost key entry > s.outputBytesRemaining then s.incomplete
      else
        match s.budget.tryTake (entryCost key entry) with
        | (false, budget) => { s.incomplete with budget := budget }
        | (true, budget) => s.keep key inputBytes entry budget

end MetadataState

def orderedMetadataKeys (metadata : Map String String) (inspectGeneric : Bool) : List String :=
  priorityMetadataKeys.filter (fun key => (metadata.lookup key).isSome) ++
    if inspectGeneric then
      (sortedKeys metadata).filter fun key => !priorityMetadataKeys.contains key
    else []

def buildMetadata (r : MetadataReadings) (metadata : Map String String) (limits : ResultLimits)
    (budget : ComponentBudget) : MetadataOutput × ComponentBudget :=
  let entryLimit := min limits.maxMetadataProperties (limits.maxMetadataBytes / 8)
  let total := metadata.keys.length
  let inspectGeneric := total ≤ entryLimit
  let start : MetadataState :=
    { output :=
        { totalEntries := total
          inputCountComplete := inspectGeneric
          propertyCountComplete := inspectGeneric }
      inputBytesRemaining := limits.maxMetadataBytes
      outputBytesRemaining := min limits.maxMetadataBytes budget.remaining
      propertiesRemaining := limits.maxMetadataProperties
      budget := budget }
  let s := (orderedMetadataKeys metadata inspectGeneric).foldl
    (fun s key => s.visit r limits entryLimit key ((metadata.lookup key).getD "")) start
  let inputCountComplete :=
    s.output.inputCountComplete && s.output.inspectedEntries == total
  ({ s.output with
      inputCountComplete := inputCountComplete
      propertyCountComplete := s.output.propertyCountComplete &&
        (inputCountComplete && s.output.returnedEntries == total) }, s.budget)

/-! ### Batches -/

structure Batch where
  columns : List Column
  numRows : ℕ
  metadata : Map String String
  numRows_le : numRows ≤ usizeMax
  numColumns_le : columns.length ≤ usizeMax
  numMetadata_le : metadata.keys.length ≤ usizeMax

/-- A selected column with the bytes of its name. -/
abbrev SelectedColumn := Column × ℕ

/-- The loop over the fields of the schema. -/
structure SchemaState where
  schemaJson : List Json := []
  selectedColumns : List SelectedColumn := []
  selectedNames : List String := []
  knownDuplicateColumns : ℕ := 0
  knownInvalidIdentityColumns : ℕ := 0
  columnCountComplete : Bool := true
  valueStats : ValueStats := {}
  bytesRemaining : ℕ
  budget : ComponentBudget

def columnDescriptor (field : Column) (dataType : String) : Json :=
  .ofEntries [("name", .string field.name), ("data_type", .string dataType),
    ("nullable", .bool field.nullable)]

/-- The descriptor of a column is put in the schema. -/
def SchemaState.select (s : SchemaState) (field : Column) (limits : ResultLimits) (cost : ℕ)
    (budget : ComponentBudget) : SchemaState :=
  { s with
    schemaJson := s.schemaJson ++ [columnDescriptor field (boundedDisplay field.dataType limits).1]
    selectedColumns := s.selectedColumns ++ [(field, serializedLen (.string field.name))]
    valueStats := s.valueStats.merge (boundedDisplay field.dataType limits).2
    bytesRemaining := s.bytesRemaining - cost
    budget := budget }

def selectColumns (limits : ResultLimits) : List Column → SchemaState → SchemaState
  | [], s => s
  | field :: rest, s =>
    if !identityStringFits field.name limits then
      selectColumns limits rest
        { s with knownInvalidIdentityColumns := s.knownInvalidIdentityColumns + 1 }
    else if field.name ∈ s.selectedNames then
      selectColumns limits rest { s with knownDuplicateColumns := s.knownDuplicateColumns + 1 }
    else
      let s := { s with selectedNames := field.name :: s.selectedNames }
      let descriptor := columnDescriptor field (boundedDisplay field.dataType limits).1
      let cost := satAdd (serializedLen descriptor) 1
      if cost > s.bytesRemaining then
        { s with budget := s.budget.markTruncated, columnCountComplete := false }
      else
        match s.budget.tryTake cost with
        | (false, budget) => { s with budget := budget, columnCountComplete := false }
        | (true, budget) => selectColumns limits rest (s.select field limits cost budget)

/-- A row that is being filled, with its bytes. -/
structure RowState where
  entries : List (String × Json) := []
  bytes : ℕ := 2
  stats : ValueStats := {}

/-- The cells of a row; there is no row if they do not fit in what remains. -/
def buildRow (limits : ResultLimits) (remaining row : ℕ) :
    List (SelectedColumn × Option Formatter) → RowState → Except ErrorData (Option RowState)
  | [], s => .ok (some s)
  | ((column, nameBytes), formatter) :: rest, s => do
    let (value, stats) ← arrayCellToJson column.array formatter row limits s.stats
    let entryBytes := satAdd (satAdd (satAdd nameBytes 1) (serializedLen value))
      (Json.separator s.entries)
    if satAdd (satAdd s.bytes entryBytes) 1 > remaining then .ok none
    else
      buildRow limits remaining row rest
        { entries := Json.insertEntry column.name value s.entries
          bytes := satAdd s.bytes entryBytes
          stats := stats }

structure RowsState where
  rows : List Json := []
  stats : ValueStats := {}
  budget : ComponentBudget

def buildRows (limits : ResultLimits) (columns : List (SelectedColumn × Option Formatter)) :
    List ℕ → RowsState → Except ErrorData RowsState
  | [], s => .ok s
  | row :: rest, s => do
    match ← buildRow limits s.budget.remaining row columns {} with
    | none => .ok { s with budget := s.budget.markTruncated }
    | some filled =>
      match s.budget.tryTake (satAdd filled.bytes 1) with
      | (false, budget) => .ok { s with budget := budget.markTruncated }
      | (true, budget) =>
        buildRows limits columns rest
          { rows := s.rows ++ [.object filled.entries]
            stats := s.stats.merge filled.stats
            budget := budget }

/-- The rows that are converted at most. -/
def rowLimit (batch : Batch) (limits : ResultLimits) (returnedColumns : ℕ) : ℕ :=
  if batch.columns.length = 0 then min batch.numRows limits.maxRows
  else
    min (min batch.numRows limits.maxRows)
      (if returnedColumns = 0 then 0 else limits.maxCells / returnedColumns)

/-! ### Results -/

section Result

variable (batch : Batch) (limits : ResultLimits) (metadata : MetadataOutput)
  (schema : SchemaState) (rows : RowsState)

def returnedCells : ℕ := satMul rows.rows.length schema.selectedColumns.length

def omittedCells : ℕ := satMul batch.numRows batch.columns.length - returnedCells schema rows

def resultStats : ValueStats := (metadata.valueStats.merge schema.valueStats).merge rows.stats

def metadataTruncated : Bool :=
  metadata.returnedEntries < metadata.totalEntries || !metadata.inputCountComplete ||
    !metadata.propertyCountComplete || metadata.valueStats.truncatedValues > 0 ||
    metadata.specialTruncated

def omittedPriorityMetadata : List String :=
  priorityMetadataKeys.filter fun key =>
    (batch.metadata.lookup key).isSome && !(metadata.metadata.map Prod.fst).contains key

def truncatedJson : Json :=
  .ofEntries
    [("rows", .bool (rows.rows.length < batch.numRows)),
      ("columns", .bool (schema.selectedColumns.length < batch.columns.length)),
      ("cells", .bool (omittedCells batch schema rows > 0)),
      ("values", .bool ((resultStats metadata schema rows).truncatedValues > 0)),
      ("metadata", .bool (metadataTruncated metadata)),
      ("output", .bool rows.budget.truncated)]

def truncationCountsJson : Json :=
  .ofEntries
    [("omitted_rows", numberJson (batch.numRows - rows.rows.length)),
      ("omitted_columns", numberJson (batch.columns.length - schema.selectedColumns.length)),
      ("omitted_cells", numberJson (omittedCells batch schema rows)),
      ("known_duplicate_columns", numberJson schema.knownDuplicateColumns),
      ("known_duplicate_cells", numberJson (satMul schema.knownDuplicateColumns batch.numRows)),
      ("known_invalid_identity_columns", numberJson schema.knownInvalidIdentityColumns),
      ("schema_column_count_complete", .bool (schema.columnCountComplete &&
        min batch.columns.length limits.maxCells == batch.columns.length)),
      ("truncated_values", numberJson (resultStats metadata schema rows).truncatedValues),
      ("known_omitted_value_bytes",
        numberJson (resultStats metadata schema rows).knownOmittedBytes),
      ("omitted_complex_values",
        numberJson (resultStats metadata schema rows).omittedComplexValues),
      ("omitted_metadata_entries",
        numberJson (metadata.totalEntries - metadata.returnedEntries)),
      ("inspected_metadata_entries", numberJson metadata.inspectedEntries),
      ("inspected_metadata_input_bytes", numberJson metadata.inspectedInputBytes),
      ("omitted_metadata_input_bytes", if metadata.inputCountComplete then
          numberJson (metadata.inspectedInputBytes - metadata.returnedInputBytes)
        else .null),
      ("metadata_input_count_complete", .bool metadata.inputCountComplete),
      ("known_omitted_metadata_properties", numberJson metadata.knownOmittedProperties),
      ("omitted_priority_metadata",
        .array ((omittedPriorityMetadata batch metadata).map .string)),
      ("metadata_property_count_complete", .bool metadata.propertyCountComplete)]

/-- The members of the result; those of the metadata only if there are some. -/
def resultEntries : List (String × Json) :=
  [("schema", .array schema.schemaJson),
    ("row_count", numberJson batch.numRows),
    ("column_count", numberJson batch.columns.length),
    ("returned_rows", numberJson rows.rows.length),
    ("returned_columns", numberJson schema.selectedColumns.length),
    ("returned_cells", numberJson (returnedCells schema rows)),
    ("result_budget_bytes", numberJson limits.maxResultBytes),
    ("truncated", truncatedJson batch metadata schema rows),
    ("truncation_counts", truncationCountsJson batch limits metadata schema rows),
    ("rows", .array rows.rows)] ++
    (if metadata.metadata.isEmpty then [] else [("metadata", .object metadata.metadata)]) ++
    (if metadata.counts.isEmpty then [] else [("metadata_counts", .object metadata.counts)])

end Result

def recordBatchToJson (r : MetadataReadings) (batch : Batch) (limits : ResultLimits) :
    Except ErrorData Json :=
  if limits.maxResultBytes < minResultBytes then .error (.budgetTooSmall limits.maxResultBytes)
  else do
    let (metadata, budget) := buildMetadata r batch.metadata limits
      { remaining := limits.maxResultBytes - outputEnvelopeReserve }
    let schema := selectColumns limits (batch.columns.take limits.maxCells)
      { bytesRemaining := if batch.numRows = 0 then budget.remaining else budget.remaining / 2
        budget := budget }
    let rowLimit := rowLimit batch limits schema.selectedColumns.length
    let formatters ← schema.selectedColumns.mapM fun selected =>
      columnFormatter limits rowLimit selected.1
    let rows ← buildRows limits (schema.selectedColumns.zip formatters) (List.range rowLimit)
      { budget := schema.budget }
    let result := Json.ofEntries (resultEntries batch limits metadata schema rows)
    if serializedLen result > limits.maxResultBytes then
      .error (.exceeded (serializedLen result) limits.maxResultBytes)
    else .ok result

end Xbbg.Mcp
