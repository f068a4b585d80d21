import Xbbg.Library.Interning
import Xbbg.Library.Maps
import Xbbg.Model.Types
import Mathlib.Data.List.Sort

/-! Response diagnostics and their place in the metadata of a batch, from `diagnostics.rs` and
`engine/state/value_utils.rs`. A metadata value is the document under its key. -/

namespace Xbbg.Diagnostics

open Library

/-! ### Field exceptions -/

structure FieldExceptionMeta where
  field : String
  category : String
  code : ℤ
  subcategory : String
  message : String
  deriving DecidableEq, Repr, Ord

/-- Interned exception payloads and the ordered occurrences of each security. -/
structure FieldExceptions where
  entries : IndexSet FieldExceptionMeta
  securities : Map String (List ℕ)
  bounded : ∀ security indices, securities.lookup security = some indices →
    ∀ index ∈ indices, index < entries.entries.length

/-- The document of field exceptions: a dictionary and numbers into it. -/
structure Envelope where
  version : ℕ
  entries : List FieldExceptionMeta
  securities : Map String (List ℕ)

namespace FieldExceptions

def empty : FieldExceptions where
  entries := .empty
  securities := ∅
  bounded := by simp

def isEmpty (e : FieldExceptions) : Bool := e.securities.isEmpty

/-- The ordered occurrences of one security. -/
def forSecurity (e : FieldExceptions) (ticker : String) : List FieldExceptionMeta :=
  e.entries.read ((e.securities.lookup ticker).getD [])

/-- The occurrences of each security that has a list. -/
def expanded (e : FieldExceptions) (ticker : String) : Option (List FieldExceptionMeta) :=
  (e.securities.lookup ticker).map fun _ => e.forSecurity ticker

/-- The number of the dictionary entry that stands at a position after another dictionary was
merged in; every position of a dictionary has one. -/
def remap (indices : List ℕ) (index : ℕ) : ℕ := (indices[index]?).getD 0

theorem remap_lt (s : IndexSet FieldExceptionMeta) (l : List FieldExceptionMeta) {index : ℕ}
    (h : index < l.length) :
    remap (s.insertAll l).1 index < (s.insertAll l).2.entries.length := by
  have hread := s.getElem?_insertAll l index
  rw [List.getElem?_eq_getElem h] at hread
  obtain ⟨number, hnum, hent⟩ := Option.bind_eq_some_iff.mp hread
  rw [remap, hnum]
  exact (List.getElem?_eq_some_iff.mp hent).1

def record (e : FieldExceptions) (ticker : String) (exception : FieldExceptionMeta) :
    FieldExceptions where
  entries := (e.entries.insertFull exception).2
  securities := e.securities.insert ticker
    ((e.securities.lookup ticker).getD [] ++ [(e.entries.insertFull exception).1])
  bounded := by
    have hgrow : e.entries.entries.length ≤ (e.entries.insertFull exception).2.entries.length :=
      (e.entries.extends_insertFull exception).length_le
    have hlast := (List.getElem?_eq_some_iff.mp (e.entries.getElem?_insertFull exception)).1
    intro security indices hlookup index hindex
    rw [Map.lookup_insert_if] at hlookup
    split at hlookup
    · cases hlookup
      rcases mem_snoc.mp hindex with hold | rfl
      · cases hsome : e.securities.lookup ticker with
        | none => simp [hsome] at hold
        | some old =>
          rw [hsome, Option.getD_some] at hold
          exact (e.bounded ticker old hsome index hold).trans_le hgrow
      · exact hlast
    · exact (e.bounded security indices hlookup index hindex).trans_le hgrow

/-- Merge another dictionary, renumbering its indices and appending its occurrences. -/
def extend (e other : FieldExceptions) : FieldExceptions :=
  if e.isEmpty then other
  else
    { entries := (e.entries.insertAll other.entries.entries).2
      securities := e.securities.merge (fun old indices => old.getD [] ++
          indices.map (remap (e.entries.insertAll other.entries.entries).1)) other.securities
      bounded := by
        have hgrow := (e.entries.extends_insertAll other.entries.entries).length_le
        intro security indices hlookup index hindex
        rw [Map.lookup_merge] at hlookup
        split at hlookup
        · exact (e.bounded security indices hlookup index hindex).trans_le hgrow
        · rename_i added hadded
          cases hlookup
          rcases List.mem_append.mp hindex with hold | hnew
          · cases hsome : e.securities.lookup security with
            | none => simp [hsome] at hold
            | some old =>
              rw [hsome, Option.getD_some] at hold
              exact (e.bounded security old hsome index hold).trans_le hgrow
          · obtain ⟨source, hsource, rfl⟩ := List.mem_map.mp hnew
            exact remap_lt _ _ (other.bounded security added hadded source hsource) }

/-- The dictionary positions in the order of their payloads. -/
def order (e : FieldExceptions) : List ℕ :=
  (List.range e.entries.entries.length).mergeSort fun left right =>
    (compare e.entries.entries[left]? e.entries.entries[right]?).isLE

/-- The document, independent of the order in which the dictionary was filled. -/
def toJson (e : FieldExceptions) : Envelope where
  version := 1
  entries := e.entries.read e.order
  securities := e.securities.mapValues fun indices => indices.map fun index => e.order.idxOf index

def fromJson (envelope : Envelope) : Except String FieldExceptions :=
  if envelope.version ≠ 1 then
    .error s!"unsupported field-exception metadata version {envelope.version}"
  else if h : ∀ entry ∈ envelope.securities.entries, ∀ index ∈ entry.2,
      index < envelope.entries.length then
    .ok
      { entries := (IndexSet.empty.insertAll envelope.entries).2
        securities := envelope.securities.mapValues fun indices =>
          indices.map (remap (IndexSet.empty.insertAll envelope.entries).1)
        bounded := by
          intro security indices hlookup index hindex
          rw [Map.lookup_mapValues] at hlookup
          obtain ⟨old, hold, rfl⟩ := Option.map_eq_some_iff.mp hlookup
          obtain ⟨source, hsource, rfl⟩ := List.mem_map.mp hindex
          have hmem := AList.mem_lookup_iff.mp hold
          exact remap_lt _ _ (h _ hmem source hsource) }
  else .error "field-exception dictionary index out of range"

end FieldExceptions

/-! ### The metadata of a batch -/

structure SecurityErrorMeta where
  category : String
  code : ℤ
  subcategory : String
  message : String
  deriving DecidableEq, Repr

structure DelayedMeta where
  delayed : Bool
  delayMinutes : Option ℕ
  deriving DecidableEq, Repr

/-- Schema metadata: the document under each `xbbg.*` key that is present. -/
structure Metadata where
  eidData : Option (Map String (List ℤ)) := none
  securityErrors : Option (Map String SecurityErrorMeta) := none
  fieldExceptions : Option Envelope := none
  delayed : Option (Map String DelayedMeta) := none
  typeMisses : Option (Map String ℕ) := none
  bloombergRequestId : Option String := none
  bloombergRequestIds : Option (List String) := none

namespace BloombergRequestIds

/-- The identifiers are kept sorted and without repetition. -/
def insert (ids : List String) (id : String) : List String :=
  if id ∈ ids then ids else ids.orderedInsert (· ≤ ·) id

def collect (ids : List String) (metadata : Metadata) : List String :=
  (metadata.bloombergRequestIds.getD []).foldl insert
    ((metadata.bloombergRequestId.toList).foldl insert ids)

def attachMetadata (ids : List String) (metadata : Metadata) : Metadata :=
  match ids with
  | [] => metadata
  | [id] => { metadata with bloombergRequestId := some id, bloombergRequestIds := none }
  | ids => { metadata with bloombergRequestId := none, bloombergRequestIds := some ids }

end BloombergRequestIds

structure ResponseMetadata where
  eidData : Map String (List ℤ) := ∅
  securityErrors : Map String SecurityErrorMeta := ∅
  fieldExceptions : FieldExceptions := .empty
  delayed : Map String DelayedMeta := ∅
  typeMisses : Map String ℕ := ∅
  bloombergRequestIds : List String := []
  captureDelayed : Bool := false
  hiddenFields : List String := []

namespace ResponseMetadata

def recordTypeMiss (m : ResponseMetadata) (field : String) : ResponseMetadata :=
  { m with typeMisses := m.typeMisses.insert field ((m.typeMisses.lookup field).getD 0 + 1) }

def recordEidData (m : ResponseMetadata) (ticker : String) (eids : List (Option ℤ)) :
    ResponseMetadata :=
  { m with
    eidData := m.eidData.insert ticker ((m.eidData.lookup ticker).getD [] ++ eids.reduceOption) }

def recordSecurityError (m : ResponseMetadata) (ticker : String) (error : SecurityErrorMeta) :
    ResponseMetadata :=
  { m with securityErrors := m.securityErrors.insert ticker error }

def isEmpty (m : ResponseMetadata) : Bool :=
  m.eidData.isEmpty && m.securityErrors.isEmpty && m.fieldExceptions.isEmpty &&
    m.delayed.isEmpty && m.typeMisses.isEmpty && m.bloombergRequestIds.isEmpty

/-- A nonempty map replaces the document of its key, an empty one leaves it. -/
def insertJson {β : Type*} (document : Option (Map String β)) (value : Map String β) :
    Option (Map String β) :=
  if value.isEmpty then document else some value

def attach (m : ResponseMetadata) (metadata : Metadata) : Metadata :=
  if m.isEmpty then metadata
  else
    BloombergRequestIds.attachMetadata m.bloombergRequestIds
      { metadata with
        eidData := insertJson metadata.eidData m.eidData
        securityErrors := insertJson metadata.securityErrors m.securityErrors
        fieldExceptions :=
          if m.fieldExceptions.isEmpty then metadata.fieldExceptions
          else some m.fieldExceptions.toJson
        delayed := insertJson metadata.delayed m.delayed
        typeMisses := insertJson metadata.typeMisses m.typeMisses }

/-- Later entries replace earlier ones. -/
def extendMap {β : Type*} (m : Map String β) (document : Option (Map String β)) : Map String β :=
  m.merge (fun _ value => value) (document.getD ∅)

def collectTypeMisses (m : ResponseMetadata) (metadata : Metadata) : ResponseMetadata :=
  { m with
    typeMisses := m.typeMisses.merge (fun old count => old.getD 0 + count)
      (metadata.typeMisses.getD ∅) }

def collectFieldExceptions (e : FieldExceptions) : Option Envelope → Except BlpError FieldExceptions
  | none => .ok e
  | some raw =>
    match FieldExceptions.fromJson raw with
    | .ok exceptions => .ok (e.extend exceptions)
    | .error error => .error (.internal s!"invalid xbbg.field_exceptions metadata: {error}")

/-- What one batch adds to the union. -/
def collect (m : ResponseMetadata) (metadata : Metadata) : Except BlpError ResponseMetadata :=
  match collectFieldExceptions m.fieldExceptions metadata.fieldExceptions with
  | .error error => .error error
  | .ok fieldExceptions =>
    .ok
      { m.collectTypeMisses metadata with
        bloombergRequestIds := BloombergRequestIds.collect m.bloombergRequestIds metadata
        eidData := extendMap m.eidData metadata.eidData
        securityErrors := extendMap m.securityErrors metadata.securityErrors
        fieldExceptions := fieldExceptions
        delayed := extendMap m.delayed metadata.delayed }

def unionOf : ResponseMetadata → List Metadata → Except BlpError ResponseMetadata
  | m, [] => .ok m
  | m, metadata :: rest =>
    match m.collect metadata with
    | .error error => .error error
    | .ok m => unionOf m rest

end ResponseMetadata

end Xbbg.Diagnostics
