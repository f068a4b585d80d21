import Xbbg.Model.Columns
import Xbbg.Verification.Sharding.Diagnostics

/-! # Batches of columns

Columns of one length make a batch, and a batch that was built has the fields and arrays that it was
built from. -/

namespace Xbbg.Columns

open List Library Diagnostics RecordBatch Column

/-- How a column takes its cell from a row, given the type of the column. -/
structure Reader (ρ : Type*) where
  name : String
  read : ArrowType → ρ → Option Cell

/-- The columns of a batch are those of the readers, with one cell for each row. -/
structure Renders {ρ : Type*} (readers : List (Reader ρ)) (rows : List ρ) (batch : RecordBatch) :
    Prop where
  columns : List.Forall₂ (fun (reader : Reader ρ) (column : Column) => column.name = reader.name ∧
    column.values = rows.map (reader.read column.array.dataType)) readers batch.columns
  numRows : batch.numRows = rows.length

def Reader.Fills {ρ : Type*} (rows : List ρ) (reader : Reader ρ) (column : Column) : Prop :=
  column.name = reader.name ∧ column.values = rows.map (reader.read column.array.dataType)

variable {ρ : Type*} {rows : List ρ} {readers : List (Reader ρ)} {columns : List Column}
  {fields : List Field} {arrays : List ArrowArray} {batch : RecordBatch} {r : ResponseMetadata}
  {what : String} {m : Metadata}

/-! ## Building a batch -/

theorem zipWith_columns (columns : List Column) :
    (columns.map field).zipWith (fun f arr => (⟨f.name, arr⟩ : Column))
      (columns.map array) = columns := by
  rw [zipWith_map, zipWith_self]
  exact map_id _

theorem tryNew_of_lengths (hne : columns ≠ []) {n : ℕ}
    (h : ∀ col ∈ columns, col.values.length = n) (m : Metadata) :
    tryNew (columns.map field) m (columns.map array) =
      .ok ⟨columns, n, m, h⟩ := by
  obtain ⟨a, rest, rfl⟩ := exists_cons_of_ne_nil hne
  obtain rfl : a.values.length = n := h a mem_cons_self
  unfold tryNew
  simp only [zipWith_columns]
  rw [if_neg (by simp)]
  exact (dif_pos h).trans (if_pos (by simp [field]))

theorem lengths_of_fills (h : List.Forall₂ (Reader.Fills rows) readers columns) :
    ∀ col ∈ columns, col.values.length = rows.length := by
  induction h with
  | nil => simp
  | cons hc _ ih =>
    intro col hm
    rcases mem_cons.mp hm with rfl | hm
    · rw [hc.2, length_map]
    · exact ih col hm

theorem fields_zipWith (ht : arrays.map ArrowArray.dataType = fields.map Field.dataType) :
    (fields.zipWith (fun f arr => (⟨f.name, arr⟩ : Column)) arrays).map field = fields := by
  induction fields generalizing arrays with
  | nil => simp
  | cons f fields ih =>
    cases arrays with
    | nil => cases ht
    | cons arr arrays =>
      obtain ⟨hf, hr⟩ := cons.inj ht
      rw [zipWith_cons_cons, map_cons, ih hr, field, hf]

theorem spec_of_tryNew (h : tryNew fields m arrays = .ok batch) :
    batch.columns = fields.zipWith (fun f arr => ⟨f.name, arr⟩) arrays ∧
      batch.fields = fields ∧ batch.metadata = m := by
  unfold tryNew at h
  extract_lets columns at h
  split at h
  · cases h
  · cases arrays with
    | nil => cases h
    | cons a rest =>
      dsimp only at h
      split at h
      · split at h
        · rename_i ht
          rw [← Except.ok.inj h]
          exact ⟨rfl, fields_zipWith ht, rfl⟩
        · cases h
      · cases h

theorem spec_of_built (h : built what r (tryNew fields {} arrays) = .ok batch) :
    batch.columns = fields.zipWith (fun f arr => ⟨f.name, arr⟩) arrays ∧
      batch.fields = fields ∧ batch.metadata = r.attach {} := by
  cases hn : tryNew fields {} arrays with
  | error e =>
    rw [hn] at h
    cases h
  | ok c =>
    obtain ⟨hc, hf, hm⟩ := spec_of_tryNew hn
    rw [hn] at h
    rw [← Except.ok.inj h]
    exact ⟨hc, hf, congrArg r.attach hm⟩

theorem columns_of_built (h : built what r (tryNew (columns.map field) {}
    (columns.map array)) = .ok batch) : batch.columns = columns :=
  (spec_of_built h).1.trans (zipWith_columns columns)

/-! ## Diagnostics of the builders -/

/-- Builders count type misses and report nothing else. -/
def OnlyMisses (r : ResponseMetadata) : Prop :=
  r.securityErrors = ∅ ∧ r.fieldExceptions = .empty

theorem OnlyMisses.recordTypeMiss (h : OnlyMisses r) (f : String) :
    OnlyMisses (r.recordTypeMiss f) := h

/-- Metadata without security errors and field exceptions. -/
def Plain (m : Metadata) : Prop := m.securityErrors = none ∧ m.fieldExceptions = none

theorem plain_attach (h : OnlyMisses r) (hm : Plain m) : Plain (r.attach m) := by
  obtain ⟨-, he, hex, -⟩ := ResponseMetadata.attach_parts r m
  constructor
  · rw [he, h.1, hm.1]
    rfl
  · rw [hex, h.2, hm.2]
    rfl

theorem exists_built (h : List.Forall₂ (Reader.Fills rows) readers columns) (hne : columns ≠ [])
    (hr : OnlyMisses r) (what : String) :
    ∃ batch, built what r (tryNew (columns.map field) {}
        (columns.map array)) = .ok batch ∧
      Renders readers rows batch ∧ Plain batch.metadata ∧
      batch.fields = columns.map field := by
  rw [tryNew_of_lengths hne (lengths_of_fills h)]
  exact ⟨_, rfl, ⟨h, rfl⟩, plain_attach hr ⟨rfl, rfl⟩, rfl⟩

/-! ## Typed builders -/

namespace TypedBuilder

@[simp] theorem dataType_new (arrowType : ArrowType) : (new arrowType).dataType = arrowType := rfl

@[simp] theorem values_new (ty : ArrowType) : (new ty).values = [] := rfl

@[simp] theorem dataType_appendNulls (b : TypedBuilder) (n : ℕ) :
    (b.appendNulls n).dataType = b.dataType := rfl

@[simp] theorem values_appendNulls (b : TypedBuilder) (n : ℕ) :
    (b.appendNulls n).values = b.values ++ replicate n none := rfl

@[simp] theorem dataType_appendValue (c : Conversions) (b : TypedBuilder) (v : Option Value) :
    (appendValue c b v).1.dataType = b.dataType := rfl

@[simp] theorem values_appendValue (c : Conversions) (b : TypedBuilder) (v : Option Value) :
    (appendValue c b v).1.values = b.values ++ [cellOf c b.dataType v] := rfl

@[simp] theorem dataType_padTo (b : TypedBuilder) (n : ℕ) : (b.padTo n).dataType = b.dataType := rfl

@[simp] theorem values_padTo (b : TypedBuilder) (n : ℕ) :
    (b.padTo n).values = b.values ++ replicate (n - b.values.length) none := rfl

end TypedBuilder

end Xbbg.Columns
