import Xbbg.Model.Sharding
import Xbbg.Verification.Columns.Batches

/-! Joining the batches of shards: when every column of a shard has the type it has in the first
shard or is all null, the rows of the shards follow one another unchanged. -/

namespace Xbbg.Sharding

open List Library Diagnostics Columns Column RecordBatch

variable {cols next : List (List (Option Cell))} {numRows : ℕ} {fields : List Field}
  {batch : RecordBatch} {columns : List Column} {fieldNames : List String} {includeDate : Bool}
  {w : WideColumns}

/-! ### Rows of a batch -/

def rowsOf (columns : List (List (Option Cell))) (numRows : ℕ) : List (List (Option Cell)) :=
  (List.range numRows).map fun row => columns.map fun column => (column[row]?).join

def batchRows (b : RecordBatch) : List (List (Option Cell)) :=
  rowsOf (b.columns.map Column.values) b.numRows

theorem map_getElem?_zipWith_append {n : ℕ} (row : ℕ) (hl : cols.length = next.length)
    (hc : ∀ col ∈ cols, col.length = n) :
    (cols.zipWith (· ++ ·) next).map (fun column => (column[row]?).join) =
      if row < n then cols.map fun column => (column[row]?).join
      else next.map fun column => (column[row - n]?).join := by
  induction cols generalizing next with
  | nil =>
    obtain rfl : next = [] := length_eq_zero_iff.mp hl.symm
    simp
  | cons col cols ih =>
    cases next with
    | nil => simp at hl
    | cons o next =>
      have hr := ih (by simpa using hl) fun col hco => hc col (mem_cons_of_mem _ hco)
      rw [zipWith_cons_cons, map_cons, hr, getElem?_append, hc col (by simp)]
      split <;> rfl

theorem rowsOf_zipWith_append {n m : ℕ} (hl : cols.length = next.length)
    (hc : ∀ col ∈ cols, col.length = n) :
    rowsOf (cols.zipWith (· ++ ·) next) (n + m) = rowsOf cols n ++ rowsOf next m := by
  rw [rowsOf, range_add, map_append, map_map]
  congr 1
  · refine map_congr_left fun row hr => ?_
    rw [map_getElem?_zipWith_append row hl hc, if_pos (mem_range.mp hr)]
  · refine map_congr_left fun row _ => ?_
    simp [map_getElem?_zipWith_append _ hl hc]

theorem length_of_mem_zipWith_append {n m : ℕ} (hco : ∀ col ∈ cols, col.length = n)
    (hn : ∀ col ∈ next, col.length = m) :
    ∀ col ∈ cols.zipWith (· ++ ·) next, col.length = n + m := by
  induction cols generalizing next with
  | nil => simp
  | cons col cols ih =>
    cases next with
    | nil => simp
    | cons o next =>
      intro joined hj
      rcases mem_cons.mp hj with rfl | hj
      · rw [length_append, hco col (by simp), hn o (by simp)]
      · exact ih (fun col hc => hco col (mem_cons_of_mem _ hc))
          (fun col hc => hn col (mem_cons_of_mem _ hc)) joined hj

/-! ### Normalizing a shard -/

/-- A column that can take the place of a field of the target schema. -/
def Fits (target : Field) (source : Column) : Prop :=
  source.name = target.name ∧
    (source.array.dataType = target.dataType ∨ source.array.allNull = true)

theorem values_of_allNull {a : ArrowArray} (h : a.allNull = true) :
    a.values = replicate a.values.length none := by
  rw [eq_replicate_iff]
  refine ⟨rfl, fun cell hc => ?_⟩
  exact Option.isNone_iff_eq_none.mp (all_eq_true.mp h cell hc)

theorem normalizeColumn_of_fits {target : Field} {src : Column} (h : Fits target src)
    (i : ℕ) (hr : src.values.length = numRows) :
    ∃ col, normalizeColumn i numRows target src = .ok col ∧
      col.field = target ∧ col.values = src.values := by
  obtain ⟨hna, hf⟩ := h
  rw [normalizeColumn, if_neg (not_not_intro hna)]
  by_cases ht : src.array.dataType = target.dataType
  · rw [if_pos ht]
    exact ⟨_, rfl, by rw [field, ht], rfl⟩
  · have hn := hf.resolve_left ht
    rw [if_neg ht, if_pos hn]
    refine ⟨_, rfl, rfl, ?_⟩
    have hv : src.values = replicate src.values.length none :=
      values_of_allNull hn
    rw [hv, hr]
    rfl

theorem normalizeColumns_of_fits {targets : List Field} {sources : List Column}
    (h : Forall₂ Fits targets sources) (i : ℕ)
    (hr : ∀ src ∈ sources, src.values.length = numRows) :
    ∃ columns, normalizeColumns numRows i targets sources = .ok columns ∧
      columns.map field = targets ∧
      columns.map values = sources.map values := by
  induction h generalizing i with
  | nil => exact ⟨[], rfl, rfl, rfl⟩
  | cons hf _ ih =>
    obtain ⟨col, hco, hfe, hv⟩ :=
      normalizeColumn_of_fits hf i (hr _ (by simp))
    obtain ⟨columns, hc, hfi, hre⟩ :=
      ih (i + 1) fun src hs => hr src (mem_cons_of_mem _ hs)
    refine ⟨col :: columns, ?_, by rw [map_cons, hfe, hfi], ?_⟩
    · rw [normalizeColumns, hco]
      simp only [hc]
    · rw [map_cons, map_cons, hv, hre]

theorem normalizeBatch_of_fits (h : Forall₂ Fits fields batch.columns) :
    ∃ columns, normalizeBatchToSchema batch fields = .ok columns ∧ columns.map field = fields ∧
      columns.map values = batch.columns.map values := by
  rw [normalizeBatchToSchema]
  by_cases hs : batch.fields = fields
  · rw [if_pos hs]
    exact ⟨_, rfl, hs, rfl⟩
  · obtain ⟨columns, hc, hf, hv⟩ := normalizeColumns_of_fits h 0 batch.rectangular
    rw [if_neg hs, if_neg (not_not_intro h.length_eq.symm), hc]
    exact ⟨columns, rfl, hf, hv⟩

theorem normalizeBatches_of_fits {batches : List RecordBatch}
    (h : ∀ batch ∈ batches, Forall₂ Fits fields batch.columns) :
    ∃ normalized, normalizeBatches fields batches = .ok normalized ∧
      Forall₂ (fun (batch : RecordBatch) columns => columns.map field = fields ∧
        columns.map values = batch.columns.map values) batches normalized := by
  induction batches with
  | nil => exact ⟨[], rfl, .nil⟩
  | cons batch rest ih =>
    obtain ⟨columns, hc, hs⟩ := normalizeBatch_of_fits (h batch (by simp))
    obtain ⟨normalized, hn, hr⟩ := ih fun b hb => h b (mem_cons_of_mem _ hb)
    refine ⟨columns :: normalized, ?_, .cons hs hr⟩
    rw [normalizeBatches, hc]
    simp only [hn]

/-! ### What a normalized shard must have been -/

theorem fits_of_fields {b b' : RecordBatch} (h : b'.fields = b.fields) :
    Forall₂ Fits b.fields b'.columns := by
  rw [← h, RecordBatch.fields, forall₂_map_left_iff]
  apply forall₂_same.mpr
  intro col _
  exact ⟨rfl, .inl rfl⟩

theorem fits_of_normalizeColumn {target : Field} {src col : Column} {i : ℕ}
    (h : normalizeColumn i numRows target src = .ok col) : Fits target src := by
  unfold normalizeColumn at h
  split at h
  · cases h
  · rename_i hn
    refine ⟨not_not.mp hn, ?_⟩
    split at h
    · exact .inl ‹_›
    · split at h
      · exact .inr ‹_›
      · cases h

theorem fits_of_normalizeColumns {targets : List Field} {sources : List Column} {i : ℕ}
    (h : normalizeColumns numRows i targets sources = .ok columns)
    (hl : sources.length = targets.length) : Forall₂ Fits targets sources := by
  induction targets generalizing sources i columns with
  | nil =>
    obtain rfl := length_eq_zero_iff.mp hl
    exact .nil
  | cons target targets ih =>
    cases sources with
    | nil => cases hl
    | cons src sources =>
      rw [normalizeColumns] at h
      split at h
      · cases h
      · split at h
        · cases h
        · exact .cons (fits_of_normalizeColumn ‹_›) (ih ‹_› (Nat.succ.inj hl))

theorem fits_of_normalizeBatches {first : RecordBatch} {batches : List RecordBatch}
    {normalized : List (List Column)}
    (h : normalizeBatches first.fields batches = .ok normalized) :
    ∀ batch ∈ batches, Forall₂ Fits first.fields batch.columns := by
  induction batches generalizing normalized with
  | nil => simp
  | cons batch rest ih =>
    rw [normalizeBatches] at h
    split at h
    · cases h
    · rename_i columns hc
      split at h
      · cases h
      · refine forall_mem_cons.mpr ⟨?_, ih ‹_›⟩
        unfold normalizeBatchToSchema at hc
        split at hc
        · exact fits_of_fields ‹_›
        · split at hc
          · cases hc
          · split at hc
            · cases hc
            · exact fits_of_normalizeColumns ‹_› (not_not.mp ‹_›)

theorem fits_of_concat {first result : RecordBatch} {rest : List RecordBatch}
    (h : concatShardedBatches (first :: rest) = .ok result) :
    ∀ batch ∈ rest, Forall₂ Fits first.fields batch.columns := by
  cases rest with
  | nil => simp
  | cons second rest =>
    rw [concatShardedBatches] at h
    · split at h
      · cases h
      · split at h
        · cases h
        · exact fits_of_normalizeBatches ‹_›
    · simp

/-! ### Joining the columns -/

theorem appendColumns_of_fields {next : List Column}
    (h : next.map field = columns.map field) :
    ∃ joined, appendColumns columns next = .ok joined ∧ joined.map field = columns.map field ∧
      joined.map values = (columns.map values).zipWith (· ++ ·)
          (next.map values) := by
  induction columns generalizing next with
  | nil =>
    obtain rfl : next = [] := map_eq_nil_iff.mp h
    exact ⟨[], rfl, rfl, rfl⟩
  | cons col columns ih =>
    cases next with
    | nil => simp at h
    | cons o next =>
      obtain ⟨hfi, hr⟩ := cons.inj h
      have ht : o.array.dataType = col.array.dataType := congrArg Field.dataType hfi
      obtain ⟨joined, hj, hf, hv⟩ := ih hr
      rw [appendColumns, dif_pos ht, hj]
      exact ⟨_, rfl, by rw [map_cons, map_cons, hf]; rfl, by rw [map_cons, hv]; rfl⟩

theorem joinColumns_of_fields {batches : List RecordBatch} {normalized : List (List Column)}
    (h : Forall₂ (fun (batch : RecordBatch) columns => columns.map field = fields ∧
      columns.map values = batch.columns.map values) batches normalized)
    (hf : columns.map field = fields)
    (hro : ∀ col ∈ columns, col.values.length = numRows) :
    ∃ joined, joinColumns columns normalized = .ok joined ∧ joined.map field = fields ∧
      (∀ col ∈ joined, col.values.length = numRows + (batches.map RecordBatch.numRows).sum) ∧
      rowsOf (joined.map values) (numRows + (batches.map RecordBatch.numRows).sum) =
        rowsOf (columns.map values) numRows ++ batches.flatMap batchRows := by
  induction h generalizing columns numRows with
  | nil => exact ⟨columns, rfl, hf, by simpa using hro, by simp⟩
  | @cons batch next batches normalized hnt _ ih =>
    obtain ⟨hn, hne⟩ := hnt
    obtain ⟨joined, hjoined, hji, hj⟩ :=
      appendColumns_of_fields (hn.trans hf.symm)
    have hl : (columns.map values).length = (next.map values).length := by
      have hcu := congrArg length (hf.trans hn.symm)
      simpa using hcu
    have hc : ∀ vs ∈ columns.map values, vs.length = numRows := by
      intro vs hv
      obtain ⟨col, hco, rfl⟩ := mem_map.mp hv
      exact hro col hco
    have hnx : ∀ vs ∈ next.map values, vs.length = batch.numRows := by
      rw [hne]
      intro vs hv
      obtain ⟨col, hco, rfl⟩ := mem_map.mp hv
      exact batch.rectangular col hco
    have hjo : ∀ col ∈ joined, col.values.length = numRows + batch.numRows := by
      intro col hco
      apply length_of_mem_zipWith_append hc hnx
      rw [← hj]
      exact mem_map_of_mem hco
    obtain ⟨res, hres, hre, hr, hrs⟩ :=
      ih (hji.trans hf) hjo
    refine ⟨res, ?_, hre, ?_, ?_⟩
    · rw [joinColumns, hjoined]
      exact hres
    · intro col hco
      rw [hr col hco, map_cons, sum_cons, Nat.add_assoc]
    · rw [map_cons, sum_cons, ← Nat.add_assoc, hrs, hj,
        rowsOf_zipWith_append hl hc, hne, flatMap_cons, batchRows,
        append_assoc]

/-- What joining shards must give: the schema of the first, the rows of all in order and the
union of the diagnostics. -/
structure IsConcat (batches : List RecordBatch) (result : RecordBatch) : Prop where
  fields : ∀ first ∈ batches.head?, result.fields = first.fields
  rows : batchRows result = batches.flatMap batchRows
  diagnostics : result.metadata.IsUnion (batches.map RecordBatch.metadata)

theorem concatBatches_of_fits {first : RecordBatch} {rest : List RecordBatch}
    (hf : ∀ batch ∈ rest, Forall₂ Fits first.fields batch.columns)
    (hre : ∀ batch ∈ first :: rest, batch.metadata.Readable) :
    ∃ result, concatShardedBatches (first :: rest) = .ok result ∧
      IsConcat (first :: rest) result := by
  cases rest with
  | nil =>
    refine ⟨first, rfl, by simp, by simp, ?_⟩
    simpa using Metadata.isUnion_singleton first.metadata
  | cons second rest =>
    obtain ⟨merged, hme, hc⟩ := ResponseMetadata.exists_unionOf
      ResponseMetadata.collected_nil ((first :: second :: rest).map metadata)
      (by
        intro m hm
        obtain ⟨batch, hba, rfl⟩ := mem_map.mp hm
        exact hre batch hba)
    obtain ⟨normalized, hn, hsp⟩ := normalizeBatches_of_fits hf
    obtain ⟨joined, hj, hfi, hl, hr⟩ :=
      joinColumns_of_fields hsp rfl first.rectangular
    have hs : ((first :: second :: rest).map numRows).sum =
        first.numRows + ((second :: rest).map numRows).sum := by
      rw [map_cons, sum_cons]
    have hco : concatBatches first.columns normalized
        ((first :: second :: rest).map numRows).sum first.metadata =
          .ok ⟨joined, _, first.metadata, hs ▸ hl⟩ := by
      rw [concatBatches, hj]
      exact dif_pos (hs ▸ hl)
    refine ⟨ResponseMetadata.attachTo merged ⟨joined, _, first.metadata, hs ▸ hl⟩, ?_, ?_⟩
    · simp only [concatShardedBatches, hme, hn, hco]
    · refine ⟨?_, ?_, ?_⟩
      · intro b hb
        obtain rfl : first = b := by simpa using hb
        exact hfi
      · rw [← hs] at hr
        exact hr
      · exact hc.isUnion_attach (by simp)

/-! ### Batches of wide columns -/

inductive WideOp where
  | appendRow (row : WideRow)
  | finish

def wideStep (c : Conversions) (includeDate : Bool) (w : WideColumns) : WideOp → WideColumns
  | .appendRow row => w.appendRow c row
  | .finish => (w.finish includeDate).2

/-- The batches of shards for the requested fields: what wide columns finish after any rows and
chunks, with the diagnostics of the response and the identifiers of the request. -/
def IsWideBatch (c : Conversions) (fieldNames : List String) (fieldTypes : Map String ArrowType)
    (includeDate : Bool) (batch : RecordBatch) : Prop :=
  ∃ (ops : List WideOp) (responseMeta : ResponseMetadata) (ids : List String) (chunk : RecordBatch),
    ((ops.foldl (wideStep c includeDate) (.new fieldNames fieldTypes includeDate)).finish
      includeDate).1 = .ok chunk ∧
    poolReply ids (.ok (ResponseMetadata.attachTo responseMeta chunk)) = .ok batch

def wideHeader (fieldNames : List String) (includeDate : Bool) : List String :=
  "ticker" :: (if includeDate then ["date"] else []) ++ fieldNames

/-- The columns, and the schema that is kept of the last chunk, have the requested names. -/
structure Named (fieldNames : List String) (includeDate : Bool) (w : WideColumns) : Prop where
  fields : w.fields.map WideFieldColumn.name = fieldNames
  schema : ∀ fields, w.schema = some fields →
    fields.map Field.name = wideHeader fieldNames includeDate

theorem named_new (fieldNames : List String) (fieldTypes : Map String ArrowType)
    (includeDate : Bool) : Named fieldNames includeDate (.new fieldNames fieldTypes includeDate) :=
  ⟨by simp [WideColumns.new, Function.comp_def], fun _ hs => (nomatch hs)⟩

theorem name_append (c : Conversions) (rowCount : ℕ) (col : WideFieldColumn)
    (v : Option Value) : (col.append c rowCount v).1.name = col.name := by
  unfold WideFieldColumn.append
  repeat' split
  all_goals rfl

theorem map_name_appended (c : Conversions) (rowCount : ℕ) (columns : List WideFieldColumn)
    (vs : List (Option Value)) :
    ((WideColumns.appended c rowCount columns vs).map Prod.fst).map WideFieldColumn.name =
      columns.map WideFieldColumn.name := by
  induction columns generalizing vs with
  | nil => rfl
  | cons col columns ih =>
    cases vs with
    | nil | cons v vs =>
      rw [WideColumns.appended, map_cons, map_cons, map_cons, name_append, ih]

theorem Named.schemaFields (h : Named fieldNames includeDate w) :
    (w.schema.getD (w.schemaFields includeDate)).map Field.name =
      wideHeader fieldNames includeDate := by
  cases hs : w.schema with
  | some fields => exact h.schema fields hs
  | none =>
    have hn := h.fields
    cases includeDate <;>
      simpa [WideColumns.schemaFields, wideHeader, Function.comp_def] using hn

theorem Named.step (h : Named fieldNames includeDate w) (c : Conversions) (op : WideOp) :
    Named fieldNames includeDate (wideStep c includeDate w op) := by
  cases op with
  | appendRow row =>
    refine ⟨(map_name_appended _ _ _ _).trans h.fields, fun fields hs => ?_⟩
    simp only [wideStep, WideColumns.appendRow] at hs
    split at hs
    · simp at hs
    · exact h.schema fields hs
  | finish =>
    have hk := h.schemaFields
    simp only [wideStep, WideColumns.finish]
    split
    · refine ⟨h.fields, fun fields hs => ?_⟩
      cases hs
      exact hk
    · refine ⟨?_, fun fields hs => ?_⟩
      · simpa [WideFieldColumn.drained, Function.comp_def] using h.fields
      · cases hs
        exact hk

theorem Named.run (h : Named fieldNames includeDate w) (c : Conversions) (ops : List WideOp) :
    Named fieldNames includeDate (ops.foldl (wideStep c includeDate) w) := by
  induction ops generalizing w with
  | nil => exact h
  | cons op ops ih => exact ih (h.step c op)

theorem readable_attach (r : ResponseMetadata) {m : Metadata} (h : m.Readable) :
    (r.attach m).Readable := by
  obtain ⟨-, -, he, -⟩ := ResponseMetadata.attach_parts r m
  intro raw hr
  rw [he] at hr
  split at hr
  · exact h raw hr
  · cases hr
    obtain ⟨exceptions, hre, -⟩ := r.fieldExceptions.fromJson_toJson
    exact ⟨exceptions, hre⟩

theorem of_built {what : String} {r : ResponseMetadata} {arrs : List ArrowArray}
    (h : built what r (tryNew fields {} arrs) = .ok batch) :
    batch.columns.map name = fields.map Field.name ∧ batch.metadata.Readable := by
  obtain ⟨-, hf, hm⟩ := spec_of_built h
  refine ⟨?_, hm ▸ readable_attach r fun raw hr => (nomatch hr)⟩
  rw [← hf, RecordBatch.fields, map_map]
  rfl

theorem Named.finish (h : Named fieldNames includeDate w)
    (hf : (w.finish includeDate).1 = .ok batch) :
    batch.columns.map name = wideHeader fieldNames includeDate ∧ batch.metadata.Readable := by
  rw [← h.schemaFields]
  simp only [WideColumns.finish] at hf
  split at hf
  · simp at hf
  · exact of_built hf

theorem of_poolReply {ids : List String} {c : RecordBatch} (h : poolReply ids (.ok c) = .ok batch) :
    batch.columns = c.columns ∧ (c.metadata.Readable → batch.metadata.Readable) := by
  match ids with
  | [] | [id] =>
    cases h
    exact ⟨rfl, fun hr => hr⟩
  | _ :: _ :: _ =>
    cases h
    exact ⟨rfl, readable_attach _⟩

theorem IsWideBatch.spec {c : Conversions} {fieldTypes : Map String ArrowType}
    (h : IsWideBatch c fieldNames fieldTypes includeDate batch) :
    batch.columns.map name = wideHeader fieldNames includeDate ∧ batch.metadata.Readable := by
  obtain ⟨ops, responseMeta, ids, chunk, hc, hb⟩ := h
  obtain ⟨hn, hr⟩ := ((named_new fieldNames fieldTypes includeDate).run c ops).finish hc
  obtain ⟨hco, hk⟩ := of_poolReply hb
  exact ⟨by rw [hco]; exact hn, hk (readable_attach responseMeta hr)⟩

/-! ### Shards of wide columns -/

def typeAt (b : RecordBatch) (index : ℕ) : Option ArrowType :=
  (b.columns[index]?).map fun column => column.array.dataType

/-- The batch has a non-null value in the column. -/
def Valued (b : RecordBatch) (index : ℕ) : Prop :=
  ∃ column, b.columns[index]? = some column ∧ column.array.allNull = false

theorem forall₂_fits_iff (hn : columns.map name = fields.map Field.name) :
    Forall₂ Fits fields columns ↔
      ∀ (i : ℕ) (col : Column), columns[i]? = some col → col.array.allNull = false →
        (fields[i]?).map Field.dataType = some col.array.dataType := by
  induction fields generalizing columns with
  | nil =>
    obtain rfl : columns = [] := map_eq_nil_iff.mp hn
    simp
  | cons field fields ih =>
    cases columns with
    | nil => simp at hn
    | cons col columns =>
      obtain ⟨hna, hn⟩ := cons.inj hn
      rw [forall₂_cons, ih hn]
      constructor
      · rintro ⟨hf, hr⟩ i other ho hv
        cases i with
        | zero =>
          cases ho
          have ht := hf.2.resolve_right (by simp [hv])
          exact congrArg some ht.symm
        | succ i => exact hr i other ho hv
      · intro h
        refine ⟨⟨hna, ?_⟩, fun i other ho hv => h (i + 1) other ho hv⟩
        cases hv : col.array.allNull with
        | true => exact .inr rfl
        | false => exact .inl (Option.some.inj (h 0 col rfl hv)).symm

/-- Shards of the same requested fields are joined, so that their rows follow one another unchanged,
each column has the agreed type and the diagnostics are united, exactly if valued columns have the
type of the first shard. -/
theorem concat_wide_shards_iff (c : Conversions) (fieldNames : List String)
    (fieldTypes : Map String ArrowType) (includeDate : Bool) {batches : List RecordBatch}
    (hne : batches ≠ [])
    (hwide : ∀ b ∈ batches, IsWideBatch c fieldNames fieldTypes includeDate b) :
    (∃ result, concatShardedBatches batches = .ok result ∧
      result.columns.map Column.name = wideHeader fieldNames includeDate ∧
      batchRows result = batches.flatMap batchRows ∧
      (∀ index, ∀ b ∈ batches, Valued b index → typeAt result index = typeAt b index) ∧
      result.metadata.IsUnion (batches.map RecordBatch.metadata)) ↔
      ∀ index, ∀ b ∈ batches, Valued b index →
        ∀ first ∈ batches.head?, typeAt first index = typeAt b index := by
  obtain ⟨first, rest, rfl⟩ := exists_cons_of_ne_nil hne
  have hheader : first.columns.map name = wideHeader fieldNames includeDate :=
    (hwide first (by simp)).spec.1
  have hfits : ∀ b ∈ rest, Forall₂ Fits first.fields b.columns ↔
      ∀ index, Valued b index → typeAt first index = typeAt b index := by
    intro b hb
    have hnames := (hwide b (mem_cons_of_mem _ hb)).spec.1
    rw [forall₂_fits_iff (by rw [hnames, ← hheader, fields, map_map]; rfl)]
    have htype : ∀ index, typeAt first index = (first.fields[index]?).map Field.dataType := by
      intro index
      rw [typeAt, fields, getElem?_map, Option.map_map]
      rfl
    constructor
    · rintro h index ⟨column, hcolumn, hvalued⟩
      rw [htype, typeAt, hcolumn, h index column hcolumn hvalued]
      rfl
    · intro h index column hcolumn hvalued
      rw [← htype, h index ⟨column, hcolumn, hvalued⟩, typeAt, hcolumn]
      rfl
  constructor
  · rintro ⟨result, hresult, -⟩ index b hb hvalued same hsame
    obtain rfl := Option.some.inj hsame
    rcases mem_cons.mp hb with rfl | hb
    · rfl
    · exact (hfits b hb).mp (fits_of_concat hresult b hb) index hvalued
  · intro hfirst
    obtain ⟨result, hresult, hconcat⟩ := concatBatches_of_fits
      (fun b hb => (hfits b hb).mpr fun index hvalued =>
        hfirst index b (mem_cons_of_mem _ hb) hvalued first rfl) fun b hb => (hwide b hb).spec.2
    have hfields := hconcat.fields first rfl
    refine ⟨result, hresult, ?_, hconcat.rows, ?_, hconcat.diagnostics⟩
    · have hnames := congrArg (map Field.name) hfields
      rw [fields, fields, map_map, map_map] at hnames
      exact hnames.trans hheader
    · intro index b hb hvalued
      have htypes := congrArg (fun fields => (fields[index]?).map Field.dataType) hfields
      simp only [fields, getElem?_map, Option.map_map] at htypes
      exact htypes.trans (hfirst index b hb hvalued first rfl)

/-! ### A first shard without values -/

/-- All shards with a value in a column agree on its type. -/
def Agree (batches : List RecordBatch) : Prop :=
  ∀ index, ∀ b ∈ batches, ∀ b' ∈ batches, Valued b index → Valued b' index →
    typeAt b index = typeAt b' index

def sampleConversions : Conversions := default

/-- A batch of one row for one ticker and one field without a type hint. -/
def sampleBatch (ticker : String) (price : ArrowArray) (h : price.values.length = 1) :
    RecordBatch where
  columns := [⟨"ticker", .ofStrings [ticker]⟩, ⟨"PX_LAST", price⟩]
  numRows := 1
  metadata := {}
  rectangular := by simp [Column.values, ArrowArray.ofStrings, ArrowArray.ofList, h]

def sampleNull : RecordBatch := sampleBatch "A" (.nulls .string 1) rfl

def samplePriced : RecordBatch :=
  sampleBatch "B" ((TypedBuilder.new .float64).appendValue sampleConversions
    (some (.float64 ⟨0#64⟩))).1 rfl

theorem isWideBatch_sampleNull : IsWideBatch sampleConversions ["PX_LAST"] ∅ false sampleNull :=
  ⟨[.appendRow ⟨"A", none, [none]⟩], {}, [], sampleNull, rfl, rfl⟩

theorem isWideBatch_samplePriced :
    IsWideBatch sampleConversions ["PX_LAST"] ∅ false samplePriced :=
  ⟨[.appendRow ⟨"B", none, [some (.float64 ⟨0#64⟩)]⟩], {}, [], samplePriced, rfl, rfl⟩

theorem valued_sampleNull {i : ℕ} (h : Valued sampleNull i) : i = 0 := by
  obtain ⟨col, hc, hv⟩ := h
  match i with
  | 0 => rfl
  | 1 =>
    cases hc
    simp [ArrowArray.allNull, ArrowArray.nulls] at hv
  | index + 2 => simp [sampleNull, sampleBatch] at hc

/-- The column of a first shard without values has the default type, so that a later shard with
numbers in it fails the request. -/
theorem concat_rejects_null_first_shard :
    IsWideBatch sampleConversions ["PX_LAST"] ∅ false sampleNull ∧
      IsWideBatch sampleConversions ["PX_LAST"] ∅ false samplePriced ∧
      Agree [sampleNull, samplePriced] ∧
      concatShardedBatches [sampleNull, samplePriced] = .error (.internal
        "sharded request column type mismatch for PX_LAST: expected Utf8, got Float64") := by
  refine ⟨isWideBatch_sampleNull, isWideBatch_samplePriced, ?_, rfl⟩
  intro index b hb b' hb' hvalued hvalued'
  simp only [mem_cons, not_mem_nil, or_false] at hb hb'
  rcases hb with rfl | rfl <;> rcases hb' with rfl | rfl
  · rfl
  · rw [valued_sampleNull hvalued]
    rfl
  · rw [valued_sampleNull hvalued']
    rfl
  · rfl

theorem concat_wide_shards_null_second :
    ∃ result, concatShardedBatches [samplePriced, sampleNull] = .ok result ∧
      result.columns.map Column.name = wideHeader ["PX_LAST"] false ∧
      batchRows result = [samplePriced, sampleNull].flatMap batchRows ∧
      (∀ index, ∀ b ∈ [samplePriced, sampleNull], Valued b index →
        typeAt result index = typeAt b index) ∧
      result.metadata.IsUnion ([samplePriced, sampleNull].map RecordBatch.metadata) := by
  refine (concat_wide_shards_iff sampleConversions ["PX_LAST"] ∅ false (by simp) ?_).mpr ?_
  · intro b hb
    simp only [mem_cons, not_mem_nil, or_false] at hb
    rcases hb with rfl | rfl
    · exact isWideBatch_samplePriced
    · exact isWideBatch_sampleNull
  · intro index b hb hvalued first hfirst
    obtain rfl : samplePriced = first := Option.some.inj hfirst
    simp only [mem_cons, not_mem_nil, or_false] at hb
    rcases hb with rfl | rfl
    · rfl
    · rw [valued_sampleNull hvalued]
      rfl

end Xbbg.Sharding
