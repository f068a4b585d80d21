import Xbbg.Verification.Mcp.Values
import Xbbg.Library.Results

/-! # The byte budget of a result

Every component is charged for its bytes, so that all of them take at most the budget without the
reserve, and the rest of the result takes at most the reserve. -/

namespace Xbbg.Mcp

open List Library Json

variable {budget : ℕ} {limits : ResultLimits} {r : MetadataReadings} {batch : Batch}

/-! ## Charges -/

theorem remaining_of_tryTake {b b' : ComponentBudget} {bytes : ℕ}
    (h : b.tryTake bytes = (true, b')) :
    bytes ≤ b.remaining ∧ b'.remaining = b.remaining - bytes := by
  unfold ComponentBudget.tryTake at h
  split at h
  · cases h
  · rename_i hf
    cases h
    exact ⟨Nat.not_lt.mp hf, rfl⟩

theorem remaining_of_refused {b b' : ComponentBudget} {bytes : ℕ}
    (h : b.tryTake bytes = (false, b')) : b'.remaining = b.remaining := by
  unfold ComponentBudget.tryTake at h
  split at h
  · cases h
    rfl
  · cases h

theorem keyedCost_eq (key : String) (v : Json) :
    keyedCost key v = saturate (entrySize (key, v) + 1) := by
  simp only [keyedCost, satAdd, serializedLen, saturate_saturate_add, saturate_add_saturate,
    entrySize]

/-! ## Metadata -/

/-- The counters of the metadata are words, those of entries within their limit. -/
structure MetadataOutput.Counted (entryLimit : ℕ) (o : MetadataOutput) : Prop where
  totalEntries_le : o.totalEntries ≤ usizeMax
  inspectedEntries_le : o.inspectedEntries ≤ entryLimit
  inspectedInputBytes_le : o.inspectedInputBytes ≤ usizeMax
  knownOmittedProperties_le : o.knownOmittedProperties ≤ usizeMax

def MetadataOutput.cost (o : MetadataOutput) : ℕ :=
  Json.entriesCost o.metadata + Json.entriesCost o.counts

/-- What was kept of the metadata is paid for. -/
structure MetadataState.Accounted (budget entryLimit : ℕ) (s : MetadataState) : Prop where
  paid : s.output.cost + s.budget.remaining ≤ budget
  counted : s.output.Counted entryLimit

variable {left : ComponentBudget}

namespace MetadataState

variable {r : MetadataReadings} {limits : ResultLimits} {budget entryLimit : ℕ}
  {s : MetadataState}

theorem Accounted.keep (h : s.Accounted budget entryLimit) (hb : budget < usizeMax)
    {key : String} {inputBytes : ℕ} {e : MetadataEntry}
    (ht : s.budget.tryTake (entryCost key e) = (true, left)) :
    (s.keep key inputBytes e left).Accounted budget entryLimit := by
  obtain ⟨hc, hl⟩ := remaining_of_tryTake ht
  have hp := h.paid
  have hv := entriesCost_insertEntry_le s.output.metadata key e.value
  refine ⟨?_, { h.counted with knownOmittedProperties_le := saturate_le _ }⟩
  unfold MetadataOutput.cost at hp ⊢
  cases hco : e.counts with
  | none =>
    have he : entryCost key e = saturate (entrySize (key, e.value) + 1) := by
      rw [entryCost, hco, keyedCost_eq, Option.elim_none, satAdd, Nat.add_zero, saturate_saturate]
    rw [he] at hc hl
    have hs := le_of_saturate_le hc (by omega)
    simp only [MetadataState.keep, hco, Option.elim_none]
    rw [hl, saturate_of_le (by omega)]
    omega
  | some counts =>
    have ha := entriesCost_insertEntry_le s.output.counts key counts
    have he : entryCost key e = saturate (entrySize (key, e.value) + 1 +
        (entrySize (key, counts) + 1)) := by
      rw [entryCost, hco, Option.elim_some, keyedCost_eq, keyedCost_eq, satAdd,
        saturate_saturate_add, saturate_add_saturate]
    rw [he] at hc hl
    have hs := le_of_saturate_le hc (by omega)
    simp only [MetadataState.keep, hco, Option.elim_some]
    rw [hl, saturate_of_le (by omega)]
    omega

theorem Accounted.incomplete (h : s.Accounted budget entryLimit) :
    s.incomplete.Accounted budget entryLimit :=
  ⟨h.paid, { h.counted with }⟩

theorem Accounted.inspect (h : s.Accounted budget entryLimit)
    (hl : s.output.inspectedEntries ≠ entryLimit) (inputBytes : ℕ) :
    (s.inspect inputBytes).Accounted budget entryLimit :=
  ⟨h.paid, { h.counted with
      inspectedEntries_le := Nat.lt_of_le_of_ne h.counted.inspectedEntries_le hl
      inspectedInputBytes_le := saturate_le _ }⟩

theorem Accounted.visit (h : s.Accounted budget entryLimit) (hb : budget < usizeMax)
    (key raw : String) : (s.visit r limits entryLimit key raw).Accounted budget entryLimit := by
  unfold MetadataState.visit
  dsimp only
  split
  · exact ⟨h.paid, { h.counted with }⟩
  · rename_i hi
    rw [not_or] at hi
    have hn := h.inspect hi.1 (satAdd (len key) (len raw))
    split
    · exact hn.incomplete
    · split
      · exact ⟨hn.paid, { hn.counted with }⟩
      · split
        · exact hn.incomplete
        · split
          · rename_i left ht
            have hs := remaining_of_refused ht
            exact ⟨hs ▸ hn.paid, { hn.counted with }⟩
          · rename_i left ht
            exact hn.keep hb ht

end MetadataState

theorem accounted_buildMetadata (r : MetadataReadings) {metadata : Map String String}
    (hm : metadata.keys.length ≤ usizeMax) (limits : ResultLimits)
    {budget : ComponentBudget} {output : MetadataOutput}
    (h : buildMetadata r metadata limits budget = (output, left))
    (hb : budget.remaining < usizeMax) :
    output.cost + left.remaining ≤ budget.remaining ∧ output.Counted usizeMax := by
  unfold buildMetadata at h
  extract_lets entryLimit total inspectGeneric start final complete at h
  have hst : start.Accounted budget.remaining entryLimit := by
    refine ⟨?_, hm, Nat.zero_le _, Nat.zero_le _, Nat.zero_le _⟩
    exact (Nat.zero_add _).le
  have hf : final.Accounted budget.remaining entryLimit :=
    foldl_holds (fun _ (s : MetadataState) => s.Accounted budget.remaining entryLimit)
      (fun _ s key hs => hs.visit hb key _) _ (l := []) hst
  cases h
  refine ⟨hf.paid, { hf.counted with inspectedEntries_le := ?_ }⟩
  exact hf.counted.inspectedEntries_le.trans
    ((min_le_left _ _).trans limits.maxMetadataProperties_le)

/-! ## The schema -/

/-- The descriptors are paid for, the names have the bytes that are noted for them, and no column
is counted twice. -/
structure SchemaState.Accounted (budget columns : ℕ) (s : SchemaState) : Prop where
  paid : Json.itemsCost s.schemaJson + s.budget.remaining ≤ budget
  named : ∀ selected ∈ s.selectedColumns, selected.2 = serializedLen (.string selected.1.name)
  counted : s.selectedColumns.length + s.knownDuplicateColumns +
    s.knownInvalidIdentityColumns ≤ columns

theorem SchemaState.Accounted.select {cols cost : ℕ} {s : SchemaState}
    (h : s.Accounted budget cols) (hb : budget < usizeMax) {f : Column}
    (hc : cost = satAdd (serializedLen (columnDescriptor f (boundedDisplay f.dataType
      limits).1)) 1) (ht : s.budget.tryTake cost = (true, left)) :
    (s.select f limits cost left).Accounted budget (cols + 1) := by
  obtain ⟨hf, hl⟩ := remaining_of_tryTake ht
  have hp := h.paid
  rw [satAdd, serializedLen, saturate_saturate_add] at hc
  refine ⟨?_, ?_, ?_⟩
  · rw [hc] at hf
    have hsi := le_of_saturate_le hf (by omega)
    simp only [SchemaState.select, itemsCost_append, itemsCost_cons, itemsCost_nil]
    rw [hl, hc, saturate_of_le (by omega)]
    omega
  · intro sel hs
    rcases mem_append.mp hs with ho | hn
    · exact h.named sel ho
    · rw [mem_singleton.mp hn]
  · have hco := h.counted
    simp only [SchemaState.select, length_append, length_singleton]
    omega

theorem SchemaState.accounted_start (bytesRemaining : ℕ) (budget : ComponentBudget) :
    ({ bytesRemaining := bytesRemaining, budget := budget } :
      SchemaState).Accounted budget.remaining 0 := by
  refine ⟨by simp, ?_, by simp⟩
  intro sel hs
  cases hs

theorem accounted_selectColumns (limits : ResultLimits) (hb : budget < usizeMax)
    (fields : List Column) {columns : ℕ} {s : SchemaState} (h : s.Accounted budget columns) :
    (selectColumns limits fields s).Accounted budget (columns + fields.length) := by
  induction fields generalizing columns s with
  | nil => exact h
  | cons field rest ih =>
    have hc := h.counted
    have hl : columns + (field :: rest).length = columns + 1 + rest.length := by
      rw [length_cons]
      omega
    rw [hl, selectColumns]
    split
    · exact ih ⟨h.paid, h.named, by dsimp only; omega⟩
    · split
      · exact ih ⟨h.paid, h.named, by dsimp only; omega⟩
      · dsimp only
        split
        · exact ⟨h.paid, h.named, by dsimp only; omega⟩
        · split
          · rename_i left ht
            have hsa := remaining_of_refused ht
            exact ⟨hsa ▸ h.paid, h.named, by dsimp only; omega⟩
          · rename_i left ht
            apply ih
            have hs : ({ s with selectedNames := field.name :: s.selectedNames } :
                SchemaState).Accounted budget columns := ⟨h.paid, h.named, h.counted⟩
            exact hs.select hb rfl ht

/-! ## Rows -/

variable {cols : List (SelectedColumn × Option Formatter)}

theorem serializedLen_of_buildRow {remaining row : ℕ}
    (hc : ∀ col ∈ cols, col.1.2 = serializedLen (.string col.1.1.name))
    {s filled : RowState} (hs : serializedLen (.object s.entries) ≤ s.bytes)
    (h : buildRow limits remaining row cols s = .ok (some filled)) :
    serializedLen (.object filled.entries) ≤ filled.bytes := by
  induction cols generalizing s with
  | nil =>
    obtain rfl := Option.some.inj (Except.ok.inj h)
    exact hs
  | cons col rest ih =>
    obtain ⟨⟨col, nameBytes⟩, formatter⟩ := col
    have hn : nameBytes = serializedLen (.string col.name) := hc _ mem_cons_self
    rw [buildRow] at h
    obtain ⟨⟨v, stats⟩, -, hr⟩ := bind_eq_ok.mp h
    dsimp only at hr
    split at hr
    · cases hr
    · apply ih (fun col hco => hc col (mem_cons_of_mem _ hco)) _ hr
      dsimp only
      have hi := size_object_insert_le s.entries col.name v
      calc serializedLen (.object (insertEntry col.name v s.entries))
          ≤ saturate ((object s.entries).size + (separator s.entries +
              entrySize (col.name, v))) := saturate_mono (by omega)
        _ ≤ saturate (s.bytes + (separator s.entries + entrySize (col.name, v))) := by
            rw [← saturate_saturate_add]
            exact saturate_mono (Nat.add_le_add_right hs _)
        _ = _ := by
            rw [hn]
            simp only [satAdd, serializedLen, saturate_saturate_add, saturate_add_saturate,
              entrySize]
            congr 1
            omega

structure RowsState.Accounted (budget rows : ℕ) (s : RowsState) : Prop where
  paid : Json.itemsCost s.rows + s.budget.remaining ≤ budget
  counted : s.rows.length ≤ rows

theorem RowsState.accounted_start (budget : ComponentBudget) :
    ({ budget := budget } : RowsState).Accounted budget.remaining 0 :=
  ⟨by simp, by simp⟩

theorem accounted_buildRows (hb : budget < usizeMax)
    (hc : ∀ col ∈ cols, col.1.2 = serializedLen (.string col.1.1.name))
    {indices : List ℕ} {rows : ℕ} {s final : RowsState} (hs : s.Accounted budget rows)
    (h : buildRows limits cols indices s = .ok final) :
    final.Accounted budget (rows + indices.length) := by
  induction indices generalizing rows s with
  | nil =>
    cases h
    exact hs
  | cons row rest ih =>
    have hle : rows + (row :: rest).length = rows + 1 + rest.length := by
      rw [length_cons]
      omega
    have hco := hs.counted
    have hp := hs.paid
    rw [hle]
    rw [buildRows] at h
    obtain ⟨res, hro, hr⟩ := bind_eq_ok.mp h
    cases res with
    | none =>
      cases hr
      exact ⟨hs.paid, by dsimp only; omega⟩
    | some filled =>
      have hsi := serializedLen_of_buildRow hc (by decide) hro
      dsimp only at hr
      split at hr
      · rename_i left ht
        have hsa := remaining_of_refused ht
        cases hr
        exact ⟨by simpa only [ComponentBudget.markTruncated, hsa] using hs.paid,
          by dsimp only; omega⟩
      · rename_i left ht
        obtain ⟨hf, hl⟩ := remaining_of_tryTake ht
        have hby := le_of_saturate_le hf (by omega)
        have ho := le_of_saturate_le hsi (by omega)
        rw [satAdd, saturate_of_le (by omega)] at hl
        apply ih _ hr
        refine ⟨?_, ?_⟩
        · simp only [itemsCost_append, itemsCost_cons, itemsCost_nil]
          omega
        · simp only [length_append, length_singleton]
          omega

/-! ## The envelope -/

theorem size_numberJson {n : ℕ} (h : n ≤ usizeMax) : (numberJson n).size ≤ 20 := by
  rw [numberJson, size_number_toString]
  exact length_toString_le h

/-- The members of the flags and of the counters, with the most bytes of their values. -/
def flagBounds : List (String × ℕ) :=
  [("rows", 5), ("columns", 5), ("cells", 5), ("values", 5), ("metadata", 5), ("output", 5)]

def countBounds : List (String × ℕ) :=
  [("omitted_rows", 20), ("omitted_columns", 20), ("omitted_cells", 20),
    ("known_duplicate_columns", 20), ("known_duplicate_cells", 20),
    ("known_invalid_identity_columns", 20), ("schema_column_count_complete", 5),
    ("truncated_values", 20), ("known_omitted_value_bytes", 20), ("omitted_complex_values", 20),
    ("omitted_metadata_entries", 20), ("inspected_metadata_entries", 20),
    ("inspected_metadata_input_bytes", 20), ("omitted_metadata_input_bytes", 20),
    ("metadata_input_count_complete", 5), ("known_omitted_metadata_properties", 20),
    ("omitted_priority_metadata", 100), ("metadata_property_count_complete", 5)]

section Envelope

variable {batch : Batch} {limits : ResultLimits} {metadata : MetadataOutput}
  {schema : SchemaState} {rows : RowsState}

theorem size_truncatedJson : (truncatedJson batch metadata schema rows).size ≤ 92 := by
  apply size_ofEntries_le_of_bounds flagBounds (by decide +kernel)
  simp only [flagBounds, forall₂_cons, Forall₂.nil, and_true, true_and]
  exact ⟨size_bool_le _, size_bool_le _, size_bool_le _, size_bool_le _,
    size_bool_le _, size_bool_le _⟩

theorem size_omittedPriorityMetadata :
    (array ((omittedPriorityMetadata batch metadata).map .string)).size ≤ 100 := by
  have ha : itemsCost (priorityMetadataKeys.map .string) = 98 := by decide +kernel
  have hs : itemsCost ((omittedPriorityMetadata batch metadata).map .string) ≤
      itemsCost (priorityMetadataKeys.map .string) :=
    itemsCost_le_of_sublist (filter_sublist.map _)
  have hsi := size_array_le ((omittedPriorityMetadata batch metadata).map .string)
  omega

/-- What bounds the counters: those of the metadata are words, and no more columns and rows are
returned or counted than there are. -/
structure Counted (batch : Batch) (metadata : MetadataOutput) (schema : SchemaState)
    (rows : RowsState) : Prop where
  metadata : metadata.Counted usizeMax
  columns : schema.selectedColumns.length + schema.knownDuplicateColumns +
    schema.knownInvalidIdentityColumns ≤ batch.columns.length
  rows : rows.rows.length ≤ batch.numRows

theorem size_truncationCountsJson (h : Counted batch metadata schema rows) :
    (truncationCountsJson batch limits metadata schema rows).size ≤ 901 := by
  have hr := batch.numRows_le
  have hc := batch.numColumns_le
  have hco := h.columns
  have hi : (if metadata.inputCountComplete then
      numberJson (metadata.inspectedInputBytes - metadata.returnedInputBytes)
        else .null).size ≤ 20 := by
    split
    · exact size_numberJson ((Nat.sub_le _ _).trans h.metadata.inspectedInputBytes_le)
    · decide
  apply size_ofEntries_le_of_bounds countBounds (by decide +kernel)
  simp only [countBounds, forall₂_cons, Forall₂.nil, and_true, true_and]
  refine ⟨?_, ?_, ?_, ?_, ?_, ?_, size_bool_le _, ?_, ?_, ?_, ?_, ?_, ?_, hi,
    size_bool_le _, ?_, size_omittedPriorityMetadata, size_bool_le _⟩
  · exact size_numberJson ((Nat.sub_le _ _).trans hr)
  · exact size_numberJson ((Nat.sub_le _ _).trans hc)
  · exact size_numberJson ((Nat.sub_le _ _).trans (saturate_le _))
  · exact size_numberJson (by omega)
  · exact size_numberJson (saturate_le _)
  · exact size_numberJson (by omega)
  · exact size_numberJson (saturate_le _)
  · exact size_numberJson (saturate_le _)
  · exact size_numberJson (saturate_le _)
  · exact size_numberJson ((Nat.sub_le _ _).trans h.metadata.totalEntries_le)
  · exact size_numberJson h.metadata.inspectedEntries_le
  · exact size_numberJson h.metadata.inspectedInputBytes_le
  · exact size_numberJson h.metadata.knownOmittedProperties_le

/-- The members of a result without its components, with the most bytes of their values. -/
def envelopeBounds : List (String × ℕ) :=
  [("row_count", 20), ("column_count", 20), ("returned_rows", 20), ("returned_columns", 20),
    ("returned_cells", 20), ("result_budget_bytes", 20), ("truncated", 92),
    ("truncation_counts", 901)]

variable (limits) in
theorem entriesCost_envelope (h : Counted batch metadata schema rows) :
    entriesCost [("row_count", numberJson batch.numRows),
      ("column_count", numberJson batch.columns.length),
      ("returned_rows", numberJson rows.rows.length),
      ("returned_columns", numberJson schema.selectedColumns.length),
      ("returned_cells", numberJson (returnedCells schema rows)),
      ("result_budget_bytes", numberJson limits.maxResultBytes),
      ("truncated", truncatedJson batch metadata schema rows),
      ("truncation_counts", truncationCountsJson batch limits metadata schema rows)] ≤ 1300 := by
  have hc := batch.numColumns_le
  have hco := h.columns
  refine (entriesCost_le_boundsCost envelopeBounds ?_).trans (by decide +kernel)
  simp only [envelopeBounds, forall₂_cons, Forall₂.nil, and_true, true_and]
  refine ⟨size_numberJson batch.numRows_le, size_numberJson hc,
    size_numberJson (h.rows.trans batch.numRows_le), size_numberJson (by omega),
    size_numberJson (saturate_le _), size_numberJson limits.maxResultBytes_le,
    size_truncatedJson, size_truncationCountsJson h⟩

theorem entriesCost_optional (key : String) (entries : List (String × Json)) :
    entriesCost (if entries.isEmpty then [] else [(key, .object entries)]) ≤
      (string key).size + 4 + entriesCost entries := by
  have hs := size_object_add_separator entries
  split
  · exact Nat.zero_le _
  · simp only [entriesCost_cons, entrySize, entriesCost_nil]
    omega

variable (limits) in
theorem size_result_le (h : Counted batch metadata schema rows) :
    (ofEntries (resultEntries batch limits metadata schema rows)).size ≤
      outputEnvelopeReserve + metadata.cost + itemsCost schema.schemaJson +
        itemsCost rows.rows := by
  have hs := size_ofEntries_le (resultEntries batch limits metadata schema rows)
  have hf := entriesCost_envelope limits h
  have hm := entriesCost_optional "metadata" metadata.metadata
  have hc := entriesCost_optional "metadata_counts" metadata.counts
  have hsc := size_array_le schema.schemaJson
  have hr := size_array_le rows.rows
  have hk : (string "schema").size = 8 ∧ (string "rows").size = 6 ∧
      (string "metadata").size = 10 ∧ (string "metadata_counts").size = 17 := by
    decide +kernel
  rw [resultEntries] at hs ⊢
  rw [entriesCost_append, entriesCost_append] at hs
  simp only [entriesCost_cons, entriesCost_nil, entrySize] at hs hf
  unfold outputEnvelopeReserve MetadataOutput.cost
  omega

end Envelope

/-! ## Results -/

theorem rowLimit_le (batch : Batch) (limits : ResultLimits) (cols : ℕ) :
    rowLimit batch limits cols ≤ batch.numRows := by
  unfold rowLimit
  split
  · exact min_le_left _ _
  · exact (min_le_left _ _).trans (min_le_left _ _)

/-- The components of a result, each built from what the one before left of the budget. -/
structure Components (r : MetadataReadings) (batch : Batch) (limits : ResultLimits)
    (metadata : MetadataOutput) (schema : SchemaState) (rows : RowsState) : Prop where
  built : ∃ left bytesRemaining formatters, buildMetadata r batch.metadata limits
      { remaining := limits.maxResultBytes - outputEnvelopeReserve } = (metadata, left) ∧
    schema = selectColumns limits (batch.columns.take limits.maxCells)
      { bytesRemaining := bytesRemaining, budget := left } ∧
    buildRows limits (schema.selectedColumns.zip formatters)
      (List.range (rowLimit batch limits schema.selectedColumns.length))
        { budget := schema.budget } = .ok rows

theorem Components.accounted {metadata : MetadataOutput} {schema : SchemaState} {rows : RowsState}
    (h : Components r batch limits metadata schema rows) :
    Counted batch metadata schema rows ∧
      metadata.cost + itemsCost schema.schemaJson + itemsCost rows.rows ≤
        limits.maxResultBytes - outputEnvelopeReserve := by
  obtain ⟨left, bytesRemaining, formatters, hm, hsh, hr⟩ := h.built
  have hw := limits.maxResultBytes_le
  have hsm : limits.maxResultBytes - outputEnvelopeReserve < usizeMax := by
    have hma : 0 < usizeMax := by decide
    have hpo : 0 < outputEnvelopeReserve := by decide
    omega
  obtain ⟨hp, hc⟩ :=
    accounted_buildMetadata r batch.numMetadata_le limits hm hsm
  dsimp only at hp
  have hs := accounted_selectColumns limits (show left.remaining < usizeMax by omega)
    (batch.columns.take limits.maxCells) (SchemaState.accounted_start bytesRemaining left)
  rw [← hsh, Nat.zero_add, length_take] at hs
  have hsc := hs.paid
  have hn : ∀ col ∈ schema.selectedColumns.zip formatters,
      col.1.2 = serializedLen (.string col.1.1.name) :=
    fun col hco => hs.named _ (of_mem_zip hco).1
  have hf := accounted_buildRows (show schema.budget.remaining < usizeMax by omega) hn
    (RowsState.accounted_start schema.budget) hr
  rw [Nat.zero_add, length_range] at hf
  have hro := hf.paid
  refine ⟨⟨hc, hs.counted.trans (min_le_right _ _), ?_⟩, by omega⟩
  exact hf.counted.trans (rowLimit_le _ _ _)

theorem Components.size_le {metadata : MetadataOutput} {schema : SchemaState} {rows : RowsState}
    (h : Components r batch limits metadata schema rows)
    (hl : minResultBytes ≤ limits.maxResultBytes) :
    (ofEntries (resultEntries batch limits metadata schema rows)).size ≤ limits.maxResultBytes := by
  obtain ⟨hc, hp⟩ := h.accounted
  have hr := size_result_le limits hc
  have hre : outputEnvelopeReserve ≤ minResultBytes := by decide
  omega

/-! ## Errors -/

def NotExceeded {α : Type} (x : Except ErrorData α) : Prop :=
  ∀ bytes budget, x ≠ .error (.exceeded bytes budget)

variable {α β : Type} {x : Except ErrorData α} {f : α → Except ErrorData β} {stats : ValueStats}
  {row : ℕ} {cols : List (SelectedColumn × Option Formatter)}

theorem notExceeded_ok {a : α} : NotExceeded (.ok a) := by
  intro bytes budget h
  cases h

theorem NotExceeded.bind (h : NotExceeded x) (hf : ∀ a, x = .ok a → NotExceeded (f a)) :
    NotExceeded (x >>= f) := by
  cases x with
  | error e =>
    intro bytes budget he
    exact h bytes budget (congrArg Except.error (Except.error.inj he))
  | ok a => exact hf a rfl

theorem NotExceeded.bind_and {P : β → Prop} (h : NotExceeded x)
    (hf : ∀ a, x = .ok a → NotExceeded (f a) ∧ ∀ b, f a = .ok b → P b) :
    NotExceeded (x >>= f) ∧ ∀ b, x >>= f = .ok b → P b := by
  refine ⟨h.bind fun a ha => (hf a ha).1, fun b hb => ?_⟩
  obtain ⟨a, ha, hb⟩ := bind_eq_ok.mp hb
  exact (hf a ha).2 b hb

theorem notExceeded_mapM (h : ∀ a, NotExceeded (f a)) {l : List α} : NotExceeded (l.mapM f) := by
  induction l with
  | nil => exact notExceeded_ok
  | cons a l ih =>
    rw [mapM_cons]
    apply (h a).bind
    intro b _
    apply ih.bind
    intro bs _
    exact notExceeded_ok

theorem notExceeded_columnFormatter {rowLimit : ℕ} {col : Column} :
    NotExceeded (columnFormatter limits rowLimit col) := by
  unfold columnFormatter
  split
  · split
    · exact notExceeded_ok
    · split
      · exact notExceeded_ok
      · intro bytes budget h
        cases h
  · exact notExceeded_ok

theorem notExceeded_formatArrayValueBounded {rendering : Rendering} :
    NotExceeded (formatArrayValueBounded rendering limits stats) := by
  unfold formatArrayValueBounded
  dsimp only
  split
  · intro bytes budget h
    cases h
  · exact notExceeded_ok

theorem notExceeded_arrayCellToJson {arr : ArrayData} {formatter : Option Formatter} :
    NotExceeded (arrayCellToJson arr formatter row limits stats) := by
  cases arr with
  | nested isValid =>
    unfold arrayCellToJson
    dsimp only
    split
    · exact notExceeded_ok
    · exact notExceeded_ok
  | other isValid given =>
    unfold arrayCellToJson
    dsimp only
    split
    · cases formatter with
      | none =>
        intro bytes budget h
        cases h
      | some format =>
        apply notExceeded_formatArrayValueBounded.bind
        intro v _
        exact notExceeded_ok
    · exact notExceeded_ok
  | _ => exact notExceeded_ok

theorem notExceeded_buildRow {remaining : ℕ} {s : RowState} :
    NotExceeded (buildRow limits remaining row cols s) := by
  induction cols generalizing s with
  | nil => exact notExceeded_ok
  | cons col rest ih =>
    rw [buildRow]
    apply notExceeded_arrayCellToJson.bind
    intro cell _
    dsimp only
    split
    · exact notExceeded_ok
    · exact ih

theorem notExceeded_buildRows {indices : List ℕ} {s : RowsState} :
    NotExceeded (buildRows limits cols indices s) := by
  induction indices generalizing s with
  | nil => exact notExceeded_ok
  | cons row rest ih =>
    rw [buildRows]
    apply notExceeded_buildRow.bind
    intro res _
    cases res with
    | none => exact notExceeded_ok
    | some filled =>
      dsimp only
      split
      · exact notExceeded_ok
      · exact ih

/-! ## The conversion -/

theorem recordBatchToJson_spec (r : MetadataReadings) (batch : Batch)
    (h : minResultBytes ≤ limits.maxResultBytes) :
    NotExceeded (recordBatchToJson r batch limits) ∧
      ∀ res, recordBatchToJson r batch limits = .ok res → res.size ≤ limits.maxResultBytes := by
  rw [recordBatchToJson, if_neg (Nat.not_lt.mpr h)]
  split
  rename_i metadata left hm
  extract_lets schema limit
  have hc : ∀ formatters rows, buildRows limits (schema.selectedColumns.zip formatters)
      (range limit) { budget := schema.budget } = .ok rows →
        Components r batch limits metadata schema rows :=
    fun formatters rows hr => ⟨left, _, formatters, hm, rfl, hr⟩
  clear_value schema limit
  apply (notExceeded_mapM fun _ => notExceeded_columnFormatter).bind_and
  intro formatters _
  apply notExceeded_buildRows.bind_and
  intro rows hr
  have hs := (hc formatters rows hr).size_le h
  dsimp only
  rw [if_neg (Nat.not_lt.mpr (show serializedLen _ ≤ _ from (saturate_le_self _).trans hs))]
  refine ⟨notExceeded_ok, fun res hok => ?_⟩
  rw [← Except.ok.inj hok]
  exact hs

/-- A result is within its budget and no budget is exceeded; the bytes that are reported for a
bounded value of metadata are its bytes, within the budget for a container, and strings are cut to
their budget. -/
theorem recordBatchToJson_within_budget (r : MetadataReadings) (limits : ResultLimits) :
    (minResultBytes ≤ limits.maxResultBytes → ∀ batch,
      (∀ bytes budget, recordBatchToJson r batch limits ≠ .error (.exceeded bytes budget)) ∧
      ∀ result, recordBatchToJson r batch limits = .ok result →
        result.size ≤ limits.maxResultBytes) ∧
    (∀ value : Json, value.Distinct → ∀ maxProperties maxBytes,
      (boundMetadataValue limits value maxProperties maxBytes).bytes =
        serializedLen (boundMetadataValue limits value maxProperties maxBytes).value ∧
      (2 ≤ maxBytes → IsContainer (boundMetadataValue limits value maxProperties maxBytes).value →
        (boundMetadataValue limits value maxProperties maxBytes).bytes ≤ maxBytes)) ∧
    ∀ value maxBytes stats, Shortens value (boundedJsonString value limits maxBytes stats).1 ∧
      (2 ≤ maxBytes →
        serializedLen (.string (boundedJsonString value limits maxBytes stats).1) ≤ maxBytes) := by
  refine ⟨?_, ?_, ?_⟩
  · exact fun hlimit batch => recordBatchToJson_spec r batch hlimit
  · intro value hdistinct maxProperties maxBytes
    exact ⟨reported_of_distinct limits hdistinct maxProperties maxBytes, fun hbudget hcontainer =>
        bytes_le_of_isContainer limits hdistinct maxProperties hbudget hcontainer⟩
  · intro value maxBytes stats
    exact ⟨boundedJsonString_shortens value limits maxBytes stats,
      fun hbudget => boundedJsonString_le value limits hbudget stats⟩

def sampleMetadata : Json := .array [.string "delayed"]

theorem distinct_sampleMetadata : sampleMetadata.Distinct := by
  refine .array fun x hi => ?_
  rw [mem_singleton.mp hi]
  exact .string _

def sampleReadings : MetadataReadings where
  json _ := some sampleMetadata
  fieldExceptions _ := none
  eidData _ := none

theorem one_le_usizeMax : 1 ≤ usizeMax := by decide

def sampleBatch : Batch where
  columns := [⟨"ticker", ⟨["Utf8"], false⟩, true, .utf8 fun _ => some "IBM US Equity"⟩]
  numRows := 1
  metadata := (∅ : Map String String).insert "xbbg.delayed" "[\"delayed\"]"
  numRows_le := one_le_usizeMax
  numColumns_le := one_le_usizeMax
  numMetadata_le := one_le_usizeMax

theorem recordBatchToJson_within_budget_sample :
    (∃ result, recordBatchToJson sampleReadings sampleBatch .default = .ok result ∧
      result.size ≤ 1048576) ∧
    (boundMetadataValue .default sampleMetadata 5 10).bytes ≤ 10 ∧
    serializedLen (.string (boundedJsonString "delayed" .default 8 {}).1) ≤ 8 := by
  have hbudget := recordBatchToJson_within_budget sampleReadings .default
  have hlimit : minResultBytes ≤ ResultLimits.default.maxResultBytes := by decide
  have hsome : (recordBatchToJson sampleReadings sampleBatch .default).toOption.isSome = true := by
    decide +kernel
  obtain ⟨result, hresult⟩ := Option.isSome_iff_exists.mp hsome
  have hok := eq_ok_of_toOption hresult
  refine ⟨⟨result, hok, (hbudget.1 hlimit sampleBatch).2 result hok⟩, ?_, ?_⟩
  · exact (hbudget.2.1 sampleMetadata distinct_sampleMetadata 5 10).2 (by decide) trivial
  · exact (hbudget.2.2 "delayed" 8 {}).2 (by decide)

end Xbbg.Mcp
