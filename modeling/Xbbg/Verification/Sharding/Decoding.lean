import Xbbg.Verification.Sharding.Builders
import Xbbg.Verification.Sharding.Concat

/-! What a decoder returns for the entries of a response: the rows of the securities that
succeeded and an error for each that failed, unless no row is left. -/

namespace Xbbg.Responses

open List Library Diagnostics Columns OutputColumns Option

variable {c : Conversions} {includeDate : Bool} {fields : List String} {rows : List LongRow}
  {o : OutputColumns}

/-! ### Rows of an output format -/

/-- What an output format makes of a row of fields and of a failed security. -/
structure Format where
  Row : Type
  readers : List (Reader Row)
  dataRows : String → Option Value → (String → Option Value) → List Row
  errorRows : String → SecurityErrorMeta → List Row
  /-- The fields of a batch of the given rows. -/
  fields : List Row → List Field

def dtypeHints (fields : List String) (fieldTypes : Map String ArrowType) : List (Option String) :=
  fields.map fun name => (fieldTypes.lookup name).map ArrowType.typeName

def longFormat (fields : List String) (fieldTypes : Map String ArrowType)
    (readers : List (Reader LongRow)) (rowFields : List LongRow → List Field) : Format where
  Row := LongRow
  readers := readers
  dataRows ticker date get :=
    fields.zipWith (fun name hint => ⟨ticker, date, name, get name, hint⟩)
      (dtypeHints fields fieldTypes)
  errorRows ticker error := [RefDataState.errorRow ticker error]
  fields := rowFields

/-- The rows of failed securities are not part of a wide batch. -/
def wideFormat (c : Conversions) (includeDate : Bool) (fields : List String)
    (fieldTypes : Map String ArrowType) : Format where
  Row := DataRow
  readers := wideReaders c fields includeDate
  dataRows ticker date get := [⟨ticker, date, get⟩]
  errorRows _ _ := []
  fields := WideColumns.fieldsOf fieldTypes fields includeDate

def formatOf (c : Conversions) (includeDate : Bool) (fields : List String) (format : OutputFormat)
    (longMode : LongMode) (fieldTypes : Map String ArrowType) : Format :=
  match format, longMode with
  | .long, .string =>
    longFormat fields fieldTypes (stringReaders c includeDate) fun _ =>
      stringFields (commonValueType fields fieldTypes) includeDate
  | .long, .withMetadata =>
    longFormat fields fieldTypes (metadataReaders c includeDate)
      (slotFields c fieldTypes includeDate)
  | .long, .typed =>
    longFormat fields fieldTypes (typedReaders includeDate) fun _ => typedFields includeDate
  | .wide, _ => wideFormat c includeDate fields fieldTypes

/-- `Holds` follows the output columns row by row until they are finished. -/
structure Format.Follows (c : Conversions) (f : Format) (start : OutputColumns)
    (Holds : List f.Row → OutputColumns → Prop) : Prop where
  start : Holds [] start
  processRow : ∀ {rows o}, Holds rows o → ∀ ticker date get,
    Holds (rows ++ f.dataRows ticker date get) (o.processRow c ticker date get)
  errorRow : ∀ {rows o}, Holds rows o → ∀ ticker error, Holds (rows ++ f.errorRows ticker error)
      (o.appendLongRow c (RefDataState.errorRow ticker error))
  rowCount : ∀ {rows o}, Holds rows o → o.rowCount = rows.length
  finish : ∀ {rows o}, Holds rows o → ∃ batch, o.finish = .ok batch ∧
    Renders f.readers rows batch ∧ Plain batch.metadata ∧ batch.fields = f.fields rows

/-! ### Long formats -/

variable {fieldTypes : Map String ArrowType} {longMode : LongMode}

namespace OutputColumns

variable {o : OutputColumns}

/-- The parameters of the output, which no row changes. -/
structure Configured (includeDate : Bool) (fields : List String) (format : OutputFormat)
    (longMode : LongMode) (fieldTypes : Map String ArrowType) (o : OutputColumns) : Prop where
  includeDate : o.includeDate = includeDate
  fieldNames : o.fieldNames = fields
  fieldDtypeHints : o.fieldDtypeHints = dtypeHints fields fieldTypes
  format : o.format = format
  longMode : o.longMode = longMode

theorem configured_new (includeDate : Bool) (fields : List String) (format : OutputFormat)
    (longMode : LongMode) (fieldTypes : Map String ArrowType) :
    Configured includeDate fields format longMode fieldTypes
      (.new includeDate fields format longMode fieldTypes) :=
  ⟨rfl, rfl, rfl, rfl, rfl⟩

theorem Configured.appendLongRow {includeDate : Bool} {fields : List String} {format : OutputFormat}
    (h : Configured includeDate fields format longMode fieldTypes o) (c : Conversions)
    (row : LongRow) :
    Configured includeDate fields format longMode fieldTypes (o.appendLongRow c row) := by
  unfold OutputColumns.appendLongRow
  split
  · exact ⟨h.1, h.2, h.3, h.4, h.5⟩
  · exact ⟨h.1, h.2, h.3, h.4, h.5⟩
  · unfold appendSlotRow
    split <;> exact ⟨h.1, h.2, h.3, h.4, h.5⟩

theorem appendLongRow_of_string {l : LongStringColumns} (h : o.longColumns = some l)
    (c : Conversions) (row : LongRow) :
    o.appendLongRow c row = { o with longColumns := some (l.appendRow c row) } := by
  simp only [appendLongRow, h]

theorem appendLongRow_of_typed {l : TypedLongColumns} (hn : o.longColumns = none)
    (h : o.typedLongColumns = some l) (c : Conversions) (row : LongRow) :
    o.appendLongRow c row = { o with typedLongColumns := some (l.appendRow row) } := by
  simp only [appendLongRow, hn, h]

theorem appendLongRow_of_slots (hl : o.longColumns = none) (ht : o.typedLongColumns = none)
    (c : Conversions) (row : LongRow) : o.appendLongRow c row = o.appendSlotRow c row := by
  simp only [appendLongRow, hl, ht]

theorem appendSlotRow_of_resolved {writer : LongRowWriter} (h : o.longRows = some writer)
    (c : Conversions) (row : LongRow) :
    o.appendSlotRow c row = { o with columns := writer.appendRow c o.columns row } := by
  simp only [appendSlotRow, h]

end OutputColumns

theorem follows_long {readers : List (Reader LongRow)} {rowFields : List LongRow → List Field}
    (Builder : List LongRow → OutputColumns → Prop)
    (hst : Builder [] (.new includeDate fields .long longMode fieldTypes))
    (ha : ∀ {rows o}, o.Configured includeDate fields .long longMode fieldTypes → Builder rows
      o → ∀ row, Builder (rows ++ [row]) (o.appendLongRow c row))
    (hc : ∀ {rows o}, o.format = .long → Builder rows o → o.rowCount = rows.length)
    (hf : ∀ {rows o}, o.Configured includeDate fields .long longMode fieldTypes → Builder rows
      o → ∃ batch, o.finishLong = .ok batch ∧ Renders readers rows batch ∧
        Plain batch.metadata ∧ batch.fields = rowFields rows) :
    (longFormat fields fieldTypes readers rowFields).Follows c
      (.new includeDate fields .long longMode fieldTypes)
      fun rows o => o.Configured includeDate fields .long longMode fieldTypes ∧ Builder rows o where
  start := ⟨configured_new _ _ _ _ _, hst⟩
  processRow := by
    intro rows o h ticker date get
    have hr : o.processRow c ticker date get =
        ((longFormat fields fieldTypes readers rowFields).dataRows ticker date get).foldl
          (appendLongRow c) o := by
      simp only [processRow, h.1.format, processLongFormat,
        longRowsOf, h.1.fieldNames, h.1.fieldDtypeHints, longFormat]
    rw [hr]
    exact foldl_holds
      (fun rows o => o.Configured includeDate fields .long longMode fieldTypes ∧ Builder rows o)
      (fun _ _ row ho => ⟨ho.1.appendLongRow c row, ha ho.1 ho.2 row⟩) _ h
  errorRow h ticker error :=
    ⟨h.1.appendLongRow c _, ha h.1 h.2 (RefDataState.errorRow ticker error)⟩
  rowCount h := hc h.1.format h.2
  finish := by
    intro rows o h
    obtain ⟨batch, hb, hs⟩ := hf h.1 h.2
    refine ⟨batch, ?_, hs⟩
    rw [finish, h.1.format]
    exact hb

def StringBuilder (c : Conversions) (valueType : ArrowType) (includeDate : Bool)
    (rows : List LongRow) (o : OutputColumns) : Prop :=
  ∃ l, o.longColumns = some l ∧ LongStringColumns.Holds c valueType includeDate rows l

theorem follows_string (c : Conversions) (includeDate : Bool) (fields : List String)
    (fieldTypes : Map String ArrowType) :
    ∃ Holds, (formatOf c includeDate fields .long .string fieldTypes).Follows c
      (.new includeDate fields .long .string fieldTypes) Holds := by
  refine ⟨_, follows_long (StringBuilder c (commonValueType fields fieldTypes) includeDate)
    ?_ ?_ ?_ ?_⟩
  · exact ⟨_, rfl, LongStringColumns.holds_new c _ includeDate⟩
  · rintro rows o - ⟨l, hl, hh⟩ row
    rw [appendLongRow_of_string hl]
    exact ⟨l.appendRow c row, rfl, hh.appendRow row⟩
  · rintro rows o hf ⟨l, hl, hh⟩
    rw [rowCount, hf, hl]
    exact hh.rowCount
  · rintro rows o hc ⟨l, hl, hh⟩
    rw [finishLong, hc.longMode, hl, hc.includeDate]
    exact hh.finish

def TypedBuilders (includeDate : Bool) (rows : List LongRow) (o : OutputColumns) : Prop :=
  o.longColumns = none ∧
    ∃ l, o.typedLongColumns = some l ∧ TypedLongColumns.Holds includeDate rows l

theorem follows_typed (c : Conversions) (includeDate : Bool) (fields : List String)
    (fieldTypes : Map String ArrowType) :
    ∃ Holds, (formatOf c includeDate fields .long .typed fieldTypes).Follows c
      (.new includeDate fields .long .typed fieldTypes) Holds := by
  refine ⟨_, follows_long (TypedBuilders includeDate) ?_ ?_ ?_ ?_⟩
  · exact ⟨rfl, _, rfl, TypedLongColumns.holds_new includeDate⟩
  · rintro rows o - ⟨hn, l, hl, hh⟩ row
    rw [appendLongRow_of_typed hn hl]
    exact ⟨hn, l.appendRow row, rfl, hh.appendRow row⟩
  · rintro rows o hf ⟨hn, l, hl, hh⟩
    rw [rowCount, hf, hn, hl]
    exact hh.rowCount
  · rintro rows o hc ⟨hn, l, hl, hh⟩
    rw [finishLong, hc.longMode, hl]
    exact hh.finish

/-- The slots of rows with metadata are resolved by the first row. -/
def MetadataBuilder (c : Conversions) (fieldTypes : Map String ArrowType) (includeDate : Bool)
    (rows : List LongRow) (o : OutputColumns) : Prop :=
  o.longColumns = none ∧ o.typedLongColumns = none ∧
    ((o.longRows = none ∧ rows = [] ∧ o.columns = { typeHints := fieldTypes }) ∨
      (o.longRows = some (metadataWriter includeDate) ∧
        ColumnSet.Holds c fieldTypes includeDate rows o.columns))

theorem MetadataBuilder.appendLongRow
    (h : MetadataBuilder c fieldTypes includeDate rows o) (hm : o.longMode = .withMetadata)
    (hd : o.includeDate = includeDate) (row : LongRow) :
    MetadataBuilder c fieldTypes includeDate (rows ++ [row]) (o.appendLongRow c row) := by
  obtain ⟨hl, ht, hc⟩ := h
  rw [appendLongRow_of_slots hl ht]
  rcases hc with ⟨hn, rfl, hst⟩ | ⟨hs, hh⟩
  · obtain ⟨s, hne, hh⟩ := metadataWriter_new c fieldTypes includeDate
    rw [appendSlotRow, hn, hst, hm, hd, hne]
    exact ⟨hl, ht, .inr ⟨rfl, hh.appendRow row⟩⟩
  · rw [appendSlotRow_of_resolved hs]
    exact ⟨hl, ht, .inr ⟨hs, hh.appendRow row⟩⟩

theorem MetadataBuilder.rowCount
    (h : MetadataBuilder c fieldTypes includeDate rows o) (hf : o.format = .long) :
    o.rowCount = rows.length := by
  obtain ⟨hl, ht, hc⟩ := h
  rw [OutputColumns.rowCount, hf, hl, ht]
  rcases hc with ⟨-, rfl, hs⟩ | ⟨-, hh⟩
  · rw [hs]
    rfl
  · exact hh.rowCount

theorem MetadataBuilder.finishWithOrder (h : MetadataBuilder c fieldTypes includeDate rows o) :
    ∃ b, o.columns.finishWithOrder (slotNames includeDate) = .ok b ∧
      Renders (metadataReaders c includeDate) rows b ∧ Plain b.metadata ∧
      b.fields = slotFields c fieldTypes includeDate rows := by
  rcases h.2.2 with ⟨-, rfl, hs⟩ | ⟨-, hh⟩
  · rw [hs]
    exact ColumnSet.finish_of_unwritten c (s := { typeHints := fieldTypes }) rfl includeDate
  · exact hh.finish

theorem finishLong_of_metadata
    (h : o.Configured includeDate fields .long .withMetadata fieldTypes) :
    o.finishLong = o.columns.finishWithOrder (slotNames includeDate) := by
  have ho : o.slotOrder = slotNames includeDate := by
    rw [slotOrder, h.includeDate, h.longMode]
    cases includeDate <;> rfl
  rw [finishLong, h.longMode, ho]

theorem follows_metadata (c : Conversions) (includeDate : Bool) (fields : List String)
    (fieldTypes : Map String ArrowType) :
    ∃ Holds, (formatOf c includeDate fields .long .withMetadata fieldTypes).Follows c
      (.new includeDate fields .long .withMetadata fieldTypes) Holds := by
  refine ⟨_, follows_long (MetadataBuilder c fieldTypes includeDate) ?_ ?_ ?_ ?_⟩
  · exact ⟨rfl, rfl, .inl ⟨rfl, rfl, rfl⟩⟩
  · intro rows o hc h row
    exact h.appendLongRow hc.longMode hc.includeDate row
  · intro rows o hf h
    exact h.rowCount hf
  · intro rows o hc h
    rw [finishLong_of_metadata hc]
    exact h.finishWithOrder

/-! ### The wide format -/

structure WideBuilder (c : Conversions) (dated : Bool) (fields : List String)
    (fieldTypes : Map String ArrowType) (rows : List DataRow) (o : OutputColumns) : Prop where
  includeDate : o.includeDate = dated
  fieldNames : o.fieldNames = fields
  format : o.format = .wide
  longColumns : o.longColumns = none
  typedLongColumns : o.typedLongColumns = none
  wideColumns : ∃ w, o.wideColumns = some w ∧ WideColumns.Holds c fieldTypes fields dated rows w

theorem WideBuilder.appendLongRow {rows : List DataRow}
    (h : WideBuilder c includeDate fields fieldTypes rows o) (row : LongRow) :
    WideBuilder c includeDate fields fieldTypes rows (o.appendLongRow c row) := by
  rw [appendLongRow_of_slots h.longColumns h.typedLongColumns]
  unfold appendSlotRow
  split <;> exact ⟨h.1, h.2, h.3, h.4, h.5, h.6⟩

theorem follows_wide (c : Conversions) (includeDate : Bool) (fields : List String)
    (longMode : LongMode) (fieldTypes : Map String ArrowType) :
    (wideFormat c includeDate fields fieldTypes).Follows c
      (.new includeDate fields .wide longMode fieldTypes)
      (WideBuilder c includeDate fields fieldTypes) where
  start := ⟨rfl, rfl, rfl, rfl, rfl, _, rfl, WideColumns.holds_new c fields fieldTypes includeDate⟩
  processRow := by
    intro rows o h ticker date get
    obtain ⟨w, hw, hh⟩ := h.wideColumns
    have hro : o.processRow c ticker date get = { o with
        wideColumns := some (w.appendRow c (DataRow.wide fields ⟨ticker, date, get⟩)) } := by
      simp only [processRow, h.format, processWideFormat, hw,
        map_some, h.fieldNames, DataRow.wide]
    rw [hro]
    exact ⟨h.1, h.2, h.3, h.4, h.5, _, rfl, hh.appendRow _⟩
  errorRow := by
    intro rows o h ticker e
    have hr : rows ++ (wideFormat c includeDate fields fieldTypes).errorRows ticker e = rows :=
      append_nil rows
    rw [hr]
    exact h.appendLongRow (RefDataState.errorRow ticker e)
  rowCount := by
    intro rows o h
    obtain ⟨w, hw, hh⟩ := h.wideColumns
    rw [rowCount, h.format, hw]
    exact hh.rowCount
  finish := by
    intro rows o h
    obtain ⟨w, hw, hh⟩ := h.wideColumns
    rw [finish, h.format, hw, h.includeDate]
    exact hh.finish

theorem exists_follows (c : Conversions) (includeDate : Bool) (fields : List String)
    (format : OutputFormat) (longMode : LongMode) (fieldTypes : Map String ArrowType) :
    ∃ Holds, (formatOf c includeDate fields format longMode fieldTypes).Follows c
      (.new includeDate fields format longMode fieldTypes) Holds := by
  cases format with
  | wide => exact ⟨_, follows_wide c includeDate fields longMode fieldTypes⟩
  | long =>
    cases longMode with
    | string => exact follows_string c includeDate fields fieldTypes
    | withMetadata => exact follows_metadata c includeDate fields fieldTypes
    | typed => exact follows_typed c includeDate fields fieldTypes

/-! ### Entries of a response -/

/-- The failed securities with their errors, in the order of the response. -/
def errorsOf (entries : List SecurityElements) : List (String × SecurityErrorMeta) :=
  entries.filterMap fun s => s.error.map fun error => (s.ticker, error)

namespace Format

def refRows (f : Format) (includeSecurityErrors : Bool) (s : SecurityElements) : List f.Row :=
  match s.error with
  | some error => if includeSecurityErrors then f.errorRows s.ticker error else []
  | none => s.fieldData.elim [] fun fieldData => f.dataRows s.ticker none fieldData.get

/-- The rows of an entry of a historical data response, one or more for each date. -/
def histRows (f : Format) (s : SecurityElements) : List f.Row :=
  match s.error with
  | some _ => []
  | none =>
    s.fieldData.elim [] fun fieldData =>
      fieldData.values.flatMap fun row => f.dataRows s.ticker row.date row.get

end Format

structure Decoded {f : Format} (Holds : List f.Row → OutputColumns → Prop)
    (rows : SecurityElements → List f.Row) (entries : List SecurityElements)
    (failedSecurities : List String) (output : OutputColumns) (responseMeta : ResponseMetadata) :
    Prop where
  failed : failedSecurities = (errorsOf entries).map Prod.fst
  output : Holds (entries.flatMap rows) output
  errors : ∀ ticker, responseMeta.securityErrors.lookup ticker = lastWrite (errorsOf entries) ticker

/-! ### Diagnostics of one entry -/

theorem securityErrors_foldl_recordFieldException (ticker : String)
    (exceptions : List FieldExceptionMeta) (m : ResponseMetadata) :
    (exceptions.foldl (fun m e => recordFieldException m ticker e) m).securityErrors =
      m.securityErrors := by
  induction exceptions generalizing m with
  | nil => rfl
  | cons e rest ih =>
    rw [foldl_cons, ih, recordFieldException]
    split <;> rfl

theorem securityErrors_recordDelayed (m : ResponseMetadata) (ticker : String)
    (fieldData : FieldData) : (recordDelayed m ticker fieldData).securityErrors =
      m.securityErrors := by
  rw [recordDelayed]
  split <;> rfl

theorem securityErrors_recordSecurity (m : ResponseMetadata) (s : SecurityElements) :
    (recordSecurity m s).securityErrors =
      s.error.elim m.securityErrors (m.securityErrors.insert s.ticker) := by
  have hr : ∀ m' : ResponseMetadata,
      (if m'.captureDelayed then s.fieldData.elim m' (recordDelayed m' s.ticker)
        else m').securityErrors = m'.securityErrors := by
    intro m'
    split
    · cases s.fieldData with
      | none => rfl
      | some fieldData => exact securityErrors_recordDelayed m' s.ticker fieldData
    · rfl
  rw [recordSecurity, hr, securityErrors_foldl_recordFieldException]
  cases s.eidData <;> cases s.error <;> rfl

theorem errorsOf_snoc (entries : List SecurityElements) (s : SecurityElements) :
    errorsOf (entries ++ [s]) =
      errorsOf entries ++ (s.error.map fun e => (s.ticker, e)).toList := by
  cases he : s.error <;> simp [errorsOf, he]

variable {m : ResponseMetadata}

theorem lookup_recordSecurity {entries : List SecurityElements}
    (h : ∀ ticker, m.securityErrors.lookup ticker = lastWrite (errorsOf entries) ticker)
    (s : SecurityElements) (ticker : String) : (recordSecurity m s).securityErrors.lookup ticker =
      lastWrite (errorsOf (entries ++ [s])) ticker := by
  rw [securityErrors_recordSecurity, errorsOf_snoc, lastWrite_append, ← h]
  cases he : s.error with
  | none => rfl
  | some e =>
    rw [elim_some, Map.lookup_insert_if]
    by_cases ht : s.ticker = ticker
    · simp [ht, lastWrite_cons]
    · simp [ht, lastWrite_cons, Ne.symm ht]

/-! ### The decoders -/

variable {output : OutputColumns} {failed : List String}

theorem Decoded.snoc {f : Format} {Holds : List f.Row → OutputColumns → Prop}
    {rows : SecurityElements → List f.Row} {entries : List SecurityElements}
    (h : Decoded Holds rows entries failed output m) (sec : SecurityElements)
    {next : OutputColumns} (hn : Holds (entries.flatMap rows ++ rows sec) next) :
    Decoded Holds rows (entries ++ [sec])
      (failed ++ (sec.error.map fun _ => sec.ticker).toList) next (recordSecurity m sec) where
  failed := by
    rw [errorsOf_snoc, map_append, ← h.failed]
    cases sec.error <;> rfl
  output := by
    rw [flatMap_append, flatMap_singleton]
    exact hn
  errors := lookup_recordSecurity h.errors sec

section Decoders

variable {c : Conversions} {f : Format} {start : OutputColumns}
  {Holds : List f.Row → OutputColumns → Prop} (hfollows : f.Follows c start Holds)
  {entries : List SecurityElements}

include hfollows

theorem Decoded.refData {includeSecurityErrors : Bool} {s : RefDataState}
    (hi : s.includeSecurityErrors = includeSecurityErrors)
    (h : Decoded Holds (f.refRows includeSecurityErrors) entries s.failedSecurities s.output
      s.responseMeta) (security : SecurityElements) :
    (s.processSecurity c security).includeSecurityErrors = includeSecurityErrors ∧
      Decoded Holds (f.refRows includeSecurityErrors) (entries ++ [security])
        (s.processSecurity c security).failedSecurities (s.processSecurity c security).output
        (s.processSecurity c security).responseMeta := by
  obtain ⟨flag, failed, output, responseMeta⟩ := s
  obtain rfl : includeSecurityErrors = flag := hi.symm
  rw [RefDataState.processSecurity]
  cases he : security.error with
  | some error =>
    cases includeSecurityErrors with
    | true =>
      have hr : f.refRows true security = f.errorRows security.ticker error := by
        simp [Format.refRows, he]
      have hs := h.snoc security (hr ▸ hfollows.errorRow h.output security.ticker error)
      rw [he] at hs
      exact ⟨rfl, hs⟩
    | false =>
      have hr : f.refRows false security = [] := by simp [Format.refRows, he]
      have hs := h.snoc security (by rw [hr, append_nil]; exact h.output)
      rw [he] at hs
      exact ⟨rfl, hs⟩
  | none =>
    cases hd : security.fieldData with
    | none =>
      have hr : f.refRows includeSecurityErrors security = [] := by
        simp [Format.refRows, he, hd]
      have hs := h.snoc security (by rw [hr, append_nil]; exact h.output)
      rw [he, map_none, toList_none, append_nil] at hs
      exact ⟨rfl, hs⟩
    | some fieldData =>
      have hr : f.refRows includeSecurityErrors security =
          f.dataRows security.ticker none fieldData.get := by
        simp [Format.refRows, he, hd]
      have hs := h.snoc security
        (hr ▸ hfollows.processRow h.output security.ticker none fieldData.get)
      rw [he, map_none, toList_none, append_nil] at hs
      exact ⟨rfl, hs⟩

theorem Format.Follows.processRows {rows : List f.Row} {o : OutputColumns} (h : Holds rows o)
    (ticker : String) (vs : List FieldRow) :
    Holds (rows ++ vs.flatMap fun row => f.dataRows ticker row.date row.get)
      (vs.foldl (fun output row => output.processRow c ticker row.date row.get) o) := by
  induction vs generalizing rows o with
  | nil => simpa using h
  | cons row vs ih =>
    have hr := ih (hfollows.processRow h ticker row.date row.get)
    rw [append_assoc] at hr
    exact hr

theorem Decoded.histData {s : HistDataState}
    (h : Decoded Holds f.histRows entries s.failedSecurities s.output s.responseMeta)
    (sec : SecurityElements) :
    Decoded Holds f.histRows (entries ++ [sec])
      (s.processSecurity c sec).failedSecurities (s.processSecurity c sec).output
      (s.processSecurity c sec).responseMeta := by
  rw [HistDataState.processSecurity]
  cases he : sec.error with
  | some e =>
    have hr : f.histRows sec = [] := by simp [Format.histRows, he]
    have hs := h.snoc sec (by rw [hr, append_nil]; exact h.output)
    rw [he] at hs
    exact hs
  | none =>
    cases hd : sec.fieldData with
    | none =>
      have hr : f.histRows sec = [] := by simp [Format.histRows, he, hd]
      have hs := h.snoc sec (by rw [hr, append_nil]; exact h.output)
      rw [he, map_none, toList_none, append_nil] at hs
      exact hs
    | some fieldData =>
      have hr : f.histRows sec =
          fieldData.values.flatMap fun row => f.dataRows sec.ticker row.date row.get := by
        simp [Format.histRows, he, hd]
      have hs := h.snoc sec (hr ▸ hfollows.processRows h.output sec.ticker fieldData.values)
      rw [he, map_none, toList_none, append_nil] at hs
      exact hs

/-- What a reply must show of the entries of a response. -/
structure Answered {ρ : Type} (readers : List (Reader ρ)) (rows : SecurityElements → List ρ)
    (fields : List ρ → List Field) (entries : List SecurityElements) (batch : RecordBatch) :
    Prop where
  renders : Renders readers (entries.flatMap rows) batch
  errors : ∀ ticker, batch.metadata.securityErrorOf ticker = lastWrite (errorsOf entries) ticker
  readable : batch.metadata.Readable
  fields : batch.fields = fields (entries.flatMap rows)

/-- A reply to the entries: a batch of their rows, or a failure if all that they have is failed
securities. -/
inductive Replies {ρ ε : Type} (readers : List (Reader ρ)) (rows : SecurityElements → List ρ)
    (fields : List ρ → List Field) (entries : List SecurityElements) :
    Except ε RecordBatch → Prop
  | answered {batch : RecordBatch} (hrows : errorsOf entries ≠ [] → entries.flatMap rows ≠ [])
      (hbatch : Answered readers rows fields entries batch) :
      Replies readers rows fields entries (.ok batch)
  | allFailed (herrors : errorsOf entries ≠ []) (hrows : entries.flatMap rows = []) (error : ε) :
      Replies readers rows fields entries (.error error)

theorem Decoded.reply {rows : SecurityElements → List f.Row}
    (h : Decoded Holds rows entries failed output m) (operation : String) :
    Replies f.readers rows f.fields entries (Responses.reply operation failed output m) := by
  have hno : (output.rowCount = 0 ∧ failed ≠ []) ↔
      entries.flatMap rows = [] ∧ errorsOf entries ≠ [] := by
    rw [hfollows.rowCount h.output, length_eq_zero_iff, h.failed, ne_eq, ne_eq, map_eq_nil_iff]
  rw [Responses.reply]
  split
  · rename_i hfailed
    obtain ⟨hr, he⟩ := hno.mp hfailed
    exact .allFailed he hr _
  · rename_i hok
    rw [hno] at hok
    obtain ⟨batch, hb, hr, hp, hfi⟩ := hfollows.finish h.output
    rw [hb]
    refine .answered (fun he hn => hok ⟨hn, he⟩) ⟨⟨hr.columns, hr.numRows⟩, ?_, ?_, hfi⟩
    · intro ticker
      obtain ⟨-, he, -⟩ := ResponseMetadata.attach_parts m batch.metadata
      change ((m.attach batch.metadata).securityErrors.getD ∅).lookup ticker = _
      rw [he, ← h.errors, ResponseMetadata.lookup_insertJson]
      intro _
      rw [hp.1]
      rfl
    · apply Sharding.readable_attach
      intro raw hra
      rw [hp.2] at hra
      exact (nomatch hra)

end Decoders

end Xbbg.Responses
