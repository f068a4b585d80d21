import Xbbg.Verification.Sharding.Isolation

/-! # Rows of failed securities

In the long output modes a failed security has one row with its error, and the other rows are those
of the reply without such rows. The text of the error can be read as long as the column that holds
it is a column of text. -/

namespace Xbbg.Responses

open List Library Diagnostics Columns Sharding RefDataState

variable {batch : RecordBatch}

/-! ## Long output of reference data -/

def metadataFields (fieldTypes : Map String ArrowType) : List Field :=
  (slotNames false).map fun name => ⟨name, (fieldTypes.lookup name).getD .string⟩

def outputReaders (c : Conversions) : LongMode → List (Reader LongRow)
  | .string => stringReaders c false
  | .withMetadata => metadataReaders c false
  | .typed => typedReaders false

def outputFields (fields : List String) (fieldTypes : Map String ArrowType) : LongMode → List Field
  | .string => stringFields (commonValueType fields fieldTypes) false
  | .withMetadata => metadataFields fieldTypes
  | .typed => typedFields false

def refFormat (c : Conversions) (fields : List String) (longMode : LongMode)
    (fieldTypes : Map String ArrowType) : Format :=
  longFormat fields fieldTypes (outputReaders c longMode) fun _ =>
    outputFields fields fieldTypes longMode

/-- Without a date every column is a column of text, unless a hint says otherwise. -/
theorem slotFields_eq (c : Conversions) (fieldTypes : Map String ArrowType) (rows : List LongRow) :
    slotFields c fieldTypes false rows = metadataFields fieldTypes := by
  cases rows <;> rfl

theorem exists_follows_ref (c : Conversions) (fields : List String) (longMode : LongMode)
    (fieldTypes : Map String ArrowType) :
    ∃ Holds, (refFormat c fields longMode fieldTypes).Follows c
      (.new false fields .long longMode fieldTypes) Holds := by
  cases longMode with
  | string => exact follows_string c false fields fieldTypes
  | withMetadata =>
    have hformat : refFormat c fields .withMetadata fieldTypes =
        formatOf c false fields .long .withMetadata fieldTypes :=
      congrArg (longFormat fields fieldTypes (metadataReaders c false))
        (funext fun rows => (slotFields_eq c fieldTypes rows).symm)
    rw [hformat]
    exact follows_metadata c false fields fieldTypes
  | typed => exact follows_typed c false fields fieldTypes

/-! ## Rows of a reply -/

abbrev NamedRow := List (String × Option Cell)

def namedRows (batch : RecordBatch) : List NamedRow :=
  (List.range batch.numRows).map fun row =>
    batch.columns.map fun column => (column.name, column.values[row]?.join)

def shownRows : Except BlpError RecordBatch → List NamedRow
  | .ok batch => namedRows batch
  | .error _ => []

/-- A row as it is shown by columns of the given types. -/
def rowCells {ρ : Type*} (readers : List (Reader ρ)) (types : List ArrowType) (row : ρ) :
    NamedRow :=
  readers.zipWith (fun reader type => (reader.name, reader.read type row)) types

theorem cells_of_forall₂ {ρ : Type*} {readers : List (Reader ρ)} {cols : List Column}
    {rs : List ρ} (h : Forall₂ (fun (reader : Reader ρ) (col : Column) =>
      col.name = reader.name ∧ col.values = rs.map (reader.read col.array.dataType)) readers cols)
    {i : ℕ} {row : ρ} (hr : rs[i]? = some row) :
    cols.map (fun col => (col.name, col.values[i]?.join)) =
      rowCells readers (cols.map fun col => col.array.dataType) row := by
  induction h with
  | nil => rfl
  | @cons reader col _ _ hcol _ ih =>
    obtain ⟨hn, hv⟩ := hcol
    rw [map_cons, ih, hv, getElem?_map, hr, hn]
    rfl

theorem namedRows_of_renders {ρ : Type*} {readers : List (Reader ρ)} {rs : List ρ}
    (h : Renders readers rs batch) :
    namedRows batch = rs.map (rowCells readers (batch.fields.map Field.dataType)) := by
  have ht : batch.fields.map Field.dataType = batch.columns.map fun col => col.array.dataType := by
    rw [RecordBatch.fields, map_map]
    rfl
  rw [namedRows, h.numRows, ht]
  apply ext_getElem
  · simp
  · intro i hi hi'
    rw [getElem_map, getElem_map, getElem_range]
    have hlt : i < rs.length := by simpa using hi'
    exact cells_of_forall₂ h.columns (getElem?_eq_getElem hlt)

theorem eq_of_flatMap_eq {α β : Type*} {f g : α → List β} {l : List α}
    (hl : ∀ a ∈ l, (f a).length = (g a).length) (h : l.flatMap f = l.flatMap g) :
    ∀ a ∈ l, f a = g a := by
  induction l with
  | nil => simp
  | cons a rest ih =>
    rw [flatMap_cons, flatMap_cons] at h
    obtain ⟨ha, hr⟩ := append_inj h (hl a mem_cons_self)
    exact forall_mem_cons.mpr ⟨ha, ih (forall_mem_cons.mp hl).2 hr⟩

/-- The rows of the entries, with one for each failed security. -/
def withErrorRows (dataRows : SecurityElements → List NamedRow)
    (errorRow : String → SecurityErrorMeta → NamedRow) (s : SecurityElements) : List NamedRow :=
  match s.error with
  | some error => [errorRow s.ticker error]
  | none => dataRows s

/-- The column of a long reply that holds texts. -/
def textColumn : LongMode → String
  | .string => "value"
  | .withMetadata => "value"
  | .typed => "value_str"

def NamedRow.cell (row : NamedRow) (name : String) : Option Cell := (row.lookup name).join

/-- The row names the ticker and the kind of row, and has the details of the error as text. -/
structure Surfaces (longMode : LongMode) (ticker : String) (error : SecurityErrorMeta)
    (row : NamedRow) : Prop where
  ticker_eq : row.cell "ticker" = some (.string ticker)
  field_eq : row.cell "field" = some (.string "__SECURITY_ERROR__")
  detail_eq : row.cell (textColumn longMode) = some (.string (RefDataState.errorDetail error))

/-- The columns that identify an error row and hold its text are columns of text. -/
def TextColumns (fields : List String) (fieldTypes : Map String ArrowType) : LongMode → Prop
  | .string => commonValueType fields fieldTypes = .string
  | .withMetadata => ∀ name ∈ ["ticker", "field", "value"],
      (fieldTypes.lookup name).getD .string = .string
  | .typed => True

/-- Only a column of text has texts in its cells. -/
theorem eq_string_of_cellOf {c : Conversions} {value : Option Value} {arrowType : ArrowType}
    {text : String} (h : cellOf c arrowType value = some (.string text)) : arrowType = .string :=
  (dataType_of_cellOf h).symm

theorem surfaces_errorRow_iff (c : Conversions) (fields : List String)
    (fieldTypes : Map String ArrowType) (longMode : LongMode) (ticker : String)
    (e : SecurityErrorMeta) :
    Surfaces longMode ticker e (rowCells (outputReaders c longMode)
      ((outputFields fields fieldTypes longMode).map Field.dataType) (errorRow ticker e)) ↔
      TextColumns fields fieldTypes longMode := by
  cases longMode with
  | string =>
    constructor
    · intro h
      have hd : cellOf c (commonValueType fields fieldTypes) (some (.string (errorDetail e))) =
          some (.string (errorDetail e)) := h.detail_eq
      exact eq_string_of_cellOf hd
    · intro hv
      rw [TextColumns] at hv
      refine ⟨rfl, rfl, ?_⟩
      simp only [outputFields, hv]
      rfl
  | withMetadata =>
    constructor
    · rintro ⟨ht, hf, hd⟩
      have htext {name text : String}
          (h : cellOf c ((fieldTypes.lookup name).getD .string) (some (.string text)) =
            some (.string text)) : (fieldTypes.lookup name).getD .string = .string :=
        eq_string_of_cellOf h
      simp only [TextColumns, forall_mem_cons, not_mem_nil, false_implies, implies_true, and_true]
      exact ⟨htext ht, htext hf, htext hd⟩
    · intro h
      have ht := h "ticker" (by decide)
      have hf := h "field" (by decide)
      have hv := h "value" (by decide)
      have hty : (outputFields fields fieldTypes .withMetadata).map Field.dataType =
          [.string, .string, .string, (fieldTypes.lookup "dtype").getD .string] := by
        simp [outputFields, metadataFields, slotNames, ht, hf, hv]
      rw [hty]
      exact ⟨rfl, rfl, rfl⟩
  | typed => exact ⟨fun _ => trivial, fun _ => ⟨rfl, rfl, rfl⟩⟩

/-! ## Failed securities in a reply -/

/-- Decoding of a response to a reference data request for long output, with the status fields that
are hidden if delays are captured. -/
def decodeRefData (c : Conversions) (fields : List String) (longMode : LongMode)
    (fieldTypes : Map String ArrowType) (hidden : Option (List String))
    (includeSecurityErrors : Bool) (partials : List Message) (final : Message) :
    Except BlpError RecordBatch :=
  let start := RefDataState.withFormat fields .long longMode fieldTypes includeSecurityErrors
  (partials.foldl (RefDataState.processMessage c)
    (hidden.elim start start.captureDelayed)).finish c final

section Decode

variable (c : Conversions) (fields : List String) (longMode : LongMode)
  (fieldTypes : Map String ArrowType)

def showRow : (refFormat c fields longMode fieldTypes).Row → NamedRow :=
  rowCells (refFormat c fields longMode fieldTypes).readers
    ((outputFields fields fieldTypes longMode).map Field.dataType)

def startState (hidden : Option (List String)) (includeSecurityErrors : Bool) : RefDataState :=
  hidden.elim (RefDataState.withFormat fields .long longMode fieldTypes includeSecurityErrors)
    (RefDataState.withFormat fields .long longMode fieldTypes includeSecurityErrors).captureDelayed

variable {c fields longMode fieldTypes}

theorem output_startState (hi : Option (List String)) (includeSecurityErrors : Bool) :
    (startState fields longMode fieldTypes hi includeSecurityErrors).output =
      .new false fields .long longMode fieldTypes := by
  cases hi <;> rfl

theorem decoded_startState {Holds : List LongRow → OutputColumns → Prop}
    (hfo : (refFormat c fields longMode fieldTypes).Follows c
      (.new false fields .long longMode fieldTypes) Holds)
    (hi : Option (List String)) (flag : Bool) (msgs : List Message) :
    Decoded (f := refFormat c fields longMode fieldTypes) Holds
      ((refFormat c fields longMode fieldTypes).refRows flag)
      (msgs.flatMap Message.securityData)
      (msgs.foldl (processMessage c)
        (startState fields longMode fieldTypes hi flag)).failedSecurities
      (msgs.foldl (processMessage c)
        (startState fields longMode fieldTypes hi flag)).output
      (msgs.foldl (processMessage c)
        (startState fields longMode fieldTypes hi flag)).responseMeta := by
  have hf : (startState fields longMode fieldTypes hi flag).includeSecurityErrors = flag := by
    cases hi <;> rfl
  have hfa : (startState fields longMode fieldTypes hi flag).failedSecurities = [] := by
    cases hi <;> rfl
  have he : (startState fields longMode fieldTypes hi flag).responseMeta.securityErrors = ∅ := by
    cases hi <;> rfl
  have hd := decoded_refMessages (f := refFormat c fields longMode fieldTypes)
    (output_startState hi flag ▸ hfo) hfa he msgs
  rw [hf] at hd
  exact hd

theorem rows_ne_nil_of_errors {es : List SecurityElements} (h : errorsOf es ≠ []) :
    es.flatMap ((refFormat c fields longMode fieldTypes).refRows true) ≠ [] := by
  obtain ⟨e, he⟩ := exists_mem_of_ne_nil _ h
  obtain ⟨s, hs, hso⟩ := mem_filterMap.mp he
  obtain ⟨err, her, -⟩ := Option.map_eq_some_iff.mp hso
  intro hn
  have hr := flatMap_eq_nil_iff.mp hn s hs
  rw [Format.refRows, her] at hr
  cases hr

variable (c fields longMode fieldTypes) in
/-- The rows of a reply are those of the entries; a reply without a row may be a failure. -/
theorem shownRows_decodeRefData (hi : Option (List String)) (flag : Bool)
    (ps : List Message) {final : Message} (hfi : final.responseError = none) :
    shownRows (decodeRefData c fields longMode fieldTypes hi flag ps final) =
        ((ps ++ [final]).flatMap Message.securityData).flatMap (fun s =>
          ((refFormat c fields longMode fieldTypes).refRows flag s).map
            (showRow c fields longMode fieldTypes)) ∧
      (flag = true → ∃ batch, decodeRefData c fields longMode fieldTypes hi flag ps final =
          .ok batch) := by
  obtain ⟨Holds, hf⟩ := exists_follows_ref c fields longMode fieldTypes
  have hd := decoded_startState hf hi flag (ps ++ [final])
  have hre : decodeRefData c fields longMode fieldTypes hi flag ps final = _ :=
    finish_refMessages c (startState fields longMode fieldTypes hi flag) hfi
  rw [hre]
  generalize (ps ++ [final]).flatMap Message.securityData = es at hd ⊢
  have hreply := hd.reply hf "ReferenceDataRequest"
  generalize reply "ReferenceDataRequest" _ _ _ = result at hreply ⊢
  cases hreply with
  | @answered batch _ ha =>
    refine ⟨?_, fun _ => ⟨batch, rfl⟩⟩
    rw [shownRows, namedRows_of_renders ha.renders, ha.fields, map_flatMap]
    rfl
  | allFailed hfa hn error =>
    refine ⟨by rw [shownRows, ← map_flatMap, hn, map_nil], ?_⟩
    rintro rfl
    exact absurd hn (rows_ne_nil_of_errors hfa)

variable (c fields longMode fieldTypes) in
/-- What an entry shows in a reply of its own, without a row if it failed. -/
def entryRows (hidden : Option (List String)) (s : SecurityElements) : List NamedRow :=
  shownRows (decodeRefData c fields longMode fieldTypes hidden false [] ⟨none, [s]⟩)

theorem entryRows_eq (hi : Option (List String)) (s : SecurityElements) :
    entryRows c fields longMode fieldTypes hi s =
      ((refFormat c fields longMode fieldTypes).refRows false s).map
        (showRow c fields longMode fieldTypes) := by
  have hr := (shownRows_decodeRefData c fields longMode fieldTypes hi false []
    (rfl : (⟨none, [s]⟩ : Message).responseError = none)).1
  rw [entryRows, hr]
  simp

theorem map_showRow_refRows (hi : Option (List String)) (s : SecurityElements) :
    ((refFormat c fields longMode fieldTypes).refRows true s).map
        (showRow c fields longMode fieldTypes) =
      withErrorRows (entryRows c fields longMode fieldTypes hi) (fun ticker e =>
        showRow c fields longMode fieldTypes (errorRow ticker e)) s := by
  unfold withErrorRows
  rw [entryRows_eq]
  unfold Format.refRows
  cases s.error with
  | none => rfl
  | some e => rfl

/-- With the rows of failed securities, a reply shows one row for each of them, in which its ticker
and the text of its error can be read, and else the rows of the reply without them, exactly if no
security failed or the columns of such a row are columns of text. -/
theorem decodeRefData_surfaces_errors_iff (hidden : Option (List String)) (partials : List Message)
    {final : Message} (hfinal : final.responseError = none) :
    (∃ batch errorRow,
      decodeRefData c fields longMode fieldTypes hidden true partials final = .ok batch ∧
      namedRows batch = ((partials ++ [final]).flatMap Message.securityData).flatMap
        (withErrorRows (entryRows c fields longMode fieldTypes hidden) errorRow) ∧
      shownRows (decodeRefData c fields longMode fieldTypes hidden false partials final) =
        ((partials ++ [final]).flatMap Message.securityData).flatMap
          (entryRows c fields longMode fieldTypes hidden) ∧
      ∀ s ∈ (partials ++ [final]).flatMap Message.securityData, ∀ error, s.error = some error →
        Surfaces longMode s.ticker error (errorRow s.ticker error)) ↔
      (∀ s ∈ (partials ++ [final]).flatMap Message.securityData, s.error = none) ∨
        TextColumns fields fieldTypes longMode := by
  have hwith := shownRows_decodeRefData c fields longMode fieldTypes hidden true partials hfinal
  have hwithout :=
    (shownRows_decodeRefData c fields longMode fieldTypes hidden false partials hfinal).1
  obtain ⟨batch, hbatch⟩ := hwith.2 rfl
  have hrows := hwith.1
  rw [hbatch, shownRows, flatMap_congr fun s _ => map_showRow_refRows hidden s] at hrows
  rw [flatMap_congr fun s _ => (entryRows_eq hidden s).symm] at hwithout
  generalize (partials ++ [final]).flatMap Message.securityData = entries at hrows hwithout ⊢
  constructor
  · rintro ⟨same, shown, hsame, hshown, -, hsurfaces⟩
    obtain rfl := Except.ok.inj (hbatch.symm.trans hsame)
    by_contra hneither
    obtain ⟨hfailed, htext⟩ := not_or.mp hneither
    push Not at hfailed
    obtain ⟨s, hs, herror⟩ := hfailed
    obtain ⟨error, herror⟩ := Option.ne_none_iff_exists'.mp herror
    -- The rows of the other entries are the same, so that both error rows are at the same place.
    have hplace := eq_of_flatMap_eq (fun s _ => by unfold withErrorRows; split <;> rfl)
      (hshown.symm.trans hrows) s hs
    simp only [withErrorRows, herror, cons.injEq, and_true] at hplace
    have hread := hsurfaces s hs error herror
    rw [hplace] at hread
    exact htext ((surfaces_errorRow_iff c fields fieldTypes longMode s.ticker error).mp hread)
  · intro hreadable
    refine ⟨batch, _, hbatch, hrows, hwithout, fun s hs error herror => ?_⟩
    rcases hreadable with hnone | htext
    · rw [hnone s hs] at herror
      cases herror
    · exact (surfaces_errorRow_iff c fields fieldTypes longMode s.ticker error).mpr htext

end Decode

def sampleFailure : SecurityErrorMeta := ⟨"BAD_SEC", 15, "INVALID_SECURITY", "Unknown"⟩

def sampleMixed : Message :=
  ⟨none, [⟨some "A", none, none, some (some sampleFailure), []⟩,
    ⟨some "B", some ⟨fun _ => some (.float64 ⟨0#64⟩), [], none, none⟩, none, none, []⟩]⟩

/-- One of the two requested fields is a number. -/
theorem decodeRefData_surfaces_errors_mixed : ∃ batch errorRow,
      decodeRefData sampleConversions ["PX_LAST", "NAME"] .string
        ((∅ : Map String ArrowType).insert "PX_LAST" .float64) none true [] sampleMixed =
          .ok batch ∧
      namedRows batch = sampleMixed.securityData.flatMap (withErrorRows
        (entryRows sampleConversions ["PX_LAST", "NAME"] .string
          ((∅ : Map String ArrowType).insert "PX_LAST" .float64) none) errorRow) ∧
      Surfaces .string "A" sampleFailure (errorRow "A" sampleFailure) := by
  have h : TextColumns ["PX_LAST", "NAME"] ((∅ : Map String ArrowType).insert "PX_LAST" .float64)
      .string := rfl
  obtain ⟨batch, errorRow, hbatch, hrows, -, hsurfaces⟩ :=
    (decodeRefData_surfaces_errors_iff none []
      (rfl : sampleMixed.responseError = none)).mpr (.inr h)
  exact ⟨batch, errorRow, hbatch, hrows, hsurfaces _ mem_cons_self _ rfl⟩

def sampleLost : List NamedRow :=
  [[("ticker", some (.string "A")), ("field", some (.string "__SECURITY_ERROR__")),
      ("value", none)],
    [("ticker", some (.string "B")), ("field", some (.string "PX_LAST")),
      ("value", some (.float64 ⟨0#64⟩))]]

/-- With a hint of a number for each requested field the text of the error is lost. -/
theorem decodeRefData_loses_error :
    ∃ batch, decodeRefData sampleConversions ["PX_LAST"] .string
        ((∅ : Map String ArrowType).insert "PX_LAST" .float64) none true [] sampleMixed =
          .ok batch ∧
      namedRows batch = sampleLost ∧
      ∀ row ∈ sampleLost, ¬ Surfaces .string "A" sampleFailure row := by
  have hlost : ∀ row ∈ sampleLost,
      row.cell "value" ≠ some (.string (errorDetail sampleFailure)) := by
    decide
  exact ⟨_, rfl, rfl, fun row hrow hsurfaces => hlost row hrow hsurfaces.detail_eq⟩

end Xbbg.Responses
