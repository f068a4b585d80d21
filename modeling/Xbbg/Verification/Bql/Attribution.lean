import Mathlib.Data.List.Basic
import Xbbg.Model.Bql

/-! # Rows of BQL tables

The rows are those of one id column, and every column is laid beside it by position. A value is
shown with its own id where the id column of its field agrees with the chosen one. -/

namespace Xbbg.Bql

open List

variable {batch : RecordBatch}

/-! ## Where columns come from -/

/-- A column of the table: its name, and the field and column it is taken from. -/
structure Origin where
  field : ResultField
  name : String
  column : ColumnView

/-- The secondary columns of a field whose names are not taken, and the names taken after them. -/
def secondaryOrigins (lowercase : String → String) (field : ResultField) :
    List ColumnView → List String → List Origin × List String
  | [], names => ([], names)
  | column :: rest, names =>
    match column.name.map lowercase with
    | none => secondaryOrigins lowercase field rest names
    | some name =>
      if names.contains name then secondaryOrigins lowercase field rest names
      else
        let (origins, taken) := secondaryOrigins lowercase field rest (name :: names)
        (⟨field, name, column⟩ :: origins, taken)

/-- The columns behind the tickers: each field is preceded by its secondary columns. -/
def origins (lowercase : String → String) : List (String × ResultField) → List String → List Origin
  | [], _ => []
  | (fieldName, field) :: rest, names =>
    let (secondary, taken) := secondaryOrigins lowercase field field.secondaryColumns names
    secondary ++ ⟨field, fieldName, field.valueColumn⟩ ::
      origins lowercase rest (fieldName :: taken)

variable (f : Formats)

def Origin.render (rowCount : ℕ) (origin : Origin) : Column :=
  appendColumn f origin.name origin.column rowCount

theorem appendSecondaryColumns_eq (rowCount : ℕ) (field : ResultField) (secondary : List ColumnView)
    (cols : List Column) (ns : List String) :
    appendSecondaryColumns f rowCount secondary (cols, ns) =
      (cols ++ (secondaryOrigins f.lowercase field secondary ns).1.map (Origin.render f rowCount),
        (secondaryOrigins f.lowercase field secondary ns).2) := by
  induction secondary generalizing cols ns with
  | nil => simp [appendSecondaryColumns, secondaryOrigins]
  | cons col rest ih =>
    rw [appendSecondaryColumns, secondaryOrigins]
    cases col.name.map f.lowercase with
    | none => exact ih cols ns
    | some name =>
      dsimp only
      by_cases ht : ns.contains name = true
      · rw [if_pos ht, if_pos ht]
        exact ih cols ns
      · rw [if_neg ht, if_neg ht, ih]
        simp only [map_cons, append_assoc, singleton_append]
        rfl

theorem appendFields_eq (rowCount : ℕ) (rs : List (String × ResultField))
    (cols : List Column) (ns : List String) : (appendFields f rowCount rs (cols, ns)).1 =
      cols ++ (origins f.lowercase rs ns).map (Origin.render f rowCount) := by
  induction rs generalizing cols ns with
  | nil => simp [appendFields, origins]
  | cons e rest ih =>
    obtain ⟨fieldName, field⟩ := e
    rw [appendFields, origins, appendSecondaryColumns_eq f rowCount field]
    dsimp only
    rw [ih]
    simp only [map_append, map_cons, append_assoc, singleton_append]
    rfl

/-! ## What a table shows -/

inductive Shown where
  | text (value : String)
  | number (value : F64)
  deriving DecidableEq, Repr

def Values.shown : Values → ℕ → Option Shown
  | utf8 cells, row => cells[row]?.join.map .text
  | float64 cells, row => cells[row]?.join.map .number

/-- The value in a row of a column, if it is not null. -/
def RecordBatch.shown (batch : RecordBatch) (column row : ℕ) : Option Shown :=
  batch.columns[column]?.bind fun column => column.values.shown row

def CellView.shown (numeric : Bool) (cell : CellView) : Option Shown :=
  if numeric then (cell.asF64 f).map .number else (cell.asString f).map .text

theorem shown_appendColumn (name : String) (col : ColumnView) (rowCount row : ℕ) :
    (appendColumn f name col rowCount).values.shown row = if row < rowCount then
        col.values[row]?.bind (CellView.shown f (col.isNumeric rowCount))
      else none := by
  rw [appendColumn]
  by_cases hr : row < rowCount
  · cases col.isNumeric rowCount <;> cases hc : col.values[row]? <;>
      simp [Values.shown, hr, hc, CellView.shown]
  · cases col.isNumeric rowCount <;> simp [Values.shown, hr]

/-- The field pairs an id and a value: at some position its id column shows the id and the column
the value. -/
def Origin.Pairs (rowCount : ℕ) (origin : Origin) (ticker : String) (value : Shown) : Prop :=
  ∃ position : ℕ, origin.field.idValues[position]?.bind (CellView.asId f) = some ticker ∧
    origin.column.values[position]?.bind (CellView.shown f (origin.column.isNumeric rowCount)) =
      some value

/-- Behind the tickers there is one column for each origin, and every value in it is one that the
field of the origin pairs with the ticker of its row. -/
structure Attributed (results : List (String × ResultField)) (batch : RecordBatch) : Prop where
  names : batch.columns.map Column.name =
    "ticker" :: (origins f.lowercase results []).map Origin.name
  paired : ∀ k origin, (origins f.lowercase results [])[k]? = some origin →
    ∀ row value, batch.shown (k + 1) row = some value →
      ∃ ticker, batch.shown 0 row = some (.text ticker) ∧ origin.Pairs f batch.numRows ticker value

/-- By position, the ticker of a row is the id in the chosen column, and what a column shows is the
value of its origin, which the field pairs with this ticker if it has the same id there. -/
structure Positioned (results : List (String × ResultField)) (batch : RecordBatch) : Prop where
  names : batch.columns.map Column.name =
    "ticker" :: (origins f.lowercase results []).map Origin.name
  tickers : ∀ row < batch.numRows, ∃ ticker, batch.shown 0 row = some (.text ticker) ∧
    (chosenIds results)[row]?.bind (CellView.asId f) = some ticker
  values : ∀ k origin, (origins f.lowercase results [])[k]? = some origin →
    ∀ row, batch.shown (k + 1) row = if row < batch.numRows then
      origin.column.values[row]?.bind (CellView.shown f (origin.column.isNumeric batch.numRows))
    else none
  paired : ∀ k origin, (origins f.lowercase results [])[k]? = some origin →
    ∀ row value, batch.shown (k + 1) row = some value →
      origin.field.idValues[row]?.bind (CellView.asId f) =
        (chosenIds results)[row]?.bind (CellView.asId f) →
      ∃ ticker, batch.shown 0 row = some (.text ticker) ∧ origin.Pairs f batch.numRows ticker value

theorem asId_isSome (cell : CellView) : (cell.asId f).isSome = true := by
  cases cell <;> rfl

variable {f}

theorem RecordBatch.eq_of_tryNew {ticker : Column} {cols : List Column}
    (h : RecordBatch.tryNew ticker cols = .ok batch) :
    batch.columns = ticker :: cols ∧ batch.numRows = ticker.values.length := by
  unfold RecordBatch.tryNew at h
  split at h
  · rw [← Except.ok.inj h]
    exact ⟨rfl, rfl⟩
  · cases h

variable {exceptions : List ExceptionView} {requestId : Option String}
  {rs : List (String × ResultField)}

theorem eq_of_materialize (h : materialize f requestId exceptions rs = .ok batch) :
    batch.columns = ⟨"ticker", .utf8 ((chosenIds rs).map (CellView.asId f))⟩ ::
        (origins f.lowercase rs []).map (Origin.render f (chosenIds rs).length) ∧
      batch.numRows = (chosenIds rs).length := by
  unfold materialize at h
  split at h
  · rename_i he
    obtain rfl := isEmpty_iff.mp he
    split at h
    · cases h
    · exact RecordBatch.eq_of_tryNew h
  · obtain ⟨hc, hr⟩ := RecordBatch.eq_of_tryNew h
    rw [appendFields_eq, nil_append] at hc
    exact ⟨hc, by simpa [Values.length] using hr⟩

theorem positioned_of_materialize (h : materialize f requestId exceptions rs = .ok batch) :
    Positioned f rs batch := by
  obtain ⟨hc, hro⟩ := eq_of_materialize h
  have ht : ∀ row < batch.numRows, ∃ ticker, batch.shown 0 row = some (.text ticker) ∧
      (chosenIds rs)[row]?.bind (CellView.asId f) = some ticker := by
    intro row hr
    rw [hro] at hr
    obtain ⟨ticker, ht⟩ := Option.isSome_iff_exists.mp (asId_isSome f ((chosenIds rs)[row]))
    refine ⟨ticker, ?_, by rw [getElem?_eq_getElem hr, Option.bind_some, ht]⟩
    rw [RecordBatch.shown, hc]
    simp [Values.shown, ht, hr]
  have hv : ∀ k origin, (origins f.lowercase rs [])[k]? = some origin →
      ∀ row, batch.shown (k + 1) row = if row < batch.numRows then
        origin.column.values[row]?.bind (CellView.shown f (origin.column.isNumeric batch.numRows))
      else none := by
    intro k origin ho row
    rw [RecordBatch.shown, hc, getElem?_cons_succ, getElem?_map, ho, hro]
    exact shown_appendColumn f origin.name origin.column _ row
  refine ⟨by rw [hc, map_cons, map_map]; rfl, ht, hv, ?_⟩
  intro k origin ho row v hs hid
  rw [hv k origin ho row] at hs
  obtain ⟨hr, hs⟩ := Option.ite_none_right_eq_some.mp hs
  obtain ⟨ticker, hti, hch⟩ := ht row hr
  exact ⟨ticker, hti, row, hid.trans hch, hs⟩

/-! ## Replies -/

def Reply.results : Reply → List (String × ResultField)
  | .typed response => (response.results.getD []).map fun entry => (entry.1, entry.2.view)
  | .value response =>
    match response.get "results" with
    | some (.object results) => results.map fun entry => (entry.1, jsonField entry.2)
    | _ => []

theorem exists_materialize_of_parseBqlJson {reply : Reply} (h : parseBqlJson f reply = .ok batch) :
    ∃ requestId exceptions, materialize f requestId exceptions reply.results = .ok batch := by
  cases reply with
  | typed resp => exact ⟨_, _, h⟩
  | value resp =>
    rw [parseBqlJson, fromValue] at h
    rw [Reply.results]
    split at h
    · rename_i rs hr
      rw [hr]
      exact ⟨_, _, h⟩
    · rename_i hr
      rw [hr]
      exact ⟨_, _, h⟩
    · rename_i hr
      rw [hr]
      exact ⟨_, _, h⟩
    · cases h

theorem positioned_of_parseBqlJson {reply : Reply} {batch : RecordBatch}
    (h : parseBqlJson f reply = .ok batch) : Positioned f reply.results batch := by
  obtain ⟨requestId, exceptions, hmaterialize⟩ := exists_materialize_of_parseBqlJson h
  exact positioned_of_materialize hmaterialize

/-! ## Id columns in different orders -/

def textFormats : Formats where
  ofSigned _ := ⟨0#64⟩
  ofUnsigned _ := ⟨0#64⟩
  parse _ := none
  display _ := ""
  displayJson _ := ""
  lowercase s := s

def textField (ids values : List String) : BqlJsonField where
  idColumn := some { values := ids.map .string }
  valuesColumn := some { typeHint := some "STRING", values := values.map .string }
  secondaryColumns := []
  responseExceptions := none

/-- Two fields over the same two securities; the second has the given ids. -/
def currencyAndSector (ids sectors : List String) : Reply :=
  .typed ⟨none, none, some [("currency", textField ["AAPL", "VOD"] ["USD", "GBP"]),
    ("sector", textField ids sectors)]⟩

/-- The sector of `VOD` is shown with `AAPL`. -/
theorem parseBqlJson_swaps_sectors :
    ∃ batch, parseBqlJson textFormats (currencyAndSector ["VOD", "AAPL"] ["Telecom", "Tech"]) =
        .ok batch ∧
      batch.shown 0 0 = some (.text "AAPL") ∧ batch.shown 2 0 = some (.text "Telecom") ∧
      ¬Attributed textFormats
        (currencyAndSector ["VOD", "AAPL"] ["Telecom", "Tech"]).results batch := by
  refine ⟨_, rfl, rfl, rfl, ?_⟩
  intro hattributed
  obtain ⟨ticker, hticker, position, hid, hvalue⟩ :=
    hattributed.paired 1 _ rfl 0 (.text "Telecom") rfl
  obtain rfl : "AAPL" = ticker := Shown.text.inj (Option.some.inj hticker)
  rcases position with _ | _ | position
  · exact absurd hid (by decide)
  · exact absurd hvalue (by decide)
  · cases hvalue

/-- The currency that is shown with `AAPL` is its own, from the field of the chosen ids. -/
theorem positioned_of_parseBqlJson_swapped :
    ∃ batch, parseBqlJson textFormats (currencyAndSector ["VOD", "AAPL"] ["Telecom", "Tech"]) =
        .ok batch ∧
      Positioned textFormats
        (currencyAndSector ["VOD", "AAPL"] ["Telecom", "Tech"]).results batch ∧
      batch.shown 1 0 = some (.text "USD") ∧ ∃ field, Origin.Pairs textFormats 2
        ⟨field, "currency", field.valueColumn⟩ "AAPL" (.text "USD") := by
  have h : parseBqlJson textFormats (currencyAndSector ["VOD", "AAPL"] ["Telecom", "Tech"]) =
      .ok _ := rfl
  have hpositioned := positioned_of_parseBqlJson h
  obtain ⟨ticker, hticker, hpairs⟩ := hpositioned.paired 0 _ rfl 0 (.text "USD") rfl rfl
  obtain rfl : "AAPL" = ticker := Shown.text.inj (Option.some.inj hticker)
  exact ⟨_, h, hpositioned, rfl, _, hpairs⟩

end Xbbg.Bql
