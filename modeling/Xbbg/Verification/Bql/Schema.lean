import Xbbg.Verification.Bql.Attribution

/-! # Schemas of BQL tables

Secondary columns give way to names that are taken, primary columns do not. So the names of a table
are distinct as long as no primary field is called like a secondary column before it, and nothing
like the tickers. -/

namespace Xbbg.Bql

open List

variable {lowercase : String → String} {names : List String} {results : List (String × ResultField)}

/-! ## The names of columns -/

def askedNames (lowercase : String → String) (columns : List ColumnView) : List String :=
  columns.filterMap fun column => column.name.map lowercase

/-- Secondary columns take distinct names, none of them taken before. All the names they ask for
are taken then. -/
structure TakesNames (lowercase : String → String) (secondary : List ColumnView)
    (names : List String) (result : List Origin × List String) : Prop where
  nodup : (result.1.map Origin.name).Nodup
  fresh : ∀ name ∈ names, name ∉ result.1.map Origin.name
  taken : ∀ name, name ∈ result.2 ↔ name ∈ names ∨ name ∈ result.1.map Origin.name
  asked : ∀ name, name ∈ result.2 ↔ name ∈ names ∨ name ∈ askedNames lowercase secondary

theorem takesNames_secondaryOrigins (lowercase : String → String) (f : ResultField)
    (secondary : List ColumnView) (names : List String) :
    TakesNames lowercase secondary names (secondaryOrigins lowercase f secondary names) := by
  induction secondary generalizing names with
  | nil => constructor <;> simp [secondaryOrigins, askedNames]
  | cons col rest ih =>
    rw [secondaryOrigins]
    cases hn : col.name.map lowercase with
    | none => exact { ih names with asked := by simpa [askedNames, hn] using (ih names).asked }
    | some name =>
      have hasked : askedNames lowercase (col :: rest) = name :: askedNames lowercase rest := by
        rw [askedNames, filterMap_cons, hn, askedNames]
      dsimp only
      by_cases ht : names.contains name = true
      · rw [if_pos ht]
        refine { ih names with asked := fun o => ?_ }
        have hname : name ∈ names := by simpa using ht
        rw [(ih names).asked, hasked, mem_cons]
        grind
      · rw [if_neg ht]
        obtain ⟨hnodup, hfresh, htaken, hall⟩ := ih (name :: names)
        refine ⟨nodup_cons.mpr ⟨hfresh name mem_cons_self, hnodup⟩, ?_, ?_, ?_⟩
        · intro o ho
          rw [map_cons, mem_cons, not_or]
          refine ⟨?_, hfresh o (mem_cons_of_mem _ ho)⟩
          rintro rfl
          exact ht (by simpa using ho)
        · intro o
          rw [htaken, map_cons, mem_cons, mem_cons]
          tauto
        · intro o
          rw [hall, hasked, mem_cons, mem_cons]
          tauto

/-- No primary field is called like a secondary column of its own or of an earlier field. -/
structure Unshadowed (lowercase : String → String) (results : List (String × ResultField)) :
    Prop where
  own : ∀ entry ∈ results, entry.1 ∉ askedNames lowercase entry.2.secondaryColumns
  earlier : results.Pairwise fun a b => b.1 ∉ askedNames lowercase a.2.secondaryColumns

theorem unshadowed_cons {e : String × ResultField} : Unshadowed lowercase (e :: results) ↔
    (e.1 ∉ askedNames lowercase e.2.secondaryColumns ∧
      ∀ a ∈ results, a.1 ∉ askedNames lowercase e.2.secondaryColumns) ∧
    Unshadowed lowercase results := by
  constructor
  · rintro ⟨ho, he⟩
    rw [forall_mem_cons] at ho
    rw [pairwise_cons] at he
    exact ⟨⟨ho.1, he.1⟩, ho.2, he.2⟩
  · rintro ⟨⟨ho, he⟩, h⟩
    exact ⟨forall_mem_cons.mpr ⟨ho, h.own⟩, pairwise_cons.mpr ⟨he, h.earlier⟩⟩

/-- The names of the columns are new and distinct exactly if those of the fields are new and not
shadowed. -/
theorem distinct_origins_iff (hk : (results.map Prod.fst).Nodup) :
    ((origins lowercase results names).map Origin.name).Nodup ∧
        (∀ name ∈ names, name ∉ (origins lowercase results names).map Origin.name) ↔
      Unshadowed lowercase results ∧ ∀ e ∈ results, e.1 ∉ names := by
  induction results generalizing names with
  | nil => simp [origins, show Unshadowed lowercase [] from ⟨by simp, .nil⟩]
  | cons e rest ih =>
    obtain ⟨fieldName, f⟩ := e
    rw [map_cons, nodup_cons] at hk
    obtain ⟨hnodup, hfresh, htaken, hasked⟩ :=
      takesNames_secondaryOrigins lowercase f f.secondaryColumns names
    rw [origins, unshadowed_cons, forall_mem_cons]
    generalize secondaryOrigins lowercase f f.secondaryColumns names = taken at *
    have hrest := @ih (fieldName :: taken.2) hk.2
    have hkey : ∀ e ∈ rest, e.1 ≠ fieldName := fun e he h =>
      hk.1 (mem_map.mpr ⟨e, he, h⟩)
    rw [map_append, map_cons, nodup_append, nodup_cons]
    generalize (origins lowercase rest (fieldName :: taken.2)).map Origin.name = later at *
    -- both sides say that the field's name is not taken, and what they say of the rest
    trans fieldName ∉ taken.2 ∧ later.Nodup ∧ ∀ name ∈ fieldName :: taken.2, name ∉ later
    · grind
    · rw [hrest]
      grind

/-- The columns are called like the fields, or as a secondary column asks. -/
theorem mem_origins_iff {name : String} : name ∈ names ∨
      name ∈ (origins lowercase results names).map Origin.name ↔
    name ∈ names ∨ ∃ e ∈ results,
      name = e.1 ∨ name ∈ askedNames lowercase e.2.secondaryColumns := by
  induction results generalizing names with
  | nil => simp [origins]
  | cons e rest ih =>
    obtain ⟨-, -, htaken, hasked⟩ :=
      takesNames_secondaryOrigins lowercase e.2 e.2.secondaryColumns names
    rw [origins, map_append, map_cons, mem_append, mem_cons, exists_mem_cons_iff]
    have hrest := @ih (e.1 :: (secondaryOrigins lowercase e.2 e.2.secondaryColumns names).2)
    rw [mem_cons] at hrest
    have ht := htaken name
    have ha := hasked name
    grind

theorem primary_mem_origins {e : String × ResultField} (h : e ∈ results) (names : List String) :
    (⟨e.2, e.1, e.2.valueColumn⟩ : Origin) ∈ origins lowercase results names := by
  induction results generalizing names with
  | nil => cases h
  | cons a rest ih =>
    rw [origins]
    apply mem_append_right
    rcases mem_cons.mp h with rfl | h
    · exact mem_cons_self
    · exact mem_cons_of_mem _ (ih h _)

/-! ## Well-formed tables -/

variable {f : Formats}

/-- The columns have distinct names and are as long as the chosen id column, and every field of the
results has its own. -/
structure WellFormed (f : Formats) (results : List (String × ResultField)) (batch : RecordBatch) :
    Prop where
  distinct : (batch.columns.map Column.name).Nodup
  rows : ∀ column ∈ batch.columns, column.values.length = (chosenIds results).length
  primary : ∀ entry ∈ results,
    appendColumn f entry.1 entry.2.valueColumn (chosenIds results).length ∈ batch.columns

/-- Nothing else is called like the tickers, and no primary field like a secondary column before
it. -/
structure Apart (lowercase : String → String) (results : List (String × ResultField)) : Prop
    extends Unshadowed lowercase results where
  ticker : ∀ entry ∈ results, entry.1 ≠ "ticker" ∧
    "ticker" ∉ askedNames lowercase entry.2.secondaryColumns

theorem distinct_iff_apart (hk : (results.map Prod.fst).Nodup) :
    ("ticker" :: (origins f.lowercase results []).map Origin.name).Nodup ↔
      Apart f.lowercase results := by
  have hnew : ((origins f.lowercase results []).map Origin.name).Nodup ↔
      Unshadowed f.lowercase results := by
    simpa using @distinct_origins_iff f.lowercase [] results hk
  have hticker := @mem_origins_iff f.lowercase [] results "ticker"
  simp only [not_mem_nil, false_or] at hticker
  rw [nodup_cons, hnew, hticker]
  constructor
  · rintro ⟨ht, hu⟩
    exact ⟨hu, fun e he => ⟨fun h => ht ⟨e, he, .inl h.symm⟩, fun h => ht ⟨e, he, .inr h⟩⟩⟩
  · rintro ⟨hu, ht⟩
    exact ⟨fun ⟨e, he, h⟩ => h.elim (fun h => (ht e he).1 h.symm) (ht e he).2, hu⟩

/-- A table has a column for each primary field and columns of one length. Its names are distinct
exactly if nothing else is called like the tickers and no primary field like a secondary column
before it. -/
theorem wellFormed_parseBqlJson_iff {reply : Reply} {batch : RecordBatch}
    (h : parseBqlJson f reply = .ok batch) (hkeys : (reply.results.map Prod.fst).Nodup) :
    WellFormed f reply.results batch ↔ Apart f.lowercase reply.results := by
  obtain ⟨requestId, exceptions, hmaterialize⟩ := exists_materialize_of_parseBqlJson h
  obtain ⟨hcolumns, hrows⟩ := eq_of_materialize hmaterialize
  have hnames : batch.columns.map Column.name =
      "ticker" :: (origins f.lowercase reply.results []).map Origin.name := by
    rw [hcolumns, map_cons, map_map]
    rfl
  constructor
  · intro hwell
    exact (distinct_iff_apart hkeys).mp (hnames ▸ hwell.distinct)
  · intro hapart
    refine ⟨hnames ▸ (distinct_iff_apart hkeys).mpr hapart, ?_, ?_⟩
    · intro column hmem
      rw [batch.rectangular column hmem, hrows]
    · intro entry hentry
      rw [hcolumns]
      apply mem_cons_of_mem
      exact mem_map_of_mem (primary_mem_origins hentry [])

/-! ## A field called like a secondary column -/

/-- One field over a security, with a secondary column of the given name. -/
def fieldWithSecondary (fieldName secondary : String) : Reply :=
  .typed ⟨none, none, some [(fieldName, { textField ["AAPL"] ["1"] with
    secondaryColumns := [{ name := some secondary, values := [.string "2024-01-02"] }] })]⟩

/-- Both columns of the field are called `date`. -/
theorem parseBqlJson_repeats_name :
    ∃ batch, parseBqlJson textFormats (fieldWithSecondary "date" "date") = .ok batch ∧
      ((fieldWithSecondary "date" "date").results.map Prod.fst).Nodup ∧
      batch.columns.map Column.name = ["ticker", "date", "date"] :=
  ⟨_, rfl, by decide, rfl⟩

theorem wellFormed_parseBqlJson_price :
    ∃ batch, parseBqlJson textFormats (fieldWithSecondary "price" "date") = .ok batch ∧
      WellFormed textFormats (fieldWithSecondary "price" "date").results batch := by
  refine ⟨_, rfl, (wellFormed_parseBqlJson_iff rfl (by decide)).mpr ⟨⟨?_, ?_⟩, ?_⟩⟩
  · intro entry hentry
    obtain rfl := mem_singleton.mp hentry
    decide
  · exact pairwise_singleton _ _
  · intro entry hentry
    obtain rfl := mem_singleton.mp hentry
    decide

end Xbbg.Bql
