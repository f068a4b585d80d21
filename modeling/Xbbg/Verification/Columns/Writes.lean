import Xbbg.Verification.Columns.Batches

/-! # Columns by name hold what was written to them

Every name that was written has one column. The first write fixes its type, and its builder is what
the writes to it make of one another, each at its row. With one write for each row at most, that is
the table of the written values, with nulls where nothing was written. -/

namespace Xbbg.Columns

open List Library Diagnostics ColumnSet

variable {c : Conversions} {name : String} {batch : RecordBatch} {s : ColumnSet}

/-! ## Writes -/

/-- A value, or a null, for the column of a name. -/
abbrev Write := String × Option Value

/-- The type that a first write gives its column. -/
def Write.type (write : Write) : ArrowType := write.2.elim .string .fromValue

/-- The type of the column of a name, by the first write to it. -/
def columnType (writes : List Write) (name : String) : Option ArrowType :=
  (writes.find? fun write => write.1 == name).map Write.type

def cellsOf (c : Conversions) (arrowType : ArrowType) (name : String) (writes : List Write) :
    List (Option Cell) :=
  (writes.filter fun write => write.1 == name).map fun write => cellOf c arrowType write.2

/-- A write with its row and the type that it gives to a new column. -/
structure Entry where
  row : ℕ
  firstType : ArrowType
  write : Write

abbrev Log := List Entry

namespace Log

def names (log : Log) : List String := (log.map fun entry => entry.write.1).eraseDups

def entries (log : Log) (name : String) : Log := log.filter fun entry => entry.write.1 = name

def typeOf (log : Log) (name : String) : ArrowType :=
  ((log.entries name).head?.map Entry.firstType).getD .string

def valueAt (log : Log) (name : String) (row : ℕ) : Option Value :=
  ((log.entries name).find? fun entry => entry.row = row).bind fun entry => entry.write.2

/-- No column is written twice in a row, and rows are written in their order. -/
def Once (log : Log) : Prop :=
  log.Pairwise fun a b => a.row ≤ b.row ∧ (a.write.1 = b.write.1 → a.row ≠ b.row)

theorem entries_append (log : Log) (entry : Entry) (name : String) :
    entries (log ++ [entry]) name =
      log.entries name ++ if entry.write.1 = name then [entry] else [] := by
  by_cases h : entry.write.1 = name <;> simp [entries, h]

theorem mem_names {log : Log} : name ∈ log.names ↔ log.entries name ≠ [] := by
  simp [names, entries, mem_eraseDups]

theorem names_append (log : Log) (e : Entry) : names (log ++ [e]) =
      if e.write.1 ∈ log.names then log.names else log.names ++ [e.write.1] := by
  simp only [names, map_append, map_singleton, eraseDups_concat, mem_eraseDups]

theorem Once.pairwise {log : Log} (h : log.Once) (name : String) :
    (log.entries name).Pairwise fun a b => a.row < b.row := by
  refine (Pairwise.filter _ h).imp_of_mem ?_
  intro a b ha hb hab
  have hne : a.write.1 = b.write.1 :=
    (of_decide_eq_true (mem_filter.mp ha).2).trans (of_decide_eq_true (mem_filter.mp hb).2).symm
  exact lt_of_le_of_ne hab.1 (hab.2 hne)

end Log

/-! ## Builders -/

/-- A builder after a write: nulls for the rows it missed, and the cell of the value. -/
def grown (c : Conversions) (builder? : Option TypedBuilder) (entry : Entry) :
    Option TypedBuilder :=
  some (((builder?.getD (.new entry.firstType)).padTo entry.row).appendValue c entry.write.2).1

def builderOf (c : Conversions) (entries : Log) : Option TypedBuilder :=
  entries.foldl (grown c) none

theorem builderOf_append (entries : Log) (entry : Entry) :
    builderOf c (entries ++ [entry]) = grown c (builderOf c entries) entry := foldl_append

variable {entries : Log}

theorem builderOf_eq_none : builderOf c entries = none ↔ entries = [] := by
  induction entries using reverseRecOn with
  | nil => exact ⟨fun _ => rfl, fun _ => rfl⟩
  | append_singleton entries entry _ =>
    rw [builderOf_append]
    simp [grown]

variable {builder : TypedBuilder}

theorem dataType_builderOf (h : builderOf c entries = some builder) :
    entries.head?.map Entry.firstType = some builder.dataType := by
  induction entries using reverseRecOn generalizing builder with
  | nil => cases h
  | append_singleton entries entry ih =>
    rw [builderOf_append] at h
    obtain rfl := Option.some.inj h
    cases hb : builderOf c entries with
    | none =>
      rw [builderOf_eq_none.mp hb]
      rfl
    | some old =>
      have hne : entries ≠ [] := fun hn => by rw [builderOf_eq_none.mpr hn] at hb; cases hb
      have hi := ih hb
      rwa [head?_append_of_ne_nil _ hne]

/-- All values that were written are there, in their order. -/
theorem sublist_builderOf (h : builderOf c entries = some builder) :
    (entries.map fun entry => cellOf c builder.dataType entry.write.2).Sublist builder.values := by
  induction entries using reverseRecOn generalizing builder with
  | nil => exact nil_sublist _
  | append_singleton entries entry ih =>
    rw [builderOf_append] at h
    obtain rfl := Option.some.inj h
    rw [map_append]
    refine Sublist.append ?_ (Sublist.refl _)
    refine Sublist.trans ?_ (sublist_append_left _ _)
    cases hb : builderOf c entries with
    | none =>
      rw [builderOf_eq_none.mp hb]
      exact nil_sublist _
    | some old => exact ih hb

theorem join_getElem?_append_nulls {α : Type*} (l : List (Option α)) (k i : ℕ) :
    (l ++ replicate k none)[i]?.join = l[i]?.join := by
  rw [getElem?_append]
  split
  · rfl
  · rename_i hi
    rw [getElem?_eq_none (Nat.le_of_not_lt hi), getElem?_replicate]
    split <;> rfl

/-- A cell in the row of its write, and none in the rows without one. -/
theorem cells_builderOf {n : ℕ}
    (h : builderOf c entries = some builder) (hp : entries.Pairwise fun a b => a.row < b.row)
    (hn : ∀ entry ∈ entries, entry.row < n) :
    builder.values.length ≤ n ∧ ∀ row, builder.values[row]?.join = cellOf c builder.dataType
      ((entries.find? fun entry => entry.row = row).bind (·.write.2)) := by
  induction entries using reverseRecOn generalizing builder n with
  | nil => cases h
  | append_singleton entries entry ih =>
    obtain ⟨hold, -, hlt⟩ := pairwise_append.mp hp
    rw [builderOf_append] at h
    obtain rfl := Option.some.inj h
    have hlast : entry.row < n := hn entry (by simp)
    -- the builder before the write, at the type that it keeps
    obtain ⟨hle, hcells⟩ : ((builderOf c entries).getD (.new entry.firstType)).values.length ≤
          entry.row ∧
        ∀ row, ((builderOf c entries).getD (.new entry.firstType)).values[row]?.join =
          cellOf c ((builderOf c entries).getD (.new entry.firstType)).dataType
            ((entries.find? fun entry => entry.row = row).bind (·.write.2)) := by
      cases hb : builderOf c entries with
      | none =>
        rw [builderOf_eq_none.mp hb]
        exact ⟨Nat.zero_le _, fun row => by simp [cellOf]⟩
      | some old => exact ih hb hold fun e he => hlt e he entry (mem_singleton_self _)
    generalize (builderOf c entries).getD (.new entry.firstType) = old at hle hcells ⊢
    simp only [TypedBuilder.values_appendValue, TypedBuilder.values_padTo,
      TypedBuilder.dataType_appendValue, TypedBuilder.dataType_padTo]
    have hlen : (old.values ++ replicate (entry.row - old.values.length) none).length =
        entry.row := by
      simp
      omega
    refine ⟨by rw [length_append, hlen]; exact hlast, fun row => ?_⟩
    rw [find?_append, getElem?_append, hlen, getElem?_singleton]
    by_cases hrow : row < entry.row
    · rw [if_pos hrow, join_getElem?_append_nulls, hcells, find?_singleton]
      simp [Nat.ne_of_gt hrow]
    · have hnone : entries.find? (fun e => e.row = row) = none := by
        rw [find?_eq_none]
        intro e he
        have := hlt e he entry (mem_singleton_self _)
        simp
        omega
      rw [if_neg hrow, hnone, find?_singleton]
      by_cases heq : entry.row = row
      · simp [heq]
      · have : row - entry.row ≠ 0 := by omega
        simp [heq, this, cellOf]

/-! ## Sets of columns -/

/-- The columns hold the writes of the log, in the order in which they were first written. -/
structure Written (c : Conversions) (log : Log) (s : ColumnSet) : Prop where
  slots : ∀ name (i : ℕ), s.slots.lookup name = some i ↔
    ∃ builder?, s.columns[i]? = some (SlotColumn.mk name builder?)
  built : ∀ (i : ℕ) name builder?, s.columns[i]? = some (SlotColumn.mk name builder?) →
    builder? = builderOf c (log.entries name)
  written : log.names.map s.slots.lookup = s.written.map some
  misses : OnlyMisses s.responseMeta

variable {log : Log} {i : ℕ}

theorem written_new (c : Conversions) (typeHints : Map String ArrowType) :
    Written c [] { typeHints } := by
  refine ⟨?_, ?_, rfl, rfl, rfl⟩ <;> simp

theorem Written.endRow (h : Written c log s) : Written c log s.endRow := { h with }

theorem Written.exists_slot (h : Written c log s) (hn : name ∈ log.names) :
    ∃ i, s.slots.lookup name = some i := by
  have hm := mem_map_of_mem (f := s.slots.lookup) hn
  rw [h.written] at hm
  obtain ⟨i, -, hi⟩ := mem_map.mp hm
  exact ⟨i, hi.symm⟩

theorem Written.slot (h : Written c log s) (name : String) : Written c log (s.slot name).2 ∧
      (s.slot name).2.slots.lookup name = some (s.slot name).1 ∧
      ∀ other i, s.slots.lookup other = some i → (s.slot name).2.slots.lookup other = some i := by
  unfold ColumnSet.slot
  cases hl : s.slots.lookup name with
  | some i => exact ⟨h, hl, fun _ _ ho => ho⟩
  | none =>
    -- a new column at the end, which nothing was written to
    have hne : ∀ other i, s.slots.lookup other = some i → other ≠ name := by
      rintro other i hi rfl
      rw [hl] at hi
      cases hi
    have hg : ∀ (i : ℕ) column, (s.columns ++ [SlotColumn.mk name none])[i]? = some column ↔
        s.columns[i]? = some column ∨ i = s.columns.length ∧ SlotColumn.mk name none = column := by
      intro i column
      rw [getElem?_append, getElem?_singleton]
      by_cases hi : i < s.columns.length
      · simp [hi, Nat.ne_of_lt hi]
      · have : i - s.columns.length = 0 ↔ i = s.columns.length := by omega
        simp [hi, this]
    have hk : ∀ other i, s.slots.lookup other = some i →
        (s.slots.insert name s.columns.length).lookup other = some i := by
      intro other i hi
      rw [Map.lookup_insert_if, if_neg (hne other i hi), hi]
    refine ⟨⟨fun other i => ?_, fun i other builder? hc => ?_, ?_, h.misses⟩, by simp, hk⟩
    · simp only [Map.lookup_insert_if, hg]
      by_cases ho : other = name
      · subst ho
        have hf : ∀ builder?, s.columns[i]? ≠ some (SlotColumn.mk other builder?) := by
          intro builder? hc
          exact hne other i ((h.slots other i).mpr ⟨builder?, hc⟩) rfl
        simp [hf, eq_comm]
      · have ho' : ∀ builder?, SlotColumn.mk name none ≠ SlotColumn.mk other builder? := by
          rintro builder? ⟨⟩
          exact ho rfl
        simp [ho, ho', h.slots other i]
    · rcases (hg i _).mp hc with hc | ⟨-, heq⟩
      · exact h.built i other builder? hc
      · cases heq
        rw [eq_comm, builderOf_eq_none]
        by_contra hn
        obtain ⟨j, hj⟩ := h.exists_slot (Log.mem_names.mpr hn)
        exact hne name j hj rfl
    · rw [← h.written]
      apply map_congr_left
      intro other ho
      obtain ⟨i, hi⟩ := h.exists_slot ho
      rw [hk other i hi, hi]

@[simp] theorem slots_write (c : Conversions) (s : ColumnSet) (i : ℕ) (ty : ArrowType)
    (v : Option Value) : (s.write c i ty v).slots = s.slots := by
  unfold write
  split <;> rfl

@[simp] theorem typeHints_write (c : Conversions) (s : ColumnSet) (i : ℕ) (ty : ArrowType)
    (v : Option Value) : (s.write c i ty v).typeHints = s.typeHints := by
  unfold write
  split <;> rfl

@[simp] theorem rowCount_write (c : Conversions) (s : ColumnSet) (i : ℕ) (ty : ArrowType)
    (v : Option Value) : (s.write c i ty v).rowCount = s.rowCount := by
  unfold write
  split <;> rfl

def entryOf (s : ColumnSet) (arrowType : ArrowType) (write : Write) : Entry :=
  ⟨s.rowCount, (s.typeHints.lookup write.1).getD arrowType, write⟩

@[simp] theorem write_entryOf (s : ColumnSet) (arrowType : ArrowType) (write : Write) :
    (entryOf s arrowType write).write = write := rfl

theorem Written.write (h : Written c log s) (hs : s.slots.lookup name = some i)
    (arrowType : ArrowType) (value : Option Value) :
    Written c (log ++ [entryOf s arrowType (name, value)]) (s.write c i arrowType value) := by
  obtain ⟨builder?, hc⟩ := (h.slots name i).mp hs
  have hb := h.built i name builder? hc
  have hl : i < s.columns.length := (List.getElem?_eq_some_iff.mp hc).1
  -- the columns of other names are where they were
  have hg : ∀ (j : ℕ) other builder', (s.write c i arrowType value).columns[j]? =
      some (SlotColumn.mk other builder') ↔
      (j = i ∧ name = other ∧ grown c builder? (entryOf s arrowType (name, value)) = builder') ∨
        j ≠ i ∧ s.columns[j]? = some (SlotColumn.mk other builder') := by
    intro j other builder'
    simp only [ColumnSet.write, hc]
    by_cases hj : j = i
    · subst hj
      rw [getElem?_set_self hl]
      simp [grown, entryOf]
    · rw [getElem?_set_ne (Ne.symm hj)]
      simp [hj]
  have hi : ∀ other j, s.slots.lookup other = some j → (j = i ↔ name = other) := by
    intro other j hj
    constructor
    · rintro rfl
      obtain ⟨builder', hc'⟩ := (h.slots other j).mp hj
      rw [hc] at hc'
      exact congrArg SlotColumn.name (Option.some.inj hc')
    · rintro rfl
      exact Option.some.inj (hj.symm.trans hs)
  refine ⟨fun other j => ?_, fun j other builder' hc' => ?_, ?_, ?_⟩
  · rw [slots_write]
    simp only [hg]
    by_cases hj : j = i
    · subst hj
      simp only [true_and, ne_eq, not_true, false_and, or_false, exists_and_left, exists_eq',
        and_true]
      exact ⟨fun ho => (hi other j ho).mp rfl, fun ho => ho ▸ hs⟩
    · rw [h.slots other j]
      simp [hj]
  · rcases (hg j other builder').mp hc' with ⟨-, rfl, rfl⟩ | ⟨hj, hc'⟩
    · rw [Log.entries_append, write_entryOf, if_pos rfl, builderOf_append, hb]
    · have hne : name ≠ other := fun ho =>
        hj ((hi other j ((h.slots other j).mpr ⟨builder', hc'⟩)).mpr ho)
      rw [Log.entries_append, write_entryOf, if_neg hne, append_nil]
      exact h.built j other builder' hc'
  · have hn : builder?.isNone = true ↔ name ∉ log.names := by
      rw [Option.isNone_iff_eq_none, hb, builderOf_eq_none, Log.mem_names, not_not]
    have hw : (s.write c i arrowType value).written =
        if builder?.isNone then s.written ++ [i] else s.written := by
      simp only [ColumnSet.write, hc]
    rw [Log.names_append, write_entryOf, slots_write, hw]
    by_cases hm : name ∈ log.names
    · rw [if_pos hm, if_neg (hn.not.mpr (not_not.mpr hm)), h.written]
    · rw [if_neg hm, if_pos (hn.mpr hm), map_append, map_append, h.written,
        map_singleton, map_singleton, ← hs]
  · simp only [ColumnSet.write, hc]
    split
    · exact h.misses.recordTypeMiss _
    · exact h.misses

/-! ## The finished batch -/

def Log.column (c : Conversions) (log : Log) (rowCount : ℕ) (name : String) : Column :=
  ⟨name, ((builderOf c (log.entries name)).getD (.new .string)).padTo rowCount⟩

def finished (s : ColumnSet) (slot : ℕ) : Option Column :=
  (s.columns[slot]?).bind fun column =>
    column.builder.map fun builder => ⟨column.name, builder.padTo s.rowCount⟩

theorem finishColumn_eq (s : ColumnSet) :
    s.finishColumn = fun slot => (finished s slot).map fun col => (col.field, col.array) := by
  funext slot
  unfold finishColumn finished
  cases s.columns[slot]? with
  | none => rfl
  | some col =>
    obtain ⟨name, _ | b⟩ := col <;> rfl

theorem finishWithOrder_of_written (hne : s.written ≠ []) (order : List String) :
    s.finishWithOrder order = built "build RecordBatch" s.responseMeta (RecordBatch.tryNew
      (((s.outputOrder order s.written).filterMap (finished s)).map Column.field) {}
      (((s.outputOrder order s.written).filterMap (finished s)).map Column.array)) := by
  have he : s.written.isEmpty = false := by simpa using hne
  simp only [finishWithOrder, he, Bool.false_and, Bool.false_eq_true, if_false,
    finishColumn_eq]
  rw [map_filterMap, map_filterMap, map_filterMap, map_filterMap]
  simp only [Option.map_map]
  rfl

theorem outputOrder_perm (s : ColumnSet) (order : List String) (remaining : List ℕ) :
    (s.outputOrder order remaining).Perm remaining := by
  induction order generalizing remaining with
  | nil => exact .refl _
  | cons name order ih =>
    unfold outputOrder
    split
    · exact ih remaining
    · split
      · rename_i slot _ hm
        exact ((ih _).cons slot).trans (perm_cons_erase hm).symm
      · exact ih remaining

theorem outputOrder_nil (s : ColumnSet) (order : List String) : s.outputOrder order [] = [] :=
  perm_nil.mp (outputOrder_perm s order [])

/-- An order that begins with the written names keeps the order of the slots. -/
theorem outputOrder_append {ns : List String} {slots : List ℕ}
    (h : ns.map s.slots.lookup = slots.map some) (rest : List String) :
    s.outputOrder (ns ++ rest) slots = slots := by
  induction ns generalizing slots with
  | nil =>
    rw [map_eq_nil_iff.mp h.symm]
    exact outputOrder_nil s _
  | cons name ns ih =>
    cases slots with
    | nil => cases h
    | cons slot slots =>
      obtain ⟨hs, hr⟩ : s.slots.lookup name = some slot ∧ _ := cons.inj h
      simp only [cons_append, outputOrder, hs]
      rw [if_pos mem_cons_self, erase_cons_head, ih hr]

theorem Written.finished (h : Written c log s) (hn : name ∈ log.names)
    (hs : s.slots.lookup name = some i) : finished s i = some (log.column c s.rowCount name) := by
  obtain ⟨b?, hc⟩ := (h.slots name i).mp hs
  obtain ⟨b, hb⟩ := Option.ne_none_iff_exists'.mp
    ((builderOf_eq_none (c := c)).not.mpr (Log.mem_names.mp hn))
  obtain rfl := h.built i name b? hc
  simp [Columns.finished, Log.column, hc, hb]

theorem Written.columns (h : Written c log s) :
    s.written.filterMap (Columns.finished s) = log.names.map (log.column c s.rowCount) := by
  have hall : ∀ (ns : List String) (slots : List ℕ), ns ⊆ log.names →
      ns.map s.slots.lookup = slots.map some →
      slots.filterMap (Columns.finished s) = ns.map (log.column c s.rowCount) := by
    intro ns
    induction ns with
    | nil =>
      intro slots _ he
      rw [map_eq_nil_iff.mp he.symm]
      rfl
    | cons name ns ih =>
      intro slots hsub he
      cases slots with
      | nil => cases he
      | cons slot slots =>
        obtain ⟨hs, hr⟩ := cons.inj he
        obtain ⟨hn, hsub⟩ := cons_subset.mp hsub
        rw [filterMap_cons_some (h.finished hn hs), ih slots hsub hr, map_cons]
  exact hall _ _ (Subset.refl _) h.written

theorem Log.values_column (c : Conversions) {n : ℕ} (hn : name ∈ log.names) (ho : log.Once)
    (hr : ∀ e ∈ log, e.row < n) :
    (log.column c n name).array.dataType = log.typeOf name ∧ (log.column c n name).values =
        (range n).map fun row => cellOf c (log.typeOf name) (log.valueAt name row) := by
  obtain ⟨b, hb⟩ := Option.ne_none_iff_exists'.mp
    ((builderOf_eq_none (c := c)).not.mpr (Log.mem_names.mp hn))
  have ht : log.typeOf name = b.dataType := by
    rw [Log.typeOf, dataType_builderOf hb]
    rfl
  obtain ⟨hl, hcells⟩ := cells_builderOf hb (ho.pairwise name) fun e he =>
    hr e (mem_of_mem_filter he)
  have hc : (log.column c n name).array = b.padTo n := by
    rw [Log.column, hb]
    rfl
  rw [Column.values, hc, ht]
  refine ⟨rfl, ?_⟩
  apply ext_getElem?
  intro row
  have hj := join_getElem?_append_nulls b.values (n - b.values.length) row
  rw [hcells] at hj
  rw [TypedBuilder.values_padTo, getElem?_map]
  have hlen : (b.values ++ replicate (n - b.values.length) none).length = n := by
    simp
    omega
  by_cases hrow : row < n
  · rw [getElem?_range hrow, Option.map_some]
    rw [getElem?_eq_getElem (hrow.trans_eq hlen.symm)] at hj ⊢
    exact congrArg some hj
  · rw [getElem?_eq_none (by omega), getElem?_eq_none (by simp; omega)]
    rfl

/-- With rows that are ended, the columns make a batch, in the given order. -/
theorem Written.exists_finish (h : Written c log s) (hne : log ≠ []) (ho : log.Once)
    (hr : ∀ e ∈ log, e.row < s.rowCount) (order : List String) :
    ∃ batch, s.finishWithOrder order = .ok batch ∧
      batch.columns.Perm (log.names.map (log.column c s.rowCount)) ∧
      (order = [] ∨ log.names <+: order → batch.columns = log.names.map (log.column c s.rowCount)) ∧
      batch.numRows = s.rowCount ∧ batch.metadata = s.responseMeta.attach {} := by
  have hp : ((s.outputOrder order s.written).filterMap (Columns.finished s)).Perm
      (log.names.map (log.column c s.rowCount)) := by
    rw [← h.columns]
    exact (outputOrder_perm s order s.written).filterMap _
  have hnames : log.names ≠ [] := by
    obtain ⟨e, he⟩ := exists_mem_of_ne_nil log hne
    exact ne_nil_of_mem (mem_eraseDups.mpr (mem_map_of_mem he))
  have hw : s.written ≠ [] := by
    intro hn
    have := h.written
    rw [hn] at this
    exact hnames (map_eq_nil_iff.mp this)
  have hl : ∀ col ∈ (s.outputOrder order s.written).filterMap (Columns.finished s),
      col.values.length = s.rowCount := by
    intro col hc
    obtain ⟨name, hn, rfl⟩ := mem_map.mp (hp.mem_iff.mp hc)
    rw [(Log.values_column c hn ho hr).2]
    simp
  have hcols : (s.outputOrder order s.written).filterMap (Columns.finished s) ≠ [] := by
    intro hn
    rw [hn] at hp
    exact hnames (map_eq_nil_iff.mp (nil_perm.mp hp))
  rw [finishWithOrder_of_written hw, tryNew_of_lengths hcols hl]
  refine ⟨_, rfl, hp, ?_, rfl, rfl⟩
  change _ → (s.outputOrder order s.written).filterMap (Columns.finished s) = _
  rw [← h.columns]
  rintro (rfl | ⟨rest, rfl⟩)
  · rfl
  · rw [outputOrder_append h.written]

/-! ## Whole rows -/

/-- The writes of whole rows, each with the type that it gives to a new column. -/
def rowsLog (rows : List (List (ArrowType × Write))) : Log :=
  (rows.mapIdx fun i row => row.map fun write => (⟨i, write.1, write.2⟩ : Entry)).flatten

variable {rows : List (List (ArrowType × Write))} {row : List (ArrowType × Write)}

theorem rowsLog_append (rows : List (List (ArrowType × Write))) (row : List (ArrowType × Write)) :
    rowsLog (rows ++ [row]) = rowsLog rows ++ row.map fun w => ⟨rows.length, w.1, w.2⟩ := by
  simp [rowsLog, mapIdx_concat]

theorem exists_row_of_mem {e : Entry} (h : e ∈ rowsLog rows) :
    ∃ row, rows[e.row]? = some row ∧ (e.firstType, e.write) ∈ row := by
  obtain ⟨_, hm, he⟩ := mem_flatten.mp h
  obtain ⟨i, hi, rfl⟩ := mem_mapIdx.mp hm
  obtain ⟨w, hw, rfl⟩ := mem_map.mp he
  exact ⟨rows[i], getElem?_eq_getElem hi, hw⟩

theorem row_lt_of_mem {e : Entry} (h : e ∈ rowsLog rows) : e.row < rows.length := by
  obtain ⟨row, hr, -⟩ := exists_row_of_mem h
  exact (List.getElem?_eq_some_iff.mp hr).1

theorem once_rowsLog (h : ∀ row ∈ rows, (row.map fun w => w.2.1).Nodup) : (rowsLog rows).Once := by
  induction rows using reverseRecOn with
  | nil => exact Pairwise.nil
  | append_singleton rows row ih =>
    rw [rowsLog_append]
    refine pairwise_append.mpr ⟨ih fun r hr => h r (mem_append_left _ hr), ?_, ?_⟩
    · rw [pairwise_map]
      have hn := h row (by simp)
      rw [nodup_iff_pairwise_ne, pairwise_map] at hn
      exact hn.imp fun hne => ⟨le_rfl, fun heq => absurd heq hne⟩
    · intro a ha b hb
      obtain ⟨w, -, rfl⟩ := mem_map.mp hb
      have := row_lt_of_mem ha
      exact ⟨this.le, fun _ => this.ne⟩

theorem valueAt_rowsLog (rows : List (List (ArrowType × Write))) (name : String) (i : ℕ) :
    (rowsLog rows).valueAt name i =
      (rows[i]?).bind fun row => (row.find? fun w => w.2.1 = name).bind fun w => w.2.2 := by
  induction rows using reverseRecOn with
  | nil => rfl
  | append_singleton rows row ih =>
    simp only [Log.valueAt, Log.entries, find?_filter] at ih ⊢
    rw [rowsLog_append, find?_append, find?_map]
    have hrow : ¬ rows.length = i → row.find? ((fun e : Entry => decide
        (decide (e.write.1 = name) = true ∧ decide (e.row = i) = true)) ∘
          fun w => ⟨rows.length, w.1, w.2⟩) = none := by
      intro hne
      rw [find?_eq_none]
      simp [hne]
    by_cases hi : i < rows.length
    · rw [getElem?_append_left hi, ← ih, hrow (Nat.ne_of_gt hi), Option.map_none, Option.or_none]
    · have hnone : (rowsLog rows).find? (fun e => decide
          (decide (e.write.1 = name) = true ∧ decide (e.row = i) = true)) = none := by
        rw [find?_eq_none]
        intro e he
        have := row_lt_of_mem he
        simp only [decide_eq_true_eq, not_and]
        omega
      rw [hnone, Option.none_or, getElem?_append_right (Nat.le_of_not_lt hi), getElem?_singleton]
      by_cases heq : rows.length = i
      · subst heq
        rw [Function.comp_def]
        simp [Option.bind_map]
      · have : i - rows.length ≠ 0 := by omega
        rw [hrow heq, if_neg this]
        rfl

def rowValue (name : String) (row : List (ArrowType × Write)) : Option Value :=
  (row.find? fun write => write.2.1 = name).bind fun write => write.2.2

theorem values_rowsLog (c : Conversions) (hn : name ∈ (rowsLog rows).names)
    (hd : ∀ row ∈ rows, (row.map fun w => w.2.1).Nodup) :
    ((rowsLog rows).column c rows.length name).values = rows.map fun row =>
      cellOf c ((rowsLog rows).column c rows.length name).array.dataType (rowValue name row) := by
  obtain ⟨ht, hv⟩ := Log.values_column c hn (once_rowsLog hd) fun _ => row_lt_of_mem
  rw [hv, ht]
  apply ext_getElem
  · simp
  · intro i hi hi'
    have hlt : i < rows.length := by simpa using hi'
    rw [getElem_map, getElem_map, getElem_range, valueAt_rowsLog, getElem?_eq_getElem hlt]
    rfl

theorem Written.writeAll (h : Written c log s) {slot : String → ℕ}
    (hs : ∀ write ∈ row, s.slots.lookup write.2.1 = some (slot write.2.1)) {t : ColumnSet}
    (ht : row.foldl (fun s write => s.write c (slot write.2.1) write.1 write.2.2) s = t) :
    Written c (log ++ row.map fun write => entryOf s write.1 write.2) t ∧
      t.slots = s.slots ∧ t.typeHints = s.typeHints ∧ t.rowCount = s.rowCount := by
  induction row generalizing s log with
  | nil =>
    subst ht
    exact ⟨by simpa using h, rfl, rfl, rfl⟩
  | cons write rest ih =>
    have hw := h.write (hs write mem_cons_self) write.1 write.2.2
    obtain ⟨hr, hsl, hty, hro⟩ := ih hw (by
      intro w hm
      rw [slots_write]
      exact hs w (mem_cons_of_mem _ hm)) ht
    rw [append_assoc] at hr
    simp only [entryOf, slots_write, typeHints_write, rowCount_write] at hr hsl hty hro
    exact ⟨hr, hsl, hty, hro⟩

theorem names_rowsLog_isPrefix {names : List String} (hn : names.Nodup)
    (h : ∀ row ∈ rows, (row.map fun write => write.2.1) <+: names) :
    (rowsLog rows).names <+: names := by
  induction rows using reverseRecOn with
  | nil => exact nil_prefix
  | append_singleton rows row ih =>
    have hi := ih fun r hr => h r (mem_append_left _ hr)
    rw [Log.names, rowsLog_append, map_append, map_map]
    exact eraseDups_append_of_isPrefix hn hi (h row (by simp))

end Xbbg.Columns
