import Xbbg.Model.BqlMessages
import Xbbg.Verification.Bql.Attribution
import Xbbg.Verification.Columns.Writes
import Xbbg.Verification.Generic.Flatten

/-! # Partial messages of BQL replies

Rows of all messages gather in the columns. A text takes the place of the text before it, and of
all rows. So nothing is lost as long as one message at most has a text, and then no other message
has anything. -/

namespace Xbbg.Bql

open List Library
open Generic (Element)
open Columns (ColumnSet Conversions Value Write Written Entry columnType cellsOf)

variable (c : Conversions) (sdk : Sdk)

/-! ## What a message carries -/

def jsonText (root : Element) : Option String :=
  match messageStructure sdk root with
  | .json text => some text
  | _ => none

def rowWrites (row : Element) : List Write :=
  (children row).map fun child => (child.nameStr, valueOf sdk child)

def leafWrites (leaf : String × String) : List Write :=
  [("path", some (.string leaf.1)), ("value", some (.string leaf.2))]

def messageWrites (root : Element) : List Write :=
  match messageStructure sdk root with
  | .json _ => []
  | .results results =>
    ((List.range (sdk.len results)).filterMap (sdk.getElement results)).flatMap (rowWrites sdk)
  | .flat => (flattenElement c sdk "" root).flatMap leafWrites

/-! ## Columns without type hints -/

variable {c} {writes : List Write} {s : ColumnSet} {name : String} {i : ℕ}

/-- The columns hold the writes, in their order. -/
structure Gathered (c : Conversions) (writes : List Write) (s : ColumnSet) : Prop where
  hints : s.typeHints = ∅
  log : ∃ log, Written c log s ∧ log.map Entry.write = writes ∧
    ∀ entry ∈ log, entry.firstType = entry.write.type

section

variable (h : Gathered c writes s)
include h

theorem Gathered.endRow : Gathered c writes s.endRow := by
  obtain ⟨log, hw, hl⟩ := h.log
  exact ⟨h.hints, log, hw.endRow, hl⟩

theorem Gathered.slot (name : String) :
    Gathered c writes (s.slot name).2 ∧ (s.slot name).2.slots.lookup name = some (s.slot name).1 ∧
      ∀ o i, s.slots.lookup o = some i → (s.slot name).2.slots.lookup o = some i := by
  obtain ⟨log, hw, hl⟩ := h.log
  obtain ⟨hw, hs, hk⟩ := hw.slot name
  refine ⟨⟨?_, log, hw, hl⟩, hs, hk⟩
  unfold ColumnSet.slot
  split <;> exact h.hints

theorem Gathered.write (hs : s.slots.lookup name = some i) (v : Option Value) :
    Gathered c (writes ++ [(name, v)]) (s.write c i (Write.type (name, v)) v) := by
  obtain ⟨log, hw, rfl, ht⟩ := h.log
  refine ⟨(Columns.typeHints_write ..).trans h.hints, _, hw.write hs _ v, by simp, ?_⟩
  intro e he
  rcases mem_append.mp he with he | he
  · exact ht e he
  · rw [mem_singleton.mp he, Columns.entryOf, h.hints]
    rfl

/-- Every name that was written has one column, of the type of its first write, with all values that
were written to it. -/
theorem Gathered.finish {batch : Columns.RecordBatch} (hok : s.finishWithOrder [] = .ok batch)
    {arrowType : Columns.ArrowType} (hn : columnType writes name = some arrowType) :
    ∃ column ∈ batch.columns, column.name = name ∧ column.array.dataType = arrowType ∧
      (cellsOf c arrowType name writes).Sublist column.values ∧
      ∀ other ∈ batch.columns, other.name = name → other = column := by
  obtain ⟨log, hw, rfl, ht⟩ := h.log
  have hh : (log.entries name).head?.map Entry.firstType = some arrowType := by
    rw [columnType, find?_map, Option.map_map] at hn
    rw [Columns.Log.entries, head?_filter, ← hn]
    exact Option.map_congr fun entry he => ht entry (mem_of_find?_eq_some he)
  have hm : name ∈ log.names := by
    rw [Columns.Log.mem_names]
    rintro he
    rw [he] at hh
    cases hh
  obtain ⟨builder, hb⟩ := Option.ne_none_iff_exists'.mp
    ((Columns.builderOf_eq_none (c := c)).not.mpr (Columns.Log.mem_names.mp hm))
  obtain rfl : builder.dataType = arrowType :=
    Option.some.inj ((Columns.dataType_builderOf hb).symm.trans hh)
  have hne : s.written ≠ [] := by
    intro he
    have := hw.written
    rw [he, map_nil, map_eq_nil_iff] at this
    rw [this] at hm
    cases hm
  rw [Columns.finishWithOrder_of_written hne] at hok
  have hc := Columns.columns_of_built hok
  rw [ColumnSet.outputOrder, hw.columns] at hc
  refine ⟨_, hc ▸ mem_map_of_mem hm, rfl, ?_, ?_, ?_⟩
  · rw [Columns.Log.column, hb]
    rfl
  · rw [cellsOf, filter_map, map_map, Columns.Column.values, Columns.Log.column, hb]
    exact (Columns.sublist_builderOf hb).trans (sublist_append_left builder.values _)
  · intro other ho hs
    rw [hc] at ho
    obtain ⟨n, -, rfl⟩ := mem_map.mp ho
    obtain rfl : n = name := hs
    rfl

/-! ## One message -/

end

def CarriesNothing (c : Conversions) (sdk : Sdk) (root : Element) : Prop :=
  jsonText sdk root = none ∧ messageWrites c sdk root = []

/-- Every value is one that the type of its column can hold. -/
def Fits (c : Conversions) (writes : List Write) : Prop :=
  ∀ write ∈ writes, ∀ value arrowType, write.2 = some value → Columns.isNull value = false →
    columnType writes write.1 = some arrowType →
    (Columns.convert c value arrowType).isSome = true

/-- The columns of a batch have the written values, in their order and none of them null. -/
def HoldsWrites (c : Conversions) (writes : List Write) (batch : Columns.RecordBatch) : Prop :=
  ∀ write ∈ writes, ∃ column ∈ batch.columns, column.name = write.1 ∧
    (cellsOf c column.array.dataType write.1 writes).Sublist column.values ∧
    ∀ value, write.2 = some value → Columns.isNull value = false →
      (Columns.cellOf c column.array.dataType write.2).isSome = true

/-- An answer that is an error, or has all that the messages carry. -/
inductive Kept (c : Conversions) (sdk : Sdk) (f : Formats) (parser : Parser)
    (roots : List Element) : Answer → Prop where
  | failed (error : BlpError) : Kept c sdk f parser roots (.failed error)
  | noTable (error : BqlError) : Kept c sdk f parser roots (.table (.error error))
  | noRows (error : BlpError) : Kept c sdk f parser roots (.rows (.error error))
  | table {front back : List Element} {root : Element} {text : String} {batch : RecordBatch} :
      roots = front ++ root :: back → jsonText sdk root = some text →
      (∀ other ∈ front ++ back, CarriesNothing c sdk other) →
      parseBqlJsonText f parser text = .ok batch → Kept c sdk f parser roots (.table (.ok batch))
  | rows {batch : Columns.RecordBatch} : (∀ root ∈ roots, jsonText sdk root = none) →
      HoldsWrites c (roots.flatMap (messageWrites c sdk)) batch →
      Kept c sdk f parser roots (.rows (.ok batch))

end Xbbg.Bql
