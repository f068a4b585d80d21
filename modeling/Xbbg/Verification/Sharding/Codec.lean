import Xbbg.Verification.Sharding.Diagnostics

/-! # The document of field exceptions

The dictionary of a document is the sorted set of the payloads that are in use, so that the document
depends on the expanded view only. -/

namespace Xbbg.Diagnostics

open List Library

/-! ### The order of payloads -/

theorem compare_eq_compareLex : (compare : FieldExceptionMeta → FieldExceptionMeta → Ordering) =
    compareLex (compareOn (·.field)) (compareLex (compareOn (·.category))
      (compareLex (compareOn (·.code)) (compareLex (compareOn (·.subcategory))
        (compareOn (·.message))))) := by
  funext a b
  change instOrdFieldExceptionMeta.ord a b = _
  simp [instOrdFieldExceptionMeta.ord, compareLex, compareOn]

instance : Std.TransOrd FieldExceptionMeta := by
  rw [Std.TransOrd, compare_eq_compareLex]
  infer_instance

theorem eq_of_compare {a b : FieldExceptionMeta} (h : compare a b = .eq) : a = b := by
  rw [compare_eq_compareLex] at h
  simp only [compareLex_eq_eq, compareOn, Std.LawfulEqCmp.compare_eq_iff_eq] at h
  cases a
  cases b
  simp_all

/-- A document shows the same: maps of one look-up are written alike, in the order of their keys. -/
def Envelope.Same (a b : Envelope) : Prop :=
  a.version = b.version ∧ a.entries = b.entries ∧
    ∀ ticker, a.securities.lookup ticker = b.securities.lookup ticker

namespace FieldExceptions

variable {e o : FieldExceptions}

/-- What recording and merging make of no diagnostics. -/
inductive Built : FieldExceptions → Prop where
  | empty : Built empty
  | record {e : FieldExceptions} (ticker : String) (exception : FieldExceptionMeta) :
      Built e → Built (e.record ticker exception)
  | extend {e o : FieldExceptions} : Built e → Built o → Built (e.extend o)

/-! ### The dictionary -/

theorem mem_entries_extend {a : FieldExceptionMeta} (h : a ∈ (e.extend o).entries.entries) :
    a ∈ e.entries.entries ∨ a ∈ o.entries.entries := by
  rw [extend] at h
  split at h
  · exact .inr h
  · exact (e.entries.mem_insertAll _ a).mp h

theorem Built.mem_entries_iff (h : Built e) (a : FieldExceptionMeta) :
    a ∈ e.entries.entries ↔ ∃ ticker, a ∈ e.forSecurity ticker := by
  refine ⟨fun ha => ?_, fun ⟨ticker, ha⟩ => ?_⟩
  · induction h with
    | empty => cases ha
    | @record e ticker exception _ ih =>
      rcases (e.entries.mem_insertFull exception a).mp ha with ha | rfl
      · obtain ⟨s, hs⟩ := ih ha
        obtain ⟨i, hi, hg⟩ := mem_filterMap.mp hs
        have hx := (e.entries.extends_insertFull exception).getElem?_eq_some hg
        refine ⟨s, mem_filterMap.mpr ⟨i, ?_, hx⟩⟩
        simp only [FieldExceptions.record, Map.lookup_insert_if]
        split
        · rename_i hst
          exact mem_append_left _ (hst ▸ hi)
        · exact hi
      · have hx := e.entries.getElem?_insertFull a
        exact ⟨ticker, mem_filterMap.mpr ⟨_, by simp [FieldExceptions.record], hx⟩⟩
    | extend _ _ ih iho =>
      simp only [forSecurity_extend, mem_append]
      rcases mem_entries_extend ha with ha | ha
      · obtain ⟨s, hs⟩ := ih ha
        exact ⟨s, .inl hs⟩
      · obtain ⟨s, hs⟩ := iho ha
        exact ⟨s, .inr hs⟩
  · obtain ⟨idx, -, hg⟩ := mem_filterMap.mp ha
    exact mem_of_getElem? hg

theorem toJson_entries_perm (e : FieldExceptions) : e.toJson.entries.Perm e.entries.entries := by
  have hr : e.entries.read (range e.entries.entries.length) = e.entries.entries := by
    refine ext_getElem? fun k => ?_
    rw [IndexSet.getElem?_read (by simp)]
    by_cases hk : k < e.entries.entries.length
    · rw [getElem?_range hk, Option.bind_some]
    · simp [hk]
  have hp := (mergeSort_perm (range e.entries.entries.length) fun left right =>
    (compare e.entries.entries[left]? e.entries.entries[right]?).isLE).filterMap
      fun idx => e.entries.entries[idx]?
  exact hp.trans (.of_eq hr)

theorem toJson_entries_sorted (e : FieldExceptions) :
    e.toJson.entries.Pairwise fun a b => (compare a b).isLE = true := by
  have hs : e.order.Pairwise fun left right =>
      (compare e.entries.entries[left]? e.entries.entries[right]?).isLE = true := by
    refine pairwise_mergeSort (fun _ _ _ => Std.TransCmp.isLE_trans) (fun a b => ?_) _
    rw [Std.OrientedOrd.eq_swap (a := e.entries.entries[b]?)]
    cases compare e.entries.entries[a]? e.entries.entries[b]? <;> rfl
  refine hs.filterMap _ fun left right hle a ha b hb => ?_
  rwa [ha, hb] at hle

theorem toJson_entries_eq (he : Built e) (ho : Built o) (h : e.expanded = o.expanded) :
    e.toJson.entries = o.toJson.entries := by
  have hf : ∀ ticker, e.forSecurity ticker = o.forSecurity ticker := by
    intro ticker
    rw [forSecurity_eq_getD, forSecurity_eq_getD, h]
  have hp : e.entries.entries.Perm o.entries.entries := by
    refine (perm_ext_iff_of_nodup e.entries.nodup o.entries.nodup).mpr fun a => ?_
    simp only [he.mem_entries_iff, ho.mem_entries_iff, hf]
  refine Perm.eq_of_pairwise (fun a b _ _ hab hba => ?_) e.toJson_entries_sorted
    o.toJson_entries_sorted (e.toJson_entries_perm.trans (hp.trans o.toJson_entries_perm.symm))
  exact eq_of_compare (Std.OrientedCmp.isLE_antisymm hab hba)

theorem lookup_toJson (e : FieldExceptions) (ticker : String) :
    e.toJson.securities.lookup ticker =
      (e.expanded ticker).map fun payloads => payloads.map e.toJson.entries.idxOf := by
  have hn : e.toJson.entries.Nodup := e.toJson_entries_perm.nodup_iff.mpr e.entries.nodup
  rw [expanded_eq]
  change (e.securities.mapValues fun indices => indices.map e.order.idxOf).lookup ticker = _
  rw [Map.lookup_mapValues]
  cases hl : e.securities.lookup ticker with
  | none => rfl
  | some indices =>
    simp only [Option.map_some, Option.some_inj, IndexSet.read, map_filterMap]
    rw [← filterMap_eq_map]
    refine filterMap_congr fun idx hi => ?_
    have hb := e.bounded ticker indices hl idx hi
    have hg := e.getElem?_toJson_entries hb
    have hk := (List.getElem?_eq_some_iff.mp (hg.trans (getElem?_eq_getElem hb))).1
    rw [← hg, getElem?_eq_getElem hk, Option.map_some, hn.idxOf_getElem]
    rfl

/-- Field exceptions keep their expanded view in their document, merging appends the views, and the
document depends on the view only. -/
theorem fieldExceptions_codec :
    (∀ e, Built e → ∃ e', fromJson e.toJson = .ok e' ∧ e'.expanded = e.expanded) ∧
    (∀ e o, Built e → Built o → ∀ ticker, (e.extend o).expanded ticker =
      (e.expanded ticker).merge (· ++ ·) (o.expanded ticker)) ∧
    ∀ e o, Built e → Built o → e.expanded = o.expanded → Envelope.Same e.toJson o.toJson := by
  refine ⟨fun e _ => e.fromJson_toJson, fun e o _ _ => expanded_extend e o, ?_⟩
  intro e o he ho h
  have hd := toJson_entries_eq he ho h
  refine ⟨rfl, hd, fun ticker => ?_⟩
  rw [lookup_toJson, lookup_toJson, h, hd]

end FieldExceptions

end Xbbg.Diagnostics
