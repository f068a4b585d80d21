import Xbbg.Verification.Feed.Image

/-! What a projection sends to its consumer: every value of a requested field, under its name. -/

namespace Xbbg

namespace UpdateValue

theorem same_refl (v : UpdateValue) : v.same v = true := by
  cases v with
  | f64 x => cases h : x.isNan <;> simp [same, eq, F64.eq, h]
  | null | bool | i32 | i64 | str | date32 | time64Micros | timestampMicros => simp [same, eq]

theorem same_f64 (x y : F64) : (f64 x).same (f64 y) = true ↔
    x.isNan = true ∧ y.isNan = true ∨ x.isNan = false ∧ y.isNan = false ∧
      (x = y ∨ x.isZero = true ∧ y.isZero = true) := by
  simp only [same, eq, F64.eq, Bool.or_eq_true, Bool.and_eq_true, Bool.not_eq_true', beq_iff_eq]
  tauto

theorem eq_of_same {u v : UpdateValue} (h : u.same v = true) :
    u = v ∨ ∃ x y, u = .f64 x ∧ v = .f64 y := by
  cases u with
  | f64 x =>
    cases v with
    | f64 y => exact .inr ⟨x, y, rfl, rfl⟩
    | _ => simp [same, eq] at h
  | _ => exact .inl (by simpa [same, eq] using h)

theorem same_trans (u v w : UpdateValue) (huv : u.same v = true) (hvw : v.same w = true) :
    u.same w = true := by
  rcases eq_of_same huv with rfl | ⟨x, y, rfl, rfl⟩
  · exact hvw
  · rcases eq_of_same hvw with rfl | ⟨_, z, ⟨⟩, rfl⟩
    · exact huv
    · rw [same_f64] at huv hvw ⊢
      grind

end UpdateValue

namespace Feed

open List Library

variable {names : List String}

theorem nameValues_cons_of_none {f : UpdateField} (h : names[f.index]? = none)
    (rest : List UpdateField) : nameValues names (f :: rest) = nameValues names rest := by
  simp [nameValues, h]

theorem nameValues_cons_of_some {f : UpdateField} {name : String}
    (h : names[f.index]? = some name) (rest : List UpdateField) :
    nameValues names (f :: rest) = (name, f.value) :: nameValues names rest := by
  simp [nameValues, h]

theorem nodup_nameValues {vs : List UpdateField} (hna : names.Nodup)
    (hv : (vs.map (·.index)).Nodup) : ((nameValues names vs).map Prod.fst).Nodup := by
  induction vs with
  | nil => exact nodup_nil
  | cons f rest ih =>
    obtain ⟨hno, hr⟩ := nodup_cons.mp hv
    cases hn : names[f.index]? with
    | none =>
      rw [nameValues_cons_of_none hn]
      exact ih hr
    | some name =>
      rw [nameValues_cons_of_some hn, map_cons]
      refine nodup_cons.mpr ⟨fun hm => hno ?_, ih hr⟩
      obtain ⟨⟨_, v⟩, hwri, rfl⟩ := mem_map.mp hm
      obtain ⟨e, he, hi, -⟩ := mem_nameValues.mp hwri
      have heq := (List.getElem?_inj (List.getElem?_eq_some_iff.mp hi).1 hna).mp (hi.trans hn.symm)
      exact mem_map.mpr ⟨e, he, heq⟩

namespace Projection

variable {source : SubscriptionUpdate} {projection : Projection}

/-- What a visit does to a projection, and the values that it selects. -/
structure Visits (projection : Projection) (layout : FieldLayout) (values : List UpdateField)
    (last : Projection) (projected : List UpdateField) : Prop where
  fields : projection.fieldStrings <+: last.fieldStrings
  nodup : projection.fieldStrings.Nodup → last.fieldStrings.Nodup
  captureAll : last.captureAllFields = projection.captureAllFields
  filtered : projection.captureAllFields = false → last = projection
  named : nameValues last.fieldStrings projected = (nameValues (layoutNames layout) values).filter
    fun write => decide (write.1 ∈ last.fieldStrings)

theorem visits_visitProjectedValues (projection : Projection) (l : FieldLayout)
    (vs : List UpdateField) :
    Visits projection l vs (projection.visitProjectedValues l vs).1
      (projection.visitProjectedValues l vs).2 := by
  induction vs generalizing projection with
  | nil => exact ⟨prefix_rfl, id, rfl, fun _ => rfl, rfl⟩
  | cons f rest ih =>
    cases hi : l.fields[f.index]? with
    | none =>
      have hno : (layoutNames l)[f.index]? = none := by simp [layoutNames, hi]
      have hv : projection.visitProjectedValues l (f :: rest) =
          projection.visitProjectedValues l rest := by
        simp [visitProjectedValues, hi]
      have hr := ih projection
      rw [hv]
      exact ⟨hr.fields, hr.nodup, hr.captureAll, hr.filtered,
        nameValues_cons_of_none hno rest ▸ hr.named⟩
    | some info =>
      have hs : (layoutNames l)[f.index]? = some info.name := by
        simp [layoutNames, hi]
      cases hid : projection.fieldStrings.idxOf? info.name with
      | some idx =>
        have hr := ih projection
        have hn := getElem?_of_isPrefix hr.fields (getElem?_of_idxOf? hid)
        have hv : projection.visitProjectedValues l (f :: rest) =
            ((projection.visitProjectedValues l rest).1,
              ⟨idx, f.value⟩ :: (projection.visitProjectedValues l rest).2) := by
          simp [visitProjectedValues, hi, hid]
        rw [hv]
        refine ⟨hr.fields, hr.nodup, hr.captureAll, hr.filtered, ?_⟩
        rw [nameValues_cons_of_some hs, filter_cons_of_pos (by simpa using mem_of_getElem? hn),
          ← hr.named]
        exact nameValues_cons_of_some hn _
      | none =>
        have hne : info.name ∉ projection.fieldStrings := idxOf?_eq_none_iff.mp hid
        cases hc : projection.captureAllFields with
        | false =>
          have hr := ih projection
          have hl := hr.filtered hc
          have hv : projection.visitProjectedValues l (f :: rest) =
              projection.visitProjectedValues l rest := by
            simp [visitProjectedValues, hi, hid, hc]
          rw [hv]
          refine ⟨hr.fields, hr.nodup, hr.captureAll, hr.filtered, ?_⟩
          rw [nameValues_cons_of_some hs, filter_cons_of_neg (by simpa [hl] using hne)]
          exact hr.named
        | true =>
          have hr := ih { projection with fieldStrings := projection.fieldStrings ++ [info.name] }
          have hn := getElem?_of_isPrefix hr.fields
            (show (projection.fieldStrings ++ [info.name])[projection.fieldStrings.length]? =
              some info.name by simp)
          have hv : projection.visitProjectedValues l (f :: rest) =
              ((visitProjectedValues { projection with
                  fieldStrings := projection.fieldStrings ++ [info.name] } l rest).1,
                ⟨projection.fieldStrings.length, f.value⟩ :: (visitProjectedValues { projection with
                    fieldStrings := projection.fieldStrings ++ [info.name] } l rest).2) := by
            simp [visitProjectedValues, hi, hid, hc]
          rw [hv]
          refine ⟨(prefix_append _ _).trans hr.fields, fun h => hr.nodup ?_, hr.captureAll, ?_, ?_⟩
          · simpa [nodup_append] using ⟨h, fun a ha heq => hne (heq ▸ ha)⟩
          · simp [hc]
          · rw [nameValues_cons_of_some hs,
              filter_cons_of_pos (by simpa using mem_of_getElem? hn), ← hr.named]
            exact nameValues_cons_of_some hn _

theorem projectUpdate_fields (projection : Projection) (isOpen accepts : Bool)
    (source : SubscriptionUpdate) (suppressEmpty : Bool) :
    let last := (projection.projectUpdate isOpen accepts source suppressEmpty).1
    projection.fieldStrings <+: last.fieldStrings ∧
      (projection.fieldStrings.Nodup → last.fieldStrings.Nodup) := by
  have hv := projection.visits_visitProjectedValues source.layout source.values
  unfold projectUpdate
  dsimp only
  split
  · exact ⟨prefix_rfl, id⟩
  · split
    · exact ⟨hv.fields, hv.nodup⟩
    · split
      · exact ⟨hv.fields, hv.nodup⟩
      · split <;> exact ⟨hv.fields, hv.nodup⟩

theorem lastWrite_projectImage (projection : Projection)
    (hs : (source.named.map Prod.fst).Nodup) {field : String}
    (hf : field ∈ (projection.projectImage source).1.fieldStrings) :
    lastWrite (projection.projectImage source).2.named field = lastWrite source.named field := by
  have hv := projection.visits_visitProjectedValues source.layout source.values
  have hn := hv.named
  rw [← named_eq] at hn
  have hp : (nameValues (projection.visitProjectedValues source.layout source.values).1.fieldStrings
      (projection.visitProjectedValues source.layout source.values).2).Perm
      (projection.projectImage source).2.named := by
    refine Perm.filterMap _ ?_
    unfold projectImage
    dsimp only
    split
    · exact .refl _
    · exact (perm_insertionSort _ _).symm
  have hno : ((nameValues
      (projection.visitProjectedValues source.layout source.values).1.fieldStrings
      (projection.visitProjectedValues source.layout source.values).2).map Prod.fst).Nodup := by
    rw [hn]
    exact (filter_sublist.map Prod.fst).nodup hs
  rw [← lastWrite_perm hp hno, hn]
  exact lastWrite_filter_key _ (fun name => decide (name ∈ _)) (decide_eq_true hf)

/-- The values of an event metadata field have no other name. -/
theorem isMetadata_of_isEventMetadata {i : ℕ} {name : String}
    (hn : projection.fieldStrings[i]? = some name)
    (h : projection.isEventMetadata i = true) : isMetadata name = true := by
  rw [isEventMetadata, Bool.or_eq_true, beq_iff_eq, beq_iff_eq] at h
  rcases h with hi | hi
  · obtain rfl := Option.some.inj ((getElem?_of_idxOf? hi).symm.trans hn)
    rfl
  · obtain rfl := Option.some.inj ((getElem?_of_idxOf? hi).symm.trans hn)
    rfl

/-- A projection without an error sends its delta or finds nothing but event metadata in it. -/
theorem projectUpdate_of_normal {isOpen accepts : Bool} {suppressEmpty : Bool}
    (hn : (projection.projectUpdate isOpen accepts source suppressEmpty).2.1 = .normal) :
    projection.projectUpdate isOpen accepts source suppressEmpty =
        ((projection.projectImage source).1, .normal, some (projection.projectImage source).2) ∨
      projection.projectUpdate isOpen accepts source suppressEmpty =
          ((projection.projectImage source).1, .normal, none) ∧
        ∀ f ∈ (projection.projectImage source).2.values,
          (projection.projectImage source).1.isEventMetadata f.index = true := by
  generalize hr : projection.projectUpdate isOpen accepts source suppressEmpty = result at hn ⊢
  unfold projectUpdate at hr
  dsimp only at hr
  split at hr
  case isTrue =>
    subst hr
    cases hn
  case isFalse =>
    split at hr
    case isTrue =>
      subst hr
      cases hn
    case isFalse =>
      split at hr
      case isTrue he =>
        exact .inr ⟨hr.symm, by simpa using (Bool.and_eq_true_iff.mp he).2⟩
      case isFalse =>
        split at hr
        case isTrue => exact .inl hr.symm
        case isFalse =>
          subst hr
          cases hn

/-- What a successful projection delivers of a requested field. -/
theorem lastWrite_projectUpdate {isOpen accepts : Bool} {suppressEmpty : Bool}
    (hso : (source.named.map Prod.fst).Nodup)
    (hno : (projection.projectUpdate isOpen accepts source suppressEmpty).2.1 = .normal)
    {field : String} (hf : field ∈ projection.fieldStrings) (hd : isMetadata field = false) :
    lastWrite ((projection.projectUpdate isOpen accepts source suppressEmpty).2.2.toList.flatMap
      Delta.named) field = lastWrite source.named field := by
  have hv := projection.visits_visitProjectedValues source.layout source.values
  have hi := projection.lastWrite_projectImage hso (hv.fields.subset hf)
  rcases projectUpdate_of_normal hno with hs | ⟨hsu, hm⟩
  · simpa [hs] using hi
  · rw [hsu, ← hi]
    symm
    rw [Option.toList_none, flatMap_nil, lastWrite_nil, lastWrite_eq_none_iff]
    intro hme
    obtain ⟨⟨_, value⟩, hwri, rfl⟩ := mem_map.mp hme
    obtain ⟨entry, he, hn, -⟩ := mem_nameValues.mp hwri
    simp [isMetadata_of_isEventMetadata hn (hm entry he)] at hd

end Projection

end Feed

end Xbbg
