import Xbbg.Model.Diagnostics

/-! Field exceptions survive their document and merging, and the union of response diagnostics
is the union of what each batch reports. -/

namespace Xbbg.Diagnostics

open List Library

/-! ### Field exceptions -/

namespace FieldExceptions

theorem getElem?_remap (s : IndexSet FieldExceptionMeta) (l : List FieldExceptionMeta) {i : ℕ}
    (h : i < l.length) : (s.insertAll l).2.entries[remap (s.insertAll l).1 i]? = l[i]? := by
  have hr := s.getElem?_insertAll l i
  rw [getElem?_eq_getElem h] at hr
  obtain ⟨number, hn, he⟩ := Option.bind_eq_some_iff.mp hr
  rw [remap, hn, Option.getD_some, he, getElem?_eq_getElem h]

theorem expanded_eq (e : FieldExceptions) (ticker : String) :
    e.expanded ticker = (e.securities.lookup ticker).map e.entries.read := by
  unfold expanded forSecurity
  cases e.securities.lookup ticker <;> rfl

theorem forSecurity_eq_getD (e : FieldExceptions) (ticker : String) :
    e.forSecurity ticker = (e.expanded ticker).getD [] := by
  rw [expanded_eq, forSecurity]
  cases e.securities.lookup ticker <;> rfl

theorem forSecurity_of_isEmpty {e : FieldExceptions} (h : e.isEmpty = true) (ticker : String) :
    e.forSecurity ticker = [] := by
  rw [forSecurity, Map.lookup_of_isEmpty h]
  rfl

theorem forSecurity_empty (ticker : String) : empty.forSecurity ticker = [] :=
  forSecurity_of_isEmpty rfl ticker

theorem expanded_extend (e o : FieldExceptions) (ticker : String) :
    (e.extend o).expanded ticker = (e.expanded ticker).merge (· ++ ·) (o.expanded ticker) := by
  rw [extend]
  split
  · rename_i he
    simp [expanded_eq e, Map.lookup_of_isEmpty he]
  · have hg := e.entries.extends_insertAll o.entries.entries
    have hn : ∀ indices, o.securities.lookup ticker = some indices →
        (e.entries.insertAll o.entries.entries).2.read
          (indices.map (remap (e.entries.insertAll o.entries.entries).1)) =
          o.entries.read indices := by
      intro indices hl
      apply IndexSet.read_map
      intro i hi
      exact getElem?_remap _ _ (o.bounded ticker indices hl i hi)
    simp only [expanded_eq, Map.lookup_merge]
    cases he : e.securities.lookup ticker with
    | none =>
      cases ho : o.securities.lookup ticker with
      | none => rfl
      | some indices => simp [hn indices ho]
    | some old =>
      have hr := hg.read_eq (e.bounded ticker old he)
      cases ho : o.securities.lookup ticker with
      | none => simp [hr]
      | some indices => simp [IndexSet.read_append, hr, hn indices ho]

theorem forSecurity_extend (e o : FieldExceptions) (ticker : String) :
    (e.extend o).forSecurity ticker = e.forSecurity ticker ++ o.forSecurity ticker := by
  simp only [forSecurity_eq_getD, expanded_extend]
  cases e.expanded ticker <;> cases o.expanded ticker <;> simp

theorem mem_order (e : FieldExceptions) (i : ℕ) : i ∈ e.order ↔ i < e.entries.entries.length := by
  rw [order, (mergeSort_perm _ _).mem_iff, mem_range]

theorem getElem?_toJson_entries (e : FieldExceptions) {idx : ℕ}
    (h : idx < e.entries.entries.length) :
    e.toJson.entries[e.order.idxOf idx]? = e.entries.entries[idx]? := by
  have hm := (e.mem_order idx).mpr h
  rw [toJson, IndexSet.getElem?_read fun i hi => (e.mem_order i).mp hi,
    getElem?_idxOf hm, Option.bind_some]

theorem fromJson_toJson (e : FieldExceptions) :
    ∃ e', fromJson e.toJson = .ok e' ∧ e'.expanded = e.expanded := by
  have hp : ∀ idx, idx < e.entries.entries.length →
      e.order.idxOf idx < e.toJson.entries.length := by
    intro idx hin
    have hg := e.getElem?_toJson_entries hin
    rw [getElem?_eq_getElem hin] at hg
    exact (List.getElem?_eq_some_iff.mp hg).1
  have hb : ∀ entry ∈ e.toJson.securities.entries, ∀ idx ∈ entry.2,
      idx < e.toJson.entries.length := by
    intro entry he idx hin
    obtain ⟨src, hs, rfl⟩ := mem_map.mp he
    obtain ⟨i, hi, rfl⟩ := mem_map.mp hin
    exact hp i (e.bounded src.1 src.2 (AList.mem_lookup_iff.mpr hs) i hi)
  have hv : ¬ e.toJson.version ≠ 1 := by simp [toJson]
  rw [fromJson, if_neg hv, dif_pos hb]
  refine ⟨_, rfl, funext fun ticker => ?_⟩
  simp only [expanded_eq, toJson, Map.lookup_mapValues]
  cases hl : e.securities.lookup ticker with
  | none => rfl
  | some indices =>
    simp only [Option.map_some, map_map, Option.some_inj]
    apply IndexSet.read_map
    intro idx hin
    have hlt := e.bounded ticker indices hl idx hin
    exact (getElem?_remap _ _ (hp idx hlt)).trans (e.getElem?_toJson_entries hlt)

end FieldExceptions

/-! ### What a batch reports -/

namespace Metadata

def eidsOf (m : Metadata) (ticker : String) : Option (List ℤ) := (m.eidData.getD ∅).lookup ticker

def securityErrorOf (m : Metadata) (ticker : String) : Option SecurityErrorMeta :=
  (m.securityErrors.getD ∅).lookup ticker

def delayedOf (m : Metadata) (ticker : String) : Option DelayedMeta :=
  (m.delayed.getD ∅).lookup ticker

def typeMissesOf (m : Metadata) (field : String) : ℕ :=
  ((m.typeMisses.getD ∅).lookup field).getD 0

def exceptionsOf (m : Metadata) (ticker : String) : List FieldExceptionMeta :=
  match m.fieldExceptions with
  | none => []
  | some raw =>
    match FieldExceptions.fromJson raw with
    | .ok exceptions => exceptions.forSecurity ticker
    | .error _ => []

def requestIds (m : Metadata) : List String :=
  m.bloombergRequestId.toList ++ m.bloombergRequestIds.getD []

/-- The document of field exceptions can be read. -/
def Readable (m : Metadata) : Prop :=
  ∀ raw, m.fieldExceptions = some raw → ∃ exceptions, FieldExceptions.fromJson raw = .ok exceptions

end Metadata

/-- The last of the given values that is present. -/
def overlay {β : Type*} (values : List (Option β)) : Option β :=
  values.foldl (fun old new => new.or old) none

variable {β : Type*}

theorem overlay_append_singleton (vs : List (Option β)) (v : Option β) :
    overlay (vs ++ [v]) = v.or (overlay vs) := by
  simp [overlay]

theorem overlay_eq_none {vs : List (Option β)} (h : overlay vs = none) :
    ∀ v ∈ vs, v = none := by
  induction vs using reverseRecOn with
  | nil => simp
  | append_singleton vs last ih =>
    rw [overlay_append_singleton, Option.or_eq_none_iff] at h
    intro v hv
    rcases mem_append.mp hv with hv | hv
    · exact ih h.2 v hv
    · rw [mem_singleton.mp hv, h.1]

/-- `m` reports exactly what the given batches report: counts are added, occurrences follow one
another, and of several entries for one security the last one stays. -/
structure Metadata.IsUnion (docs : List Metadata) (m : Metadata) : Prop where
  eids : ∀ ticker, m.eidsOf ticker = overlay (docs.map (·.eidsOf ticker))
  securityErrors : ∀ ticker,
    m.securityErrorOf ticker = overlay (docs.map (·.securityErrorOf ticker))
  delayed : ∀ ticker, m.delayedOf ticker = overlay (docs.map (·.delayedOf ticker))
  typeMisses : ∀ field, m.typeMissesOf field = (docs.map (·.typeMissesOf field)).sum
  fieldExceptions : ∀ ticker, m.exceptionsOf ticker = docs.flatMap (·.exceptionsOf ticker)
  requestIds : ∀ id, id ∈ m.requestIds ↔ ∃ doc ∈ docs, id ∈ doc.requestIds

theorem Metadata.isUnion_singleton (m : Metadata) : m.IsUnion [m] where
  eids _ := by simp [overlay]
  securityErrors _ := by simp [overlay]
  delayed _ := by simp [overlay]
  typeMisses _ := by simp
  fieldExceptions _ := by simp
  requestIds _ := by simp

/-! ### Collecting the union -/

/-- The diagnostics hold what the given batches report. -/
structure ResponseMetadata.Collected (docs : List Metadata) (r : ResponseMetadata) : Prop where
  eids : ∀ ticker, r.eidData.lookup ticker = overlay (docs.map (·.eidsOf ticker))
  securityErrors : ∀ ticker,
    r.securityErrors.lookup ticker = overlay (docs.map (·.securityErrorOf ticker))
  delayed : ∀ ticker, r.delayed.lookup ticker = overlay (docs.map (·.delayedOf ticker))
  typeMisses : ∀ field, (r.typeMisses.lookup field).getD 0 = (docs.map (·.typeMissesOf field)).sum
  fieldExceptions : ∀ ticker,
    r.fieldExceptions.forSecurity ticker = docs.flatMap (·.exceptionsOf ticker)
  requestIds : ∀ id, id ∈ r.bloombergRequestIds ↔ ∃ doc ∈ docs, id ∈ doc.requestIds

namespace ResponseMetadata

variable {m : Metadata} {docs : List Metadata} {r : ResponseMetadata}

theorem collected_nil : Collected [] {} where
  eids _ := rfl
  securityErrors _ := rfl
  delayed _ := rfl
  typeMisses _ := rfl
  fieldExceptions _ := FieldExceptions.forSecurity_empty _
  requestIds _ := by simp

theorem lookup_extendMap (m : Map String β) (document : Option (Map String β)) (k : String) :
    (extendMap m document).lookup k = ((document.getD ∅).lookup k).or (m.lookup k) := by
  rw [extendMap, Map.lookup_merge]
  cases (document.getD ∅).lookup k <;> rfl

theorem mem_insertId (ids : List String) (id o : String) :
    o ∈ BloombergRequestIds.insert ids id ↔ o = id ∨ o ∈ ids := by
  rw [BloombergRequestIds.insert]
  split
  · rename_i hm
    exact ⟨.inr, fun h => h.elim (fun heq => heq ▸ hm) fun ho => ho⟩
  · simp

theorem mem_foldl_insertId (new ids : List String) (o : String) :
    o ∈ new.foldl BloombergRequestIds.insert ids ↔ o ∈ new ∨ o ∈ ids := by
  induction new generalizing ids with
  | nil => simp
  | cons id rest ih => rw [foldl_cons, ih, mem_insertId, mem_cons]; tauto

theorem mem_collectIds (ids : List String) (m : Metadata) (o : String) :
    o ∈ BloombergRequestIds.collect ids m ↔ o ∈ ids ∨ o ∈ m.requestIds := by
  rw [BloombergRequestIds.collect, mem_foldl_insertId, mem_foldl_insertId, Metadata.requestIds,
    mem_append]
  tauto

theorem forSecurity_collectFieldExceptions {e e' : FieldExceptions}
    (h : collectFieldExceptions e m.fieldExceptions = .ok e') (ticker : String) :
    e'.forSecurity ticker = e.forSecurity ticker ++ m.exceptionsOf ticker := by
  rw [Metadata.exceptionsOf]
  cases hra : m.fieldExceptions with
  | none =>
    rw [hra] at h
    obtain rfl : e = e' := by simpa [collectFieldExceptions] using h
    simp
  | some raw =>
    rw [hra] at h
    cases hr : FieldExceptions.fromJson raw with
    | error msg => simp [collectFieldExceptions, hr] at h
    | ok exceptions =>
      obtain rfl : e.extend exceptions = e' := by simpa [collectFieldExceptions, hr] using h
      simp only [hr]
      exact FieldExceptions.forSecurity_extend e exceptions ticker

theorem Collected.collect {r' : ResponseMetadata} (h : Collected docs r)
    (hc : r.collect m = .ok r') : Collected (docs ++ [m]) r' := by
  rw [ResponseMetadata.collect] at hc
  split at hc
  · simp at hc
  · rename_i fieldExceptions hf
    cases hc
    refine ⟨?_, ?_, ?_, ?_, ?_, ?_⟩
    · intro ticker
      rw [map_append, map_singleton, overlay_append_singleton, ← h.eids]
      exact lookup_extendMap _ _ _
    · intro ticker
      rw [map_append, map_singleton, overlay_append_singleton, ← h.securityErrors]
      exact lookup_extendMap _ _ _
    · intro ticker
      rw [map_append, map_singleton, overlay_append_singleton, ← h.delayed]
      exact lookup_extendMap _ _ _
    · intro f
      rw [map_append, map_singleton, sum_append, sum_singleton, ← h.typeMisses]
      simp only [collectTypeMisses, Map.lookup_merge, Metadata.typeMissesOf]
      cases (m.typeMisses.getD ∅).lookup f <;> rfl
    · intro ticker
      rw [flatMap_append, ← h.fieldExceptions]
      simpa using forSecurity_collectFieldExceptions hf ticker
    · intro id
      simp only [mem_collectIds, h.requestIds]
      simp [or_and_right, exists_or]

theorem exists_collect (r : ResponseMetadata) (h : m.Readable) : ∃ r', r.collect m = .ok r' := by
  rw [ResponseMetadata.collect]
  cases hra : m.fieldExceptions with
  | none => exact ⟨_, rfl⟩
  | some raw =>
    obtain ⟨exceptions, hr⟩ := h raw hra
    rw [collectFieldExceptions, hr]
    exact ⟨_, rfl⟩

theorem exists_unionOf (h : Collected docs r) (rest : List Metadata) (hr : ∀ m ∈ rest, m.Readable) :
    ∃ merged, r.unionOf rest = .ok merged ∧ Collected (docs ++ rest) merged := by
  induction rest generalizing docs r with
  | nil => exact ⟨r, rfl, by simpa using h⟩
  | cons m rest ih =>
    obtain ⟨r', hc⟩ := exists_collect r (hr m (by simp))
    obtain ⟨merged, hu, hm⟩ := ih (h.collect hc) fun doc hd => hr doc (mem_cons_of_mem _ hd)
    refine ⟨merged, ?_, by simpa using hm⟩
    rw [unionOf, hc]
    exact hu

/-! ### Attaching the union -/

variable {v : Map String β}

theorem insertJson_of_isEmpty (document : Option (Map String β))
    (h : v.isEmpty = true) : insertJson document v = document :=
  if_pos h

theorem attach_parts (r : ResponseMetadata) (m : Metadata) :
    (r.attach m).eidData = insertJson m.eidData r.eidData ∧
    (r.attach m).securityErrors = insertJson m.securityErrors r.securityErrors ∧
    (r.attach m).fieldExceptions =
      (if r.fieldExceptions.isEmpty then m.fieldExceptions else some r.fieldExceptions.toJson) ∧
    (r.attach m).delayed = insertJson m.delayed r.delayed ∧
    (r.attach m).typeMisses = insertJson m.typeMisses r.typeMisses ∧
    (r.attach m).requestIds =
      (if r.bloombergRequestIds = [] then m.requestIds else r.bloombergRequestIds) := by
  rw [attach]
  split
  · rename_i he
    simp only [isEmpty, Bool.and_eq_true] at he
    obtain ⟨⟨⟨⟨⟨hei, her⟩, hexc⟩, hdel⟩, hmis⟩, hids⟩ := he
    rw [insertJson_of_isEmpty _ hei, insertJson_of_isEmpty _ her, if_pos hexc,
      insertJson_of_isEmpty _ hdel, insertJson_of_isEmpty _ hmis,
      if_pos (isEmpty_iff.mp hids)]
    exact ⟨rfl, rfl, rfl, rfl, rfl, rfl⟩
  · match r.bloombergRequestIds with
    | [] | [_] | _ :: _ :: _ => exact ⟨rfl, rfl, rfl, rfl, rfl, rfl⟩

theorem lookup_insertJson {document : Option (Map String β)}
    {k : String} (h : v.lookup k = none → (document.getD ∅).lookup k = none) :
    ((insertJson document v).getD ∅).lookup k = v.lookup k := by
  rw [insertJson]
  split
  · rename_i he
    have hn := Map.lookup_of_isEmpty he k
    rw [hn, h hn]
  · rfl

theorem lookup_insertJson_of_mem (hm : m ∈ docs)
    (part : Metadata → Option (Map String β)) {k : String}
    (h : v.lookup k = overlay (docs.map fun doc => ((part doc).getD ∅).lookup k)) :
    ((insertJson (part m) v).getD ∅).lookup k =
      overlay (docs.map fun doc => ((part doc).getD ∅).lookup k) := by
  rw [lookup_insertJson, h]
  intro hn
  rw [h] at hn
  exact overlay_eq_none hn _ (mem_map.mpr ⟨m, hm, rfl⟩)

theorem Collected.isUnion_attach (h : Collected docs r) (hm : m ∈ docs) :
    (r.attach m).IsUnion docs := by
  obtain ⟨hei, her, hex, hd, hmi, hi⟩ := attach_parts r m
  refine ⟨?_, ?_, ?_, ?_, ?_, ?_⟩
  · intro ticker
    rw [Metadata.eidsOf, hei]
    exact lookup_insertJson_of_mem hm Metadata.eidData (h.eids ticker)
  · intro ticker
    rw [Metadata.securityErrorOf, her]
    exact lookup_insertJson_of_mem hm Metadata.securityErrors (h.securityErrors ticker)
  · intro ticker
    rw [Metadata.delayedOf, hd]
    exact lookup_insertJson_of_mem hm Metadata.delayed (h.delayed ticker)
  · intro f
    rw [Metadata.typeMissesOf, hmi, ← h.typeMisses, insertJson]
    split
    · rename_i he
      -- Nothing was counted in any batch, so neither in the one that is attached to.
      have hz := h.typeMisses f
      rw [Map.lookup_of_isEmpty he, Option.getD_none, eq_comm,
        List.sum_eq_zero_iff_forall_eq_nat] at hz
      rw [Map.lookup_of_isEmpty he, Option.getD_none]
      exact hz _ (mem_map.mpr ⟨m, hm, rfl⟩)
    · rfl
  · intro ticker
    rw [Metadata.exceptionsOf, hex, ← h.fieldExceptions]
    by_cases he : r.fieldExceptions.isEmpty = true
    · have hni := h.fieldExceptions ticker
      rw [FieldExceptions.forSecurity_of_isEmpty he, eq_comm, flatMap_eq_nil_iff] at hni
      rw [FieldExceptions.forSecurity_of_isEmpty he, if_pos he]
      exact hni m hm
    · obtain ⟨exceptions, hr, hs⟩ := r.fieldExceptions.fromJson_toJson
      simp only [if_neg he, hr, FieldExceptions.forSecurity_eq_getD, hs]
  · intro id
    rw [hi, ← h.requestIds]
    split
    · rename_i he
      have hn := h.requestIds id
      rw [he] at hn ⊢
      simp only [not_mem_nil, false_iff, not_exists, not_and, iff_false] at hn ⊢
      exact hn m hm
    · rfl

end ResponseMetadata

end Xbbg.Diagnostics
