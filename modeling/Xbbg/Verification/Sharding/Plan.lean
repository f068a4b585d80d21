import Xbbg.Verification.Sharding.Planning

/-! What the shards of a whole request are: their securities, the size of a shard, the overrides
of each security and the other parameters. -/

namespace Xbbg.Sharding

open List Library

/-! ### Merging overrides -/

/-- The pairs of each key are those of the security, or else the global ones. -/
structure Effective (globalPairs securityPairs merged : OverridePairs) : Prop where
  own : ∀ key value, lastWrite securityPairs key = some value →
    merged.filter (·.1 = key) = [(key, value)]
  rest : ∀ key, lastWrite securityPairs key = none →
    merged.filter (·.1 = key) = globalPairs.filter (·.1 = key)

/-- The keys of a security's own pairs occur at most once among the global pairs. -/
def OverridesOnce (globalPairs own : OverridePairs) : Prop :=
  ∀ key ∈ own.map Prod.fst, (globalPairs.filter (·.1 = key)).length ≤ 1

instance (globalPairs own : OverridePairs) : Decidable (OverridesOnce globalPairs own) :=
  inferInstanceAs (Decidable (∀ key ∈ _, _))

variable {key : String}

theorem filter_upsert_other {p : String × String} (hne : p.1 ≠ key) (ps : OverridePairs) :
    (upsert ps p).filter (·.1 = key) = ps.filter (·.1 = key) := by
  induction ps with
  | nil => simp [upsert, hne]
  | cons head rest ih =>
    obtain ⟨headKey, headValue⟩ := head
    rw [upsert]
    by_cases heq : headKey = p.1
    · have hk : headKey ≠ key := heq ▸ hne
      simp [heq, hne]
    · rw [if_neg heq, filter_cons, filter_cons, ih]

theorem filter_upsert_same (key v : String) (ps : OverridePairs)
    (ho : (ps.filter (·.1 = key)).length ≤ 1) :
    (upsert ps (key, v)).filter (·.1 = key) = [(key, v)] := by
  induction ps with
  | nil => simp [upsert]
  | cons head rest ih =>
    obtain ⟨headKey, headValue⟩ := head
    rw [upsert]
    by_cases heq : headKey = key
    · subst heq
      have hr : rest.filter (·.1 = headKey) = [] := by
        rw [filter_cons_of_pos (by simp), length_cons] at ho
        exact length_eq_zero_iff.mp (by omega)
      simp [hr]
    · rw [filter_cons_of_neg (by simpa using heq)] at ho
      rw [if_neg heq, filter_cons_of_neg (by simpa using heq), ih ho]

theorem filter_foldl_upsert_other (own ps : OverridePairs) (hn : lastWrite own key = none) :
    (own.foldl upsert ps).filter (·.1 = key) = ps.filter (·.1 = key) := by
  induction own generalizing ps with
  | nil => rfl
  | cons p rest ih =>
    rw [lastWrite_cons, Option.or_eq_none_iff] at hn
    have hne : p.1 ≠ key := by
      intro heq
      simp [heq] at hn
    rw [foldl_cons, ih _ hn.1, filter_upsert_other hne]

theorem filter_foldl_upsert_same {value : String} (own pairs : OverridePairs)
    (how : lastWrite own key = some value) (ho : (pairs.filter (·.1 = key)).length ≤ 1) :
    (own.foldl upsert pairs).filter (·.1 = key) = [(key, value)] := by
  induction own generalizing pairs with
  | nil => simp at how
  | cons pair rest ih =>
    obtain ⟨pairKey, pairValue⟩ := pair
    rw [foldl_cons]
    rw [lastWrite_cons, Option.or_eq_some_iff] at how
    rcases how with hr | ⟨hr, hp⟩
    · apply ih _ hr
      by_cases heq : pairKey = key
      · rw [heq, filter_upsert_same key pairValue pairs ho]
        simp
      · rw [filter_upsert_other heq]
        exact ho
    · -- The last pair of the key: the ones behind it do not touch the key.
      by_cases heq : pairKey = key
      · obtain rfl : pairValue = value := by simpa [heq] using hp
        rw [filter_foldl_upsert_other rest _ hr, heq, filter_upsert_same key pairValue pairs ho]
      · simp [heq] at hp

/-- No pair of a key is ever removed. -/
theorem length_filter_le_foldl_upsert (key : String) (own ps : OverridePairs) :
    (ps.filter (·.1 = key)).length ≤ ((own.foldl upsert ps).filter (·.1 = key)).length := by
  have hu (p : String × String) (ps : OverridePairs) :
      (ps.filter (·.1 = key)).length ≤ ((upsert ps p).filter (·.1 = key)).length := by
    induction ps with
    | nil => exact Nat.zero_le _
    | cons head rest ih =>
      rw [upsert]
      split <;> grind
  induction own generalizing ps with
  | nil => exact le_rfl
  | cons p rest ih => exact (hu p ps).trans (ih _)

theorem getD_mergeOverridePairs (globalPairs securityPairs : Option OverridePairs) :
    (mergeOverridePairs globalPairs securityPairs).getD [] =
      (securityPairs.getD []).foldl upsert (globalPairs.getD []) := by
  rw [mergeOverridePairs]
  split
  · rename_i he
    have hg : globalPairs.getD [] = [] := length_eq_zero_iff.mp (by omega)
    have hs : securityPairs.getD [] = [] := length_eq_zero_iff.mp (by omega)
    rw [hg, hs]
    rfl
  · rfl

theorem effective_mergeOverridePairs_iff {globalPairs securityPairs : Option OverridePairs} :
    Effective (globalPairs.getD []) (securityPairs.getD [])
        ((mergeOverridePairs globalPairs securityPairs).getD []) ↔
      OverridesOnce (globalPairs.getD []) (securityPairs.getD []) := by
  rw [getD_mergeOverridePairs]
  constructor
  · intro h key hk
    have hs : lastWrite (securityPairs.getD []) key ≠ none :=
      fun hn => (lastWrite_eq_none_iff _ key).mp hn hk
    obtain ⟨v, hv⟩ := Option.ne_none_iff_exists'.mp hs
    have hl := length_filter_le_foldl_upsert key (securityPairs.getD []) (globalPairs.getD [])
    rwa [h.own key v hv] at hl
  · intro hon
    constructor
    · intro key v ho
      apply filter_foldl_upsert_same _ _ ho
      exact hon key (mem_map_of_mem (f := Prod.fst) (mem_of_lastWrite ho))
    · intro key hn
      exact filter_foldl_upsert_other _ _ hn

/-! ### The size of a shard -/

theorem length_le_of_mem_chunks {chunkSize fuel : ℕ} {secs c : List String}
    (hm : c ∈ chunks chunkSize fuel secs) : c.length ≤ chunkSize := by
  induction fuel generalizing secs with
  | zero => simp [chunks] at hm
  | succ fuel ih =>
    cases secs with
    | nil => simp [chunks] at hm
    | cons sec rest =>
      rw [chunks, mem_cons] at hm
      · rcases hm with rfl | hm
        · exact length_take_le chunkSize _
        · exact ih hm
      · simp

namespace OverrideShards

/-- The finished shards and the current run have at most `maxChunk` securities. -/
structure Bounded (maxChunk : ℕ) (s : OverrideShards) : Prop where
  shards : ∀ shard ∈ s.shards, (shard.securities.getD []).length ≤ maxChunk
  current : s.currentSecurities.length ≤ maxChunk
  idle : s.haveCurrent = false → s.currentSecurities = []

variable {s : OverrideShards}

theorem Bounded.push {maxChunk : ℕ} (h : Bounded maxChunk s) (prepared : PreparedRequest) :
    Bounded maxChunk (s.pushSecurityOverrideShard prepared) ∧
      (s.pushSecurityOverrideShard prepared).currentSecurities = [] := by
  rw [pushSecurityOverrideShard]
  split
  · rename_i he
    exact ⟨h, isEmpty_iff.mp he⟩
  · refine ⟨⟨?_, Nat.zero_le _, fun _ => rfl⟩, rfl⟩
    intro sh hs
    rcases mem_append.mp hs with hs | hs
    · exact h.shards sh hs
    · rw [mem_singleton.mp hs]
      exact h.current

theorem Bounded.add {maxChunk : ℕ} (hp : 0 < maxChunk)
    (h : Bounded maxChunk s) (prepared : PreparedRequest)
    (lookup : String → Option OverridePairs) (sec : String) :
    Bounded maxChunk (OverrideShards.add prepared lookup maxChunk s sec) := by
  obtain ⟨hpu, he⟩ := h.push prepared
  rw [OverrideShards.add]
  by_cases hf : (s.haveCurrent && (s.currentOverrides != lookup sec ||
      maxChunk ≤ s.currentSecurities.length)) = true
  · rw [if_pos hf]
    refine ⟨hpu.shards, ?_, fun hi => by cases hi⟩
    simpa [he] using Nat.succ_le_of_lt hp
  · rw [if_neg hf]
    cases hc : s.haveCurrent with
    | false =>
      refine ⟨h.shards, ?_, fun hi => by cases hi⟩
      simpa [h.idle hc] using Nat.succ_le_of_lt hp
    | true =>
      -- The run was not closed, so it has room for one more.
      have hr : s.currentSecurities.length < maxChunk := by
        by_contra hge
        exact hf (by simp [hc, Nat.le_of_not_lt hge])
      refine ⟨h.shards, ?_, fun hi => by simp [hc] at hi⟩
      simpa using Nat.succ_le_of_lt hr

end OverrideShards

variable {cfg : EngineConfig}

theorem length_le_of_securityOverrideShards {prepared : PreparedRequest}
    {shards : List PreparedRequest} (h : securityOverrideShards cfg prepared = some shards)
    (hs : cfg.shardRequests = true) (hp : 0 < cfg.shardChunkSize) :
    ∀ sh ∈ shards, (sh.securities.getD []).length ≤ cfg.shardChunkSize := by
  rw [securityOverrideShards] at h
  split at h
  · simp at h
  · simp at h
  · simp at h
  · simp at h
  · rename_i secs _ _ _
    have hf := foldl_holds (fun _ => OverrideShards.Bounded cfg.shardChunkSize)
      (fun _ _ sec hb => hb.add hp prepared (securityOverridesOf prepared) sec) secs
      (l := []) (s := ⟨[], [], none, false⟩) ⟨by simp, Nat.zero_le _, fun _ => rfl⟩
    simp only [hs, if_true] at h
    cases h
    split
    · exact (hf.push prepared).1.shards
    · exact hf.shards

theorem length_le_of_shardedRequests {prepared : PreparedRequest}
    {shards : List PreparedRequest} (h : shardedRequests cfg prepared = some shards)
    (hs : cfg.shardRequests = true) (hp : 0 < cfg.shardChunkSize) :
    ∀ sh ∈ shards, (sh.securities.getD []).length ≤ cfg.shardChunkSize := by
  obtain ⟨-, hruns | ⟨secs, -, -, -, hl, rfl⟩⟩ := shardedRequests_cases h
  · exact length_le_of_securityOverrideShards hruns hs hp
  · intro sh hsh
    obtain ⟨c, hc, rfl⟩ := mem_map.mp hsh
    rw [shardSecurityChunks, if_neg (by omega)] at hc
    exact length_le_of_mem_chunks hc

/-! ### The plan of a whole request -/

theorem EngineConfig.chunkSize_pos (cfg : EngineConfig) (h : cfg.validate = .ok ()) :
    0 < cfg.shardChunkSize := by
  by_contra hzero
  have hs : cfg.shardChunkSize = 0 := by omega
  simp [EngineConfig.validate, hs] at h
  split at h <;> simp at h

theorem flatMap_requested_fst (shards : List PreparedRequest) :
    (shards.flatMap requested).map Prod.fst = shards.flatMap fun sh => sh.securities.getD [] := by
  rw [map_flatMap]
  apply flatMap_congr
  intro sh _
  simp [requested, Function.comp_def]

namespace IsPlan

variable {prepared : PreparedRequest} {shards : List PreparedRequest}

theorem securities_eq (h : IsPlan prepared shards) :
    (shards.flatMap fun sh => sh.securities.getD []) = prepared.securities.getD [] := by
  rw [← flatMap_requested_fst, h.requested_eq]
  simp [requested, Function.comp_def]

theorem overrides_eq (h : IsPlan prepared shards) {sh : PreparedRequest}
    (hs : sh ∈ shards) {sec : String} (hm : sec ∈ sh.securities.getD []) :
    sec ∈ prepared.securities.getD [] ∧ sh.overrides.getD [] =
        (mergeOverridePairs prepared.overrides (securityOverridesOf prepared sec)).getD [] := by
  obtain ⟨secs, overrides, rfl⟩ := h.shard sh hs
  have ha : (sec, overrides.getD []) ∈ shards.flatMap requested := by
    rw [mem_flatMap]
    refine ⟨_, hs, ?_⟩
    rw [requested_forSecurityShard]
    exact mem_map_of_mem (f := fun sec => (sec, overrides.getD [])) hm
  rw [h.requested_eq, requested, mem_map] at ha
  obtain ⟨asked, ha, heq⟩ := ha
  obtain ⟨rfl, ho⟩ := Prod.mk.inj heq
  exact ⟨ha, ho.symm⟩

end IsPlan

/-- The shards split the securities of the request and keep its other parameters; the overrides
of a shard are those of each of its securities. -/
structure ShardPlan (config : EngineConfig) (request : Request) (shards : List Request) : Prop where
  securities_eq : (shards.flatMap fun shard => shard.securities.getD []) =
    request.securities.getD []
  length_le : config.shardRequests = true → ∀ shard ∈ shards,
    (shard.securities.getD []).length ≤ config.shardChunkSize
  effective : ∀ shard ∈ shards, ∀ security ∈ shard.securities.getD [],
    Effective (request.overrides.getD [])
      ((securityOverridesOf request.toPreparedRequest security).getD [])
      (shard.overrides.getD [])
  securityOverrides : ∀ shard ∈ shards, shard.securityOverrides = none
  rest_eq : ∀ shard ∈ shards, shard =
    { request with
      securities := shard.securities
      overrides := shard.overrides
      securityOverrides := shard.securityOverrides }

theorem shardPlan_shardedRequests_iff {config : EngineConfig} {request : Request}
    {shards : List Request} (hvalid : config.validate = .ok ())
    (h : request.shardedRequests config = some shards) :
    ShardPlan config request shards ↔
      ∀ security ∈ request.securities.getD [], OverridesOnce (request.overrides.getD [])
        ((securityOverridesOf request.toPreparedRequest security).getD []) := by
  obtain ⟨planned, hplanned, rfl⟩ := Option.map_eq_some_iff.mp h
  have hplan := (isPlan_of_shardedRequests hplanned).1
  constructor
  · intro hshards security hsecurity
    rw [← hshards.securities_eq, flatMap_map, mem_flatMap] at hsecurity
    obtain ⟨small, hsmall, hmem⟩ := hsecurity
    have heffective := hshards.effective _ (mem_map_of_mem hsmall) security hmem
    apply effective_mergeOverridePairs_iff.mp
    exact (hplan.overrides_eq hsmall hmem).2 ▸ heffective
  · intro honce
    refine ⟨?_, ?_, ?_, ?_, ?_⟩
    · rw [flatMap_map]
      exact hplan.securities_eq
    · intro hsharding shard hshard
      obtain ⟨small, hsmall, rfl⟩ := mem_map.mp hshard
      exact length_le_of_shardedRequests hplanned hsharding (config.chunkSize_pos hvalid) small
        hsmall
    · intro shard hshard security hsecurity
      obtain ⟨small, hsmall, rfl⟩ := mem_map.mp hshard
      obtain ⟨hmem, hoverrides⟩ := hplan.overrides_eq hsmall hsecurity
      have heffective := effective_mergeOverridePairs_iff.mpr (honce security hmem)
      rw [← hoverrides] at heffective
      exact heffective
    · intro shard hshard
      obtain ⟨small, -, rfl⟩ := mem_map.mp hshard
      rfl
    · intro shard hshard
      obtain ⟨small, -, rfl⟩ := mem_map.mp hshard
      rfl

/-- Two securities of a reference data request, the first with its own currency. -/
def pricedIn (overrides : OverridePairs) : Request where
  raw := false
  operation := .referenceData
  shape := .refData ⟨.long, .string⟩
  securities := some ["IBM US Equity", "SAP GY Equity"]
  fields := some ["PX_LAST"]
  overrides := some overrides
  securityOverrides := some [("IBM US Equity", [("CRNCY", "GBP")])]
  fieldTypes := ∅
  includeSecurityErrors := false
  captureDelayed := none
  service := "//blp/refdata"
  operationName := "ReferenceDataRequest"
  requestOperation := none
  requestId := none
  extractor := .refData
  extractorSet := false
  security := none
  elements := none
  kwargs := none
  startDate := none
  endDate := none
  startDatetime := none
  endDatetime := none
  requestTz := none
  outputTz := none
  eventType := none
  eventTypes := none
  interval := none
  options := none
  manualFieldTypes := none
  returnEids := false
  onDelayed := none
  validateFields := none
  searchSpec := none
  fieldIds := none
  formatName := none

/-- A key given once: the first security has its own pair, the second the global one. -/
theorem shardPlan_shardedRequests_once :
    ∃ shards, (pricedIn [("CRNCY", "USD")]).shardedRequests ⟨true, 20, 16⟩ = some shards ∧
      ShardPlan ⟨true, 20, 16⟩ (pricedIn [("CRNCY", "USD")]) shards ∧
      shards.map (·.overrides) = [some [("CRNCY", "GBP")], some [("CRNCY", "USD")]] :=
  ⟨_, rfl, (shardPlan_shardedRequests_iff rfl rfl).mpr (by decide), rfl⟩

/-- A key given twice: its second global value stays beside the security's own. -/
theorem shardedRequests_keep_global_value : EngineConfig.validate ⟨true, 20, 16⟩ = .ok () ∧
    ∃ shards, (pricedIn [("CRNCY", "USD"), ("CRNCY", "EUR")]).shardedRequests ⟨true, 20, 16⟩ =
        some shards ∧
      ∃ shard ∈ shards, "IBM US Equity" ∈ shard.securities.getD [] ∧
        shard.overrides = some [("CRNCY", "GBP"), ("CRNCY", "EUR")] ∧
        ¬Effective [("CRNCY", "USD"), ("CRNCY", "EUR")] [("CRNCY", "GBP")]
          (shard.overrides.getD []) := by
  refine ⟨rfl, _, rfl, _, mem_cons_self, by decide, rfl, ?_⟩
  intro heffective
  have hown := heffective.own "CRNCY" "GBP" rfl
  revert hown
  decide

end Xbbg.Sharding
