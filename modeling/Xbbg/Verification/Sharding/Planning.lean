import Xbbg.Model.Sharding

/-! A shard plan covers the request: its shards ask for every security once, in order, with the
overrides that the whole request gives to that security. -/

namespace Xbbg.Sharding

open List Library

variable {prepared : PreparedRequest} {config : EngineConfig} {shards : List PreparedRequest}

/-! ### What a request asks for -/

/-- The securities of a request in order, each with the overrides that apply to it. -/
def requested (r : PreparedRequest) : List (String × OverridePairs) :=
  (r.securities.getD []).map fun security =>
    (security, (mergeOverridePairs r.overrides (securityOverridesOf r security)).getD [])

theorem getD_mergeOverridePairs_none (overrides : Option OverridePairs) :
    (mergeOverridePairs overrides none).getD [] = overrides.getD [] := by
  rw [mergeOverridePairs]
  split
  · rename_i he
    have hl : (overrides.getD []).length = 0 := by simpa using he
    rw [length_eq_zero_iff.mp hl]
    rfl
  · rfl

theorem requested_forSecurityShard (prepared : PreparedRequest) (securities : List String)
    (overrides : Option OverridePairs) :
    requested (prepared.forSecurityShard securities overrides) =
      securities.map fun sec => (sec, overrides.getD []) := by
  apply map_congr_left
  intro sec _
  exact Prod.ext rfl (getD_mergeOverridePairs_none overrides)

/-- Shards that share the semantics of the request and together ask for the same. -/
structure IsPlan (prepared : PreparedRequest) (shards : List PreparedRequest) : Prop where
  ne_nil : shards ≠ []
  shard : ∀ shard ∈ shards, ∃ securities overrides,
    shard = prepared.forSecurityShard securities overrides
  requested_eq : shards.flatMap requested = requested prepared

/-! ### Chunks of a fixed size -/

theorem flatten_chunks {chunkSize : ℕ} (hp : 0 < chunkSize) (fuel : ℕ) (securities : List String)
    (hf : securities.length ≤ fuel) : (chunks chunkSize fuel securities).flatten = securities := by
  induction fuel generalizing securities with
  | zero =>
    obtain rfl : securities = [] := length_eq_zero_iff.mp (by omega)
    rfl
  | succ fuel ih =>
    cases securities with
    | nil => rfl
    | cons sec rest =>
      rw [chunks, flatten_cons, ih]
      · exact take_append_drop chunkSize (sec :: rest)
      · rw [length_drop]
        rw [length_cons] at hf ⊢
        omega
      · simp

theorem isPlan_chunks {securities : List String} {chunkSize : ℕ}
    (hs : prepared.securities = some securities)
    (hn : ∀ sec, securityOverridesOf prepared sec = none)
    (hl : 2 ≤ (shardSecurityChunks securities chunkSize).length) :
    IsPlan prepared ((shardSecurityChunks securities chunkSize).map fun securities =>
      prepared.forSecurityShard securities prepared.overrides) := by
  have hp : 0 < chunkSize := by
    by_contra hzero
    have : chunkSize = 0 := by omega
    simp [shardSecurityChunks, this] at hl
  have hf : (shardSecurityChunks securities chunkSize).flatten = securities := by
    rw [shardSecurityChunks, if_neg (by omega)]
    exact flatten_chunks hp _ _ (le_refl _)
  refine ⟨?_, ?_, ?_⟩
  · intro hni
    rw [map_eq_nil_iff.mp hni] at hl
    simp at hl
  · intro sh hsh
    obtain ⟨c, -, rfl⟩ := mem_map.mp hsh
    exact ⟨c, prepared.overrides, rfl⟩
  · rw [flatMap_map]
    simp only [requested_forSecurityShard]
    rw [flatMap_def, ← map_flatten, hf, requested, hs, Option.getD_some]
    apply map_congr_left
    intro sec _
    rw [hn, getD_mergeOverridePairs_none]

/-! ### Runs of securities with the same overrides -/

namespace OverrideShards

variable {prepared : PreparedRequest} {securities : List String} {s : OverrideShards}

/-- After a number of securities, the finished shards and the current run ask for them. -/
structure Covers (prepared : PreparedRequest) (securities : List String) (s : OverrideShards) :
    Prop where
  shard : ∀ shard ∈ s.shards, ∃ securities overrides,
    shard = prepared.forSecurityShard securities overrides
  requested_eq : s.shards.flatMap requested ++ s.currentSecurities.map (fun security =>
      (security, (mergeOverridePairs prepared.overrides s.currentOverrides).getD [])) =
    securities.map fun security =>
      (security,
        (mergeOverridePairs prepared.overrides (securityOverridesOf prepared security)).getD [])
  idle : s.haveCurrent = false → s.currentSecurities = []

theorem Covers.push (h : Covers prepared securities s) :
    Covers prepared securities (s.pushSecurityOverrideShard prepared) ∧
      (s.pushSecurityOverrideShard prepared).currentSecurities = [] := by
  rw [pushSecurityOverrideShard]
  split
  · rename_i he
    exact ⟨h, isEmpty_iff.mp he⟩
  · refine ⟨⟨?_, ?_, fun _ => rfl⟩, rfl⟩
    · intro sh hs
      rcases mem_append.mp hs with hs | hs
      · exact h.shard sh hs
      · exact ⟨_, _, mem_singleton.mp hs⟩
    · simp only [flatMap_append, flatMap_singleton, requested_forSecurityShard, map_nil, append_nil]
      exact h.requested_eq

/-- The run before the next security: it has the overrides of that security or is empty. -/
theorem Covers.settle (h : Covers prepared securities s) (security : String) (maxChunk : ℕ) :
    ∃ t, OverrideShards.add prepared (securityOverridesOf prepared) maxChunk s security =
        { t with currentSecurities := t.currentSecurities ++ [security] } ∧
      Covers prepared securities t ∧ t.haveCurrent = true ∧
      t.currentOverrides = securityOverridesOf prepared security := by
  rw [OverrideShards.add]
  by_cases hp : (s.haveCurrent && (s.currentOverrides != securityOverridesOf prepared security ||
      maxChunk ≤ s.currentSecurities.length)) = true
  · obtain ⟨hco, he⟩ := h.push
    rw [if_pos hp]
    refine ⟨_, rfl, ?_, rfl, rfl⟩
    have heq := hco.requested_eq
    rw [he] at heq
    exact ⟨hco.shard, by simpa [he] using heq, fun hi => (nomatch hi)⟩
  · rw [if_neg hp]
    cases hc : s.haveCurrent with
    | false =>
      have he := h.idle hc
      have heq := h.requested_eq
      rw [he] at heq
      refine ⟨_, rfl, ?_, rfl, rfl⟩
      exact ⟨h.shard, by simpa [he] using heq, fun hi => (nomatch hi)⟩
    | true =>
      refine ⟨s, rfl, h, hc, ?_⟩
      by_contra hne
      exact hp (by simp [hc, hne])

theorem Covers.add (h : Covers prepared securities s) (sec : String) (maxChunk : ℕ) :
    Covers prepared (securities ++ [sec])
      (OverrideShards.add prepared (securityOverridesOf prepared) maxChunk s sec) := by
  obtain ⟨t, ht, hc, hcu, ho⟩ := h.settle sec maxChunk
  rw [ht]
  refine ⟨hc.shard, ?_, fun hi => by simp [hcu] at hi⟩
  rw [map_append, map_append, ← hc.requested_eq, ho, append_assoc]
  rfl

theorem isPlan_of_covers (h : Covers prepared securities s) (hne : securities ≠ [])
    (hs : prepared.securities = some securities) :
    IsPlan prepared (if s.haveCurrent then s.pushSecurityOverrideShard prepared else s).shards := by
  have hf : ∃ t, (if s.haveCurrent then s.pushSecurityOverrideShard prepared else s) = t ∧
      Covers prepared securities t ∧ t.currentSecurities = [] := by
    cases hcu : s.haveCurrent with
    | true => exact ⟨_, rfl, h.push⟩
    | false => exact ⟨s, rfl, h, h.idle hcu⟩
  obtain ⟨t, ht, hc, he⟩ := hf
  have heq := hc.requested_eq
  rw [he, map_nil, append_nil] at heq
  rw [ht]
  refine ⟨?_, hc.shard, ?_⟩
  · intro hn
    rw [hn, flatMap_nil, eq_comm, map_eq_nil_iff] at heq
    exact hne heq
  · rw [heq, requested, hs]
    rfl

end OverrideShards

theorem isPlan_of_securityOverrideShards (h : securityOverrideShards config prepared = some shards)
    : IsPlan prepared shards := by
  rw [securityOverrideShards] at h
  split at h
  · simp at h
  · simp at h
  · simp at h
  · simp at h
  · rename_i a rest securities hne ho hs
    cases h
    apply OverrideShards.isPlan_of_covers _ (by simpa using hne) hs
    have hc := foldl_holds (OverrideShards.Covers prepared) (fun _ _ sec hc => hc.add sec
        (if config.shardRequests then config.shardChunkSize else 2 ^ 64 - 1)) securities
      (l := []) (s := ⟨[], [], none, false⟩) ⟨by simp, rfl, fun _ => rfl⟩
    simpa using hc

theorem securityOverridesOf_eq_none {securities : List String}
    (hs : prepared.securities = some securities) (hne : securities ≠ [])
    (h : securityOverrideShards config prepared = none) (sec : String) :
    securityOverridesOf prepared sec = none := by
  rw [securityOverrideShards, hs] at h
  rw [securityOverridesOf]
  cases ho : prepared.securityOverrides with
  | none => rfl
  | some overrides =>
    cases overrides with
    | nil => rfl
    | cons a rest =>
      obtain ⟨sec, others, rfl⟩ := exists_cons_of_ne_nil hne
      simp [ho] at h

/-- A plan has runs with the same overrides or, without any, at least two chunks. -/
theorem shardedRequests_cases (h : shardedRequests config prepared = some shards) :
    prepared.shape ≠ .other ∧ (securityOverrideShards config prepared = some shards ∨
        ∃ securities, securityOverrideShards config prepared = none ∧
          prepared.securities = some securities ∧ securities ≠ [] ∧
          2 ≤ (shardSecurityChunks securities config.shardChunkSize).length ∧
          shards = (shardSecurityChunks securities config.shardChunkSize).map fun securities =>
            prepared.forSecurityShard securities prepared.overrides) := by
  rw [shardedRequests] at h
  split at h
  · simp at h
  · simp at h
  · simp at h
  · rename_i hs
    refine ⟨hs, ?_⟩
    split at h
    · rename_i ho
      exact .inl (h ▸ ho)
    · rename_i ho
      split at h
      · simp at h
      · split at h
        · simp at h
        · rename_i securities hse
          split at h
          · simp at h
          · rename_i hl
            dsimp only at h
            split at h
            · simp at h
            · rename_i hle
              have hne : securities ≠ [] := by
                rintro rfl
                simp at hl
              exact .inr ⟨securities, ho, hse, hne, by omega, (Option.some.inj h).symm⟩

theorem isPlan_of_shardedRequests (h : shardedRequests config prepared = some shards) :
    IsPlan prepared shards ∧ prepared.shape ≠ .other := by
  obtain ⟨hs, hr | ⟨securities, ho, hse, hne, hl, rfl⟩⟩ :=
    shardedRequests_cases h
  · exact ⟨isPlan_of_securityOverrideShards hr, hs⟩
  · exact ⟨isPlan_chunks hse (securityOverridesOf_eq_none hse hne ho) hl, hs⟩

end Xbbg.Sharding
