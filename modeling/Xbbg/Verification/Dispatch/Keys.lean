import Xbbg.Model.Dispatch

/-! Dispatch keys as arithmetic: the slab key and the masked generation can be read
back from a correlation identifier, and no reserved identifier is ever issued. -/

namespace Xbbg.Dispatch

namespace DispatchKey

variable {k : ℕ} {g : UInt32} {key : DispatchKey}

theorem exists_withGeneration (hk : k + 1 < 2 ^ 32) (g : UInt32) :
    ∃ key, withGeneration k g = some key :=
  ⟨_, if_pos hk⟩

variable (h : withGeneration k g = some key)
include h

theorem withGeneration_eq_some :
    k + 1 < 2 ^ 32 ∧ key.value = (g.toNat % 2 ^ 30) * 2 ^ 32 + (k + 1) := by
  unfold withGeneration at h
  split at h
  · rename_i hk
    cases h
    refine ⟨hk, ?_⟩
    have hm : g.toNat &&& generationMask = g.toNat % 2 ^ 30 :=
      Nat.and_two_pow_sub_one_eq_mod g.toNat 30
    simp only [hm, slotBits]
    rw [← Nat.shiftLeft_add_eq_or_of_lt hk, Nat.shiftLeft_eq]
  · simp at h

theorem value_mod_of_withGeneration : key.value % 2 ^ 32 = k + 1 := by
  obtain ⟨hk, hv⟩ := withGeneration_eq_some h
  rw [hv, Nat.mul_add_mod', Nat.mod_eq_of_lt hk]

theorem value_and_slotMask_of_withGeneration : key.value &&& slotMask = k + 1 := by
  rw [← value_mod_of_withGeneration h]
  exact Nat.and_two_pow_sub_one_eq_mod key.value 32

theorem toSlabKey_of_withGeneration : key.toSlabKey = k := by
  rw [toSlabKey, value_and_slotMask_of_withGeneration h, Nat.add_sub_cancel]

/-- The identifier keeps the low thirty bits of the generation only. -/
theorem toNat_generation_of_withGeneration : key.generation.toNat = g.toNat % 2 ^ 30 := by
  obtain ⟨hk, hv⟩ := withGeneration_eq_some h
  have hs : key.value >>> slotBits = g.toNat % 2 ^ 30 := by
    rw [hv, slotBits, Nat.shiftRight_eq_div_pow]
    omega
  have hm : key.value >>> slotBits &&& generationMask = g.toNat % 2 ^ 30 := by
    rw [hs]
    exact (Nat.and_two_pow_sub_one_eq_mod _ 30).trans (Nat.mod_mod _ _)
  rw [generation, hm, UInt32.toNat_ofNat']
  omega

theorem fromCorrelationId_toCorrelationId : fromCorrelationId key.toCorrelationId = some key := by
  obtain ⟨hk, hv⟩ := withGeneration_eq_some h
  have hp : 0 < key.value := by omega
  have hlt : key.value < 2 ^ 62 := by omega
  have ht : key.value &&& serviceOpenCidTag = 0 := by
    have htw : serviceOpenCidTag = 2 ^ 62 := by decide
    rw [htw, Nat.and_two_pow, Nat.testBit_lt_two_pow hlt]
    simp
  have hs : key.value &&& slotMask ≠ 0 := by
    rw [value_and_slotMask_of_withGeneration h]
    omega
  simp [fromCorrelationId, toCorrelationId, hp, ht, hs]

theorem toCorrelationId_ne_identityCid : key.toCorrelationId ≠ .int identityCid := by
  intro heq
  have hv : key.value = 1 <<< 61 := by
    have := CorrelationId.int.inj heq
    unfold identityCid at this
    exact_mod_cast this
  have hm := value_mod_of_withGeneration h
  rw [hv] at hm
  simp at hm

end DispatchKey

end Xbbg.Dispatch
