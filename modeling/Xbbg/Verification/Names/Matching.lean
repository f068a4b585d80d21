import Mathlib.Data.List.Forall2
import Xbbg.Model.Names
import Xbbg.Verification.Auction.Isin

/-! # Matching of canonical names

The parts of a name are letters and digits, so that comparing their bytes compares the runs that the
canonical name joins. -/

namespace Xbbg.Names

open List Library Auction

/-! ### Letters and digits -/

variable {c : Char}

theorem isAlphanum_iff : c.isAlphanum = true ↔ (65 ≤ c.toNat ∧ c.toNat ≤ 90) ∨
    (97 ≤ c.toNat ∧ c.toNat ≤ 122) ∨ (48 ≤ c.toNat ∧ c.toNat ≤ 57) := by
  rw [← isUpper_iff, ← isDigit_iff]
  change (c.isUpper || (decide (c.val ≥ 97) && decide (c.val ≤ 122)) || c.isDigit) = true ↔ _
  simp [UInt32.le_iff_toNat_le, or_assoc]

theorem toNat_toLower (c : Char) : c.toLower.toNat = toAsciiLowercase c.toNat := by
  rw [toAsciiLowercase, isAsciiUppercase_toNat]
  unfold Char.toLower
  split
  · rename_i h
    have hu : c.isUpper = true := decide_eq_true h
    have hb := isUpper_iff.mp hu
    rw [if_pos hu]
    change (c.val + 32).toNat = c.toNat + 32
    rw [UInt32.toNat_add]
    change (c.toNat + 32) % 4294967296 = c.toNat + 32
    omega
  · rename_i h
    have hu : ¬c.isUpper = true := fun hu => h (of_decide_eq_true hu)
    rw [if_neg hu]

theorem isAlphanum_toLower (h : c.isAlphanum = true) : c.toLower.isAlphanum = true := by
  rw [isAlphanum_iff] at h ⊢
  rw [toNat_toLower, toAsciiLowercase]
  simp only [isAsciiUppercase, Bool.and_eq_true, decide_eq_true_eq]
  split <;> omega

theorem toLower_ne_underscore (h : c.isAlphanum = true) : c.toLower ≠ '_' := by
  intro he
  have hl := isAlphanum_toLower h
  rw [he] at hl
  cases hl

/-! ### Parts -/

theorem asBytes_injective {s t : String} (h : asBytes s = asBytes t) : s = t := by
  have hb := map_injective_iff.mpr (fun _ _ => UInt8.toNat_inj.mp) h
  exact String.toByteArray_inj.mp (ByteArray.ext (Array.toList_inj.mp hb))

variable {part : List Char}

theorem asBytes_of_alphanum (h : ∀ c ∈ part, c.isAlphanum = true) :
    asBytes (String.ofList part) = part.map Char.toNat := by
  rw [asBytes_of_ascii, String.toList_ofList]
  intro c hc
  rw [String.toList_ofList] at hc
  have := isAlphanum_iff.mp (h c hc)
  omega

theorem partMatches_iff {want : List Char} (h : ∀ c ∈ part, c.isAlphanum = true) :
    partMatches (String.ofList part) (String.ofList want) = true ↔
      part.map Char.toLower = want := by
  have hl : (asBytes (String.ofList part)).map toAsciiLowercase =
      asBytes (String.ofList (part.map Char.toLower)) := by
    have hm : ∀ c ∈ part.map Char.toLower, c.isAlphanum = true :=
      forall_mem_map.mpr fun c hc => isAlphanum_toLower (h c hc)
    rw [asBytes_of_alphanum h, asBytes_of_alphanum hm, map_map, map_map]
    exact map_congr_left fun c _ => (toNat_toLower c).symm
  have hz : partMatches (String.ofList part) (String.ofList want) = true ↔
      (asBytes (String.ofList part)).map toAsciiLowercase = asBytes (String.ofList want) := by
    rw [← forall₂_eq_eq_eq, forall₂_map_left_iff, forall₂_iff_zip]
    simp [partMatches]
  rw [hz, hl]
  refine ⟨fun he => ?_, fun he => by rw [he]⟩
  exact String.ofList_inj.mp (asBytes_injective he)

theorem partsMatch_iff {parts expected : List (List Char)}
    (h : ∀ part ∈ parts, ∀ c ∈ part, c.isAlphanum = true) :
    partsMatch parts expected = true ↔ parts.map (·.map Char.toLower) = expected := by
  induction parts generalizing expected with
  | nil => cases expected <;> simp [partsMatch]
  | cons part parts ih =>
    cases expected with
    | nil => simp [partsMatch]
    | cons want expected =>
      obtain ⟨hp, hr⟩ := forall_mem_cons.mp h
      rw [partsMatch, map_cons, cons.injEq, ← partMatches_iff hp, ← ih hr]
      by_cases hm : partMatches (String.ofList part) (String.ofList want) = true <;> simp [hm]

/-! ### Names -/

/-- The runs of letters and digits in lower case. -/
def runs (name : String) : List (List Char) :=
  (words (fun ch => !ch.isAlphanum) name.toList).map (·.map Char.toLower)

variable {name : String}

theorem isAlphanum_of_mem_words (h : part ∈ words (fun ch => !ch.isAlphanum) name.toList) :
    ∀ c ∈ part, c.isAlphanum = true := by
  intro c hc
  simpa using (isWord_of_mem_words h).2 c hc

theorem canonicalName_eq (name : String) :
    canonicalName name = String.ofList (['_'].intercalate (runs name)) := by
  have hs : (· == '_') ∘ (fun ch : Char => if ch.isAlphanum then ch.toLower else '_') =
      fun ch => !ch.isAlphanum := by
    funext ch
    by_cases hc : ch.isAlphanum = true
    · simp [hc, toLower_ne_underscore hc]
    · simp [hc]
  rw [canonicalName, words_map, hs, runs]
  congr 2
  refine map_congr_left fun part hp => map_congr_left fun c hc => ?_
  rw [if_pos (isAlphanum_of_mem_words hp c hc)]

theorem runs_spec {run : List Char} (h : run ∈ runs name) :
    run ≠ [] ∧ '_' ∉ run := by
  obtain ⟨part, hp, rfl⟩ := mem_map.mp h
  refine ⟨by simpa using (isWord_of_mem_words hp).1, fun hm => ?_⟩
  obtain ⟨c, hc, he⟩ := mem_map.mp hm
  exact toLower_ne_underscore (isAlphanum_of_mem_words hp c hc) he

theorem splitOn_joined (h : runs name ≠ []) :
    (['_'].intercalate (runs name)).splitOn '_' = runs name :=
  splitOn_intercalate '_' (fun _ hr => (runs_spec hr).2) h

/-- A name matches exactly if it is the canonical one: the runs of letters and digits in lower case,
joined by underscores. -/
theorem canonicalNameMatches_exact (value canonical : String) :
    (canonicalNameMatches value canonical = true ↔ canonicalName value = canonical) ∧
    (canonicalName value = canonical ↔
      canonical = String.ofList (['_'].intercalate (runs value))) := by
  rw [canonicalName_eq, canonicalNameMatches]
  refine ⟨?_, eq_comm⟩
  by_cases hc : canonical = ""
  · rw [if_pos hc, hc, List.isEmpty_iff, ← map_eq_nil_iff (f := (·.map Char.toLower))]
    change runs value = [] ↔ _
    refine ⟨fun h => by rw [h]; rfl, fun h => ?_⟩
    by_contra hne
    -- the parts of the empty text are one empty part, which is no run
    have hs := splitOn_joined hne
    rw [String.ofList_inj.mp h] at hs
    exact (runs_spec (by rw [← hs]; exact mem_cons_self)).1 rfl
  · rw [if_neg hc, partsMatch_iff fun part hp => isAlphanum_of_mem_words hp]
    change runs value = _ ↔ _
    constructor
    · intro h
      rw [h, intercalate_splitOn, String.ofList_toList]
    · rintro rfl
      rw [String.toList_ofList, splitOn_joined fun h => hc (by rw [h]; rfl)]

end Xbbg.Names
