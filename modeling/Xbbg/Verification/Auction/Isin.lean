import Mathlib.Algebra.GroupWithZero.Nat
import Xbbg.Model.Auction

/-! # The check of ISINs

The scan over the bytes from the right is the check of ISO 6166: letters are expanded to digits,
and these pass the check of Luhn. -/

namespace Xbbg.Auction

open List

/-! ### The specification -/

/-- Two letters, nine letters or digits, and the check digit. -/
def IsinForm (text : List Char) : Prop :=
  ∃ country body check, text = country ++ body ++ [check] ∧
    (country.length = 2 ∧ ∀ c ∈ country, c.isUpper = true) ∧
    (body.length = 9 ∧ ∀ c ∈ body, c.isUpper = true ∨ c.isDigit = true) ∧ check.isDigit = true

/-- A letter stands for the two digits of its number, from 10 for `A` to 35 for `Z`. -/
def expanded (c : Char) : List ℕ :=
  if c.isDigit then [c.toNat - 48] else [(c.toNat - 55) / 10, (c.toNat - 55) % 10]

/-- What a digit adds, with its place from the right: at odd ones it is doubled, and the digits of
the double are added. -/
def luhnTerm (place digit : ℕ) : ℕ :=
  if place % 2 = 1 then 2 * digit / 10 + 2 * digit % 10 else digit

/-- The sum over digits from the right. -/
def luhnSum (place : ℕ) (digits : List ℕ) : ℕ :=
  ((digits.zipIdx place).map fun entry => luhnTerm entry.2 entry.1).sum

def Luhn (digits : List ℕ) : Prop := luhnSum 0 digits.reverse % 10 = 0

/-! ### Bytes of ASCII texts -/

theorem asBytes_eq (text : String) :
    asBytes text = text.toList.flatMap fun c => (String.utf8EncodeChar c).map UInt8.toNat := by
  rw [asBytes, String.toUTF8_eq_toByteArray, ← String.utf8Encode_toList, List.utf8Encode]
  simp [map_flatMap]

variable {c : Char}

theorem encode_of_ascii (h : c.toNat < 128) :
    (String.utf8EncodeChar c).map UInt8.toNat = [c.toNat] := by
  have hv : c.val.toNat ≤ 127 := Nat.le_of_lt_succ h
  rw [String.utf8EncodeChar, if_pos hv, map_cons, map_nil, UInt8.toNat_ofNat', Char.toNat_val,
    Nat.mod_eq_of_lt (by omega)]

theorem ascii_of_encode
    (h : ∀ b ∈ (String.utf8EncodeChar c).map UInt8.toNat, b < 128) : c.toNat < 128 := by
  by_contra hn
  have hv : ¬c.val.toNat ≤ 127 := fun hle => hn (Nat.lt_succ_of_le hle)
  rw [String.utf8EncodeChar, if_neg hv] at h
  split_ifs at h
  all_goals
    have hb := h _ mem_cons_self
    simp at hb
    omega

theorem asBytes_of_ascii {text : String} (h : ∀ c ∈ text.toList, c.toNat < 128) :
    asBytes text = text.toList.map Char.toNat := by
  rw [asBytes_eq]
  generalize text.toList = cs at h
  induction cs with
  | nil => rfl
  | cons c cs ih =>
    rw [flatMap_cons, encode_of_ascii (h c mem_cons_self),
      ih fun d hd => h d (mem_cons_of_mem _ hd)]
    rfl

theorem ascii_of_asBytes {text : String} (h : ∀ b ∈ asBytes text, b < 128) :
    ∀ c ∈ text.toList, c.toNat < 128 := by
  intro c hc
  rw [asBytes_eq] at h
  exact ascii_of_encode fun b hb => h b (mem_flatMap.mpr ⟨c, hc, hb⟩)

theorem isAsciiUppercase_toNat (c : Char) : isAsciiUppercase c.toNat = c.isUpper := by
  change _ = decide (c.val ≥ 65 ∧ c.val ≤ 90)
  simp [isAsciiUppercase, UInt32.le_iff_toNat_le]

theorem isAsciiDigit_toNat (c : Char) : isAsciiDigit c.toNat = c.isDigit := by
  simp [isAsciiDigit, Char.isDigit, UInt32.le_iff_toNat_le]

theorem isUpper_iff : c.isUpper = true ↔ 65 ≤ c.toNat ∧ c.toNat ≤ 90 := by
  simp [← isAsciiUppercase_toNat, isAsciiUppercase]

theorem isDigit_iff : c.isDigit = true ↔ 48 ≤ c.toNat ∧ c.toNat ≤ 57 := by
  simp [← isAsciiDigit_toNat, isAsciiDigit]

/-! ### The sum -/

theorem luhnSum_cons (place digit : ℕ) (digits : List ℕ) :
    luhnSum place (digit :: digits) = luhnTerm place digit + luhnSum (place + 1) digits := by
  simp [luhnSum]

theorem luhnSum_append (place : ℕ) (front back : List ℕ) :
    luhnSum place (front ++ back) = luhnSum place front + luhnSum (place + front.length) back := by
  simp [luhnSum, zipIdx_append]

/-- The flag of the scan is the parity of the place. -/
theorem foldl_addDigit (sum place : ℕ) {digits : List ℕ} (h : ∀ d ∈ digits, d < 10) :
    (digits.foldl addDigit (sum, decide (place % 2 = 1))).1 = sum + luhnSum place digits := by
  induction digits generalizing sum place with
  | nil => rfl
  | cons digit digits ih =>
    have hd := h digit mem_cons_self
    have hp : (!decide (place % 2 = 1)) = decide ((place + 1) % 2 = 1) := by
      rcases Nat.mod_two_eq_zero_or_one place with hm | hm <;> simp [hm, Nat.add_mod]
    rw [foldl_cons, addDigit, hp, ih _ _ fun d hd => h d (mem_cons_of_mem _ hd), luhnSum_cons,
      luhnTerm]
    by_cases hm : place % 2 = 1
    · simp only [hm, decide_true, if_true]
      omega
    · simp only [hm, decide_false, Bool.false_eq_true, if_false]
      omega

theorem expanded_lt (h : c.isUpper = true ∨ c.isDigit = true) :
    ∀ d ∈ expanded c, d < 10 := by
  rw [isUpper_iff, isDigit_iff] at h
  unfold expanded
  split_ifs with hd
  · rw [isDigit_iff] at hd
    simp only [mem_singleton, forall_eq]
    omega
  · simp only [mem_cons, not_mem_nil, or_false, forall_eq_or_imp, forall_eq]
    omega

theorem isinDigits_toNat (h : c.isUpper = true ∨ c.isDigit = true) :
    isinDigits c.toNat = (expanded c).reverse := by
  rw [isinDigits, isAsciiDigit_toNat, expanded]
  split_ifs with hd
  · rfl
  · have hu := isUpper_iff.mp (h.resolve_right hd)
    rw [show c.toNat - 65 + 10 = c.toNat - 55 by omega]
    rfl

theorem luhn_iff {text : List Char} (h : ∀ c ∈ text, c.isUpper = true ∨ c.isDigit = true) :
    (((text.map Char.toNat).reverse.flatMap isinDigits).foldl addDigit (0, false)).1 % 10 = 0 ↔
      Luhn (text.flatMap expanded) := by
  have hd : (text.map Char.toNat).reverse.flatMap isinDigits = (text.flatMap expanded).reverse := by
    rw [← map_reverse, flatMap_map, reverse_flatMap]
    exact flatMap_congr fun c hc => isinDigits_toNat (h c (mem_reverse.mp hc))
  have hl : ∀ d ∈ (text.flatMap expanded).reverse, d < 10 := by
    intro d hd
    obtain ⟨c, hc, hd⟩ := mem_flatMap.mp (mem_reverse.mp hd)
    exact expanded_lt (h c hc) d hd
  rw [hd, Luhn, ← Nat.zero_add (luhnSum 0 _), ← foldl_addDigit 0 0 hl]
  rfl

theorem luhnTerm_injective : ∀ parity < 2, ∀ a < 10, ∀ b < 10,
    luhnTerm parity a % 10 = luhnTerm parity b % 10 → a = b := by
  decide

/-- One digit determines the others' sum. -/
theorem eq_of_luhn {front back : List ℕ} {a b : ℕ} (ha : a < 10) (hb : b < 10)
    (h : Luhn (front ++ a :: back)) (hr : Luhn (front ++ b :: back)) : a = b := by
  simp only [Luhn, reverse_append, reverse_cons, append_assoc, singleton_append, luhnSum_append,
    luhnSum_cons] at h hr
  generalize 0 + back.reverse.length = place at h hr
  have hp : ∀ digit, luhnTerm (place % 2) digit = luhnTerm place digit := by
    intro digit
    rw [luhnTerm, luhnTerm, Nat.mod_mod]
  have hi := luhnTerm_injective (place % 2) (Nat.mod_lt _ (by decide)) a ha b hb
  rw [hp, hp] at hi
  exact hi (by omega)

/-! ### The check -/

theorem IsinForm.alphanumeric {text : List Char} (h : IsinForm text) :
    ∀ c ∈ text, c.isUpper = true ∨ c.isDigit = true := by
  obtain ⟨country, body, check, rfl, ⟨-, hc⟩, ⟨-, hb⟩, hd⟩ := h
  intro c hm
  rcases mem_append.mp hm with hm | hm
  · rcases mem_append.mp hm with hm | hm
    · exact Or.inl (hc c hm)
    · exact hb c hm
  · rw [mem_singleton.mp hm]
    exact Or.inr hd

theorem ascii_of_alphanumeric (h : c.isUpper = true ∨ c.isDigit = true) :
    c.toNat < 128 := by
  rw [isUpper_iff, isDigit_iff] at h
  omega

theorem ascii_of_parts {bytes : List ℕ} (hc : ∀ b ∈ bytes.take 2, isAsciiUppercase b = true)
    (hb : ∀ b ∈ (bytes.drop 2).take 9, (isAsciiUppercase b || isAsciiDigit b) = true)
    (hd : ∀ b ∈ bytes.drop 11, isAsciiDigit b = true) : ∀ b ∈ bytes, b < 128 := by
  have hs : bytes = bytes.take 2 ++ ((bytes.drop 2).take 9 ++ bytes.drop 11) := by
    rw [show bytes.drop 11 = (bytes.drop 2).drop 9 by rw [drop_drop], take_append_drop,
      take_append_drop]
  simp only [isAsciiUppercase, isAsciiDigit, Bool.or_eq_true, Bool.and_eq_true,
    decide_eq_true_eq] at hc hb hd
  intro b hm
  rw [hs, mem_append, mem_append] at hm
  rcases hm with hm | hm | hm
  · have := hc b hm
    omega
  · have := hb b hm
    omega
  · have := hd b hm
    omega

theorem isValidIsin_iff (isin : String) :
    isValidIsin isin = true ↔ IsinForm isin.toList ∧ Luhn (isin.toList.flatMap expanded) := by
  constructor
  · intro h
    simp only [isValidIsin, Bool.and_eq_true, decide_eq_true_eq, all_eq_true] at h
    obtain ⟨⟨⟨⟨hl, hc⟩, hb⟩, hd⟩, hs⟩ := h
    have ha := asBytes_of_ascii (ascii_of_asBytes (ascii_of_parts hc hb hd))
    rw [ha] at hl hc hb hd hs
    simp only [← map_take, ← map_drop, mem_map, forall_exists_index, and_imp,
      forall_apply_eq_imp_iff₂, isAsciiUppercase_toNat, isAsciiDigit_toNat, length_map,
      Bool.or_eq_true] at hl hc hb hd
    obtain ⟨check, hcheck⟩ : ∃ check, isin.toList.drop 11 = [check] :=
      length_eq_one_iff.mp (by rw [length_drop, hl])
    have hf : IsinForm isin.toList := by
      refine ⟨isin.toList.take 2, (isin.toList.drop 2).take 9, check, ?_, ⟨?_, hc⟩, ⟨?_, hb⟩,
        hd check (by rw [hcheck]; exact mem_singleton_self check)⟩
      · rw [← hcheck, append_assoc, show isin.toList.drop 11 = (isin.toList.drop 2).drop 9 by
          rw [drop_drop], take_append_drop, take_append_drop]
      · rw [length_take, hl]
        rfl
      · rw [length_take, length_drop, hl]
        rfl
    exact ⟨hf, (luhn_iff hf.alphanumeric).mp hs⟩
  · rintro ⟨hf, hs⟩
    have ha := asBytes_of_ascii fun c hc => ascii_of_alphanumeric (hf.alphanumeric c hc)
    have hl := (luhn_iff hf.alphanumeric).mpr hs
    obtain ⟨country, body, check, ht, ⟨hcl, hc⟩, ⟨hbl, hb⟩, hd⟩ := hf
    have hf : isin.toList.take 2 = country := by rw [ht, append_assoc, take_left' hcl]
    have hr : isin.toList.drop 2 = body ++ [check] := by rw [ht, append_assoc, drop_left' hcl]
    have hla : isin.toList.drop 11 = [check] := by
      rw [show 11 = 2 + 9 from rfl, ← drop_drop, hr, drop_left' hbl]
    have hle : isin.toList.length = 12 := by
      rw [ht, length_append, length_append, hcl, hbl]
      rfl
    simp only [isValidIsin, ha, hl, length_map, hle, ← map_take, ← map_drop, hf, hr, hla,
      take_left' hbl, Bool.and_eq_true, decide_eq_true_eq, all_eq_true, mem_map,
      forall_exists_index, and_imp, forall_apply_eq_imp_iff₂, isAsciiUppercase_toNat,
      isAsciiDigit_toNat, Bool.or_eq_true, mem_singleton, exists_eq_left, forall_eq']
    exact ⟨⟨⟨⟨trivial, hc⟩, hb⟩, hd⟩, trivial⟩

/-- The check accepts the numbers of ISO 6166, and a wrong digit is found. -/
theorem isValidIsin_exact (isin : String) : (isValidIsin isin = true ↔
      IsinForm isin.toList ∧ Luhn (isin.toList.flatMap expanded)) ∧
    ∀ front old new back, isin.toList = front ++ old :: back → old.isDigit = true →
      new.isDigit = true → new ≠ old → isValidIsin isin = true →
      isValidIsin (String.ofList (front ++ new :: back)) = false := by
  refine ⟨isValidIsin_iff isin, ?_⟩
  intro front old new back ht ho hn hne hv
  rw [Bool.eq_false_iff]
  intro hw
  have hl := ((isValidIsin_iff _).mp hv).2
  have hr := ((isValidIsin_iff _).mp hw).2
  rw [ht] at hl
  simp only [String.toList_ofList, flatMap_append, flatMap_cons, expanded, ho, hn, if_true,
    singleton_append] at hl hr
  rw [isDigit_iff] at ho hn
  have he := eq_of_luhn (by omega) (by omega) hl hr
  exact hne (Char.toNat_inj.mp (by omega))

theorem isValidIsin_exact_changed_digit :
    isValidIsin "US0378331005" = true ∧ isValidIsin "US0378331004" = false := by
  have hv : isValidIsin "US0378331005" = true := by decide +kernel
  exact ⟨hv, (isValidIsin_exact _).2 "US037833100".toList '5' '4' [] rfl rfl rfl (by decide) hv⟩

end Xbbg.Auction
