import Mathlib.Tactic.IntervalCases
import Xbbg.Library.Results
import Xbbg.Model.Tickers

/-! Generic futures tickers are taken apart and put together again. Only the last digit is read as
the index, so this holds for the positions one to nine. -/

namespace Xbbg.Tickers

open List Library

/-! ### Splitting and joining -/

abbrev IsPart (part : String) : Prop := IsWord isWhitespace part.toList

theorem splitWhitespace_join {parts : List String} (h : ∀ part ∈ parts, IsPart part) :
    splitWhitespace (join parts) = parts := by
  rw [splitWhitespace, join, String.toList_ofList, words_intercalate (by decide)]
  · rw [map_map]
    exact (map_congr_left fun part _ => String.ofList_toList).trans (map_id' _)
  · intro word hw
    obtain ⟨part, hp, rfl⟩ := mem_map.mp hw
    exact h part hp

theorem isPart_of_mem_splitWhitespace {s part : String} (h : part ∈ splitWhitespace s) :
    IsPart part := by
  obtain ⟨word, hw, rfl⟩ := mem_map.mp h
  rw [IsPart, String.toList_ofList]
  exact isWord_of_mem_words hw

theorem join_singleton (part : String) : join [part] = part := by
  simp [join]

theorem join_cons (part : String) {parts : List String} (h : parts ≠ []) :
    join (part :: parts) = part ++ " " ++ join parts := by
  cases parts with
  | nil => exact absurd rfl h
  | cons next rest =>
    apply String.toList_inj.mp
    simp [join, intercalate_cons_cons]

theorem not_isWhitespace_of_isDigit {c : Char} (h : c.isDigit = true) : isWhitespace c = false := by
  simp only [Char.isDigit, Bool.and_eq_true, decide_eq_true_eq] at h
  have hl : 48 ≤ c.toNat := h.1
  have hh : c.toNat ≤ 57 := h.2
  simp only [isWhitespace, Bool.or_eq_false_iff, Bool.and_eq_false_iff, decide_eq_false_iff_not]
  omega

/-! ### Generic tickers -/

/-- The asset classes of generic tickers; an equity has an exchange code. -/
inductive AssetClass where
  | index
  | curncy
  | comdty
  | corp
  | equity (exchange : String)

namespace AssetClass

def name : AssetClass → String
  | index => "Index"
  | curncy => "Curncy"
  | comdty => "Comdty"
  | corp => "Corp"
  | equity _ => "Equity"

def exchange : AssetClass → Option String
  | equity code => some code
  | _ => none

def parts : AssetClass → List String
  | equity code => [code, "Equity"]
  | asset => [asset.name]

def IsValid : AssetClass → Prop
  | equity code => IsPart code
  | _ => True

end AssetClass

/-- A root has characters, none of which is a digit or a blank. -/
def IsRoot (root : String) : Prop :=
  root.toList ≠ [] ∧ ∀ c ∈ root.toList, isWhitespace c = false ∧ c.isDigit = false

/-- The ticker of a position, as Bloomberg writes it. -/
def genericTicker (root : String) (n : ℕ) (asset : AssetClass) : String :=
  join ((root ++ toString n) :: asset.parts)

variable {root : String} {asset : AssetClass} {n : ℕ}

theorem isPart_base (hr : IsRoot root) (n : ℕ) : IsPart (root ++ toString n) := by
  rw [IsPart, String.toList_append, toList_toString]
  refine ⟨by simp [hr.1], fun c hc => ?_⟩
  rcases mem_append.mp hc with hc | hc
  · exact (hr.2 c hc).1
  · exact not_isWhitespace_of_isDigit (Nat.isDigit_of_mem_toDigits (by decide) (by decide) hc)

theorem isPart_name (asset : AssetClass) : IsPart asset.name := by
  cases asset with
  | index | curncy | comdty | corp => exact ⟨by decide, by simp [AssetClass.name, isWhitespace]⟩
  | equity code => exact ⟨by simp [AssetClass.name], by simp [AssetClass.name, isWhitespace]⟩

theorem isPart_of_mem_parts (ha : asset.IsValid) {part : String} (h : part ∈ asset.parts) :
    IsPart part := by
  cases asset with
  | equity code =>
    rcases mem_cons.mp h with rfl | h
    · exact ha
    · rw [mem_singleton.mp h]
      exact isPart_name (.equity code)
  | index | curncy | comdty | corp =>
    rw [mem_singleton.mp h]
    exact isPart_name _

theorem splitWhitespace_genericTicker (hr : IsRoot root) (ha : asset.IsValid) (n : ℕ) :
    splitWhitespace (genericTicker root n asset) = (root ++ toString n) :: asset.parts := by
  apply splitWhitespace_join
  intro part hp
  rcases mem_cons.mp hp with rfl | hp
  · exact isPart_base hr n
  · exact isPart_of_mem_parts ha hp

theorem parsePrefixIndex_base (hr : IsRoot root) (hn : n ≤ 9) :
    parsePrefixIndex (root ++ toString n) = .ok (root, n) := by
  have hd : (root ++ toString n).toList.reverse = n.digitChar :: root.toList.reverse := by
    rw [String.toList_append, toList_toString, Nat.toDigits_of_lt_base (by omega)]
    simp
  have hdi : n.digitChar.isDigit = true := by
    interval_cases n <;> decide
  have hv : parseU32 [n.digitChar] = some n := by
    interval_cases n <;> decide
  rw [parsePrefixIndex, hd, dropWhile_cons_of_neg (by simp [hdi])]
  dsimp only
  rw [hv]
  simp [hr.1]

theorem parseTickerParts_genericTicker (hr : IsRoot root) (ha : asset.IsValid) (hn : n ≤ 9) :
    parseTickerParts (genericTicker root n asset) = .ok ⟨root, n, asset.name, asset.exchange⟩ := by
  have hb := parsePrefixIndex_base hr hn
  unfold parseTickerParts
  rw [splitWhitespace_genericTicker hr ha]
  generalize root ++ toString n = base at hb
  cases asset <;>
  · simp [AssetClass.parts, AssetClass.name, AssetClass.exchange, join_singleton, hb, bind,
      Except.bind, pure, Except.pure]

theorem withGenericIndex_genericTicker (hr : IsRoot root) (ha : asset.IsValid)
    (hn : n ≤ 9) (m : ℕ) :
    withGenericIndex (genericTicker root n asset) m = .ok (genericTicker root m asset) := by
  rw [withGenericIndex, parseTickerParts_genericTicker hr ha hn]
  cases asset <;>
  · simp [bind, Except.bind, pure, Except.pure, AssetClass.name, AssetClass.exchange,
      genericTicker, AssetClass.parts, join_cons, join_singleton, String.append_assoc]

theorem parseU32_digit_le {c : Char} {index : ℕ} (h : parseU32 [c] = some index) : index ≤ 9 := by
  unfold parseU32 parseUnsigned at h
  split at h
  · simp_all
  · simp only [isEmpty_cons, all_cons, all_nil, Bool.and_true, Bool.false_or] at h
    split at h
    · cases h
    · rename_i hd
      have hc : c.toNat ≤ 57 := by
        simp only [Char.isDigit, Bool.not_eq_true', Bool.not_eq_false, Bool.and_eq_true,
          decide_eq_true_eq] at hd
        exact hd.2
      split at h <;> cases h
      rw [Nat.ofDigitChars_cons, Nat.ofDigitChars_nil]
      change 10 * 0 + (c.toNat - 48) ≤ 9
      omega

/-- The index is a single digit, whatever the ticker is. -/
theorem index_le_of_parseTickerParts {ticker : String} {parts : TickerParts}
    (h : parseTickerParts ticker = .ok parts) : parts.index ≤ 9 := by
  have hbase {base asset : String} {exchange : Option String}
      (h : (parsePrefixIndex base >>= fun p => pure ⟨p.1, p.2, asset, exchange⟩) = .ok parts) :
      parts.index ≤ 9 := by
    obtain ⟨p, hp, h⟩ := bind_eq_ok.mp h
    cases h
    unfold parsePrefixIndex at hp
    split at hp
    · cases hp
    · split at hp
      · cases hp
      · rename_i hi
        split at hp <;> cases hp
        exact parseU32_digit_le hi
  unfold parseTickerParts at h
  extract_lets words at h
  clear_value words
  split at h
  · cases h
  · split at h
    · split at h
      · cases h
      · exact hbase h
    · split at h
      · split at h
        · split at h
          · cases h
          · exact hbase h
        · cases h
      · cases h

/-- For every root, asset class and positions, the ticker gives back its parts, also with another
position, exactly if the positions have one digit. -/
theorem genericTicker_roundTrip_iff (root : String) (n m : ℕ) (asset : AssetClass)
    (hroot : IsRoot root) (hasset : asset.IsValid) :
    (parseTickerParts (genericTicker root n asset) = .ok ⟨root, n, asset.name, asset.exchange⟩ ∧
      contractIndex (genericTicker root n asset) = .ok (n - 1) ∧
      ∃ ticker, withGenericIndex (genericTicker root n asset) m = .ok ticker ∧
        parseTickerParts ticker = .ok ⟨root, m, asset.name, asset.exchange⟩) ↔
      n ≤ 9 ∧ m ≤ 9 := by
  constructor
  · rintro ⟨hn, -, ticker, -, hm⟩
    exact ⟨index_le_of_parseTickerParts hn, index_le_of_parseTickerParts hm⟩
  · rintro ⟨hn, hm⟩
    have hparts := parseTickerParts_genericTicker hroot hasset hn
    refine ⟨hparts, ?_, _, withGenericIndex_genericTicker hroot hasset hn m,
      parseTickerParts_genericTicker hroot hasset hm⟩
    rw [contractIndex, hparts]
    rfl

/-- The twelfth position is read as the second one of another root. -/
theorem genericTicker_misread_twelve :
    parseTickerParts (genericTicker "ES" 12 .index) = .ok ⟨"ES1", 2, "Index", none⟩ ∧
      contractIndex (genericTicker "ES" 12 .index) = .ok 1 ∧
      ∃ ticker, withGenericIndex (genericTicker "ES" 1 .index) 12 = .ok ticker ∧
        parseTickerParts ticker = .ok ⟨"ES1", 2, "Index", none⟩ :=
  ⟨rfl, rfl, _, rfl, rfl⟩

theorem genericTicker_roundTrip_spy :
    parseTickerParts "SPY1 US Equity" = .ok ⟨"SPY", 1, "Equity", some "US"⟩ ∧
      ∃ ticker, withGenericIndex "SPY1 US Equity" 9 = .ok ticker ∧
        parseTickerParts ticker = .ok ⟨"SPY", 9, "Equity", some "US"⟩ := by
  have htrip := (genericTicker_roundTrip_iff "SPY" 1 9 (.equity "US")
    ⟨by decide, by simp [isWhitespace]⟩ ⟨by decide, by simp [isWhitespace]⟩).mpr (by decide)
  exact ⟨htrip.1, htrip.2.2⟩

end Xbbg.Tickers
