import Mathlib.Data.List.Basic

/-! Words of a text, separated by characters of a class, and numbers written in decimal. -/

namespace Xbbg.Library

open List

/-! ### Words -/

variable {α : Type*} (isSpace : α → Bool)

/-- The maximal runs of characters that do not separate words. -/
def words (l : List α) : List (List α) := (l.splitOnP isSpace).filter fun word => !word.isEmpty

/-- A word has characters, none of which separates words. -/
def IsWord (word : List α) : Prop := word ≠ [] ∧ ∀ c ∈ word, isSpace c = false

variable {isSpace}

theorem words_append_cons {word : List α} (hw : IsWord isSpace word) {c : α}
    (hc : isSpace c = true) (rest : List α) :
    words isSpace (word ++ c :: rest) = word :: words isSpace rest := by
  rw [words, splitOnP_append_cons_of_forall_mem hw.2 c hc, filter_cons_of_pos]
  · rfl
  · simpa using hw.1

theorem words_of_isWord {word : List α} (hw : IsWord isSpace word) :
    words isSpace word = [word] := by
  rw [words, splitOnP_eq_singleton hw.2]
  simp [hw.1]

theorem words_intercalate {c : α} (hc : isSpace c = true) {ws : List (List α)}
    (hws : ∀ word ∈ ws, IsWord isSpace word) : words isSpace ([c].intercalate ws) = ws := by
  induction ws with
  | nil => simp [words]
  | cons word rest ih =>
    cases rest with
    | nil => simpa using words_of_isWord (hws word (by simp))
    | cons next rest =>
      rw [intercalate_cons_cons]
      simp only [singleton_append, append_assoc]
      rw [words_append_cons (hws word (by simp)) hc, ih fun w hw => hws w (mem_cons_of_mem _ hw)]

theorem not_isSpace_of_mem_splitOnP {l word : List α} (h : word ∈ l.splitOnP isSpace) {c : α}
    (hc : c ∈ word) : isSpace c = false := by
  induction l generalizing word with
  | nil =>
    obtain rfl : word = [] := by simpa using h
    cases hc
  | cons a l ih =>
    rw [splitOnP_cons_eq_if_modifyHead] at h
    by_cases ha : isSpace a = true
    · rw [if_pos ha] at h
      rcases mem_cons.mp h with rfl | h
      · cases hc
      · exact ih h hc
    · rw [if_neg ha] at h
      cases hs : l.splitOnP isSpace with
      | nil => exact absurd hs (splitOnP_ne_nil _ _)
      | cons first rest =>
        rw [hs, modifyHead_cons] at h
        rcases mem_cons.mp h with rfl | h
        · rcases mem_cons.mp hc with rfl | hc
          · simpa using ha
          · exact ih (by rw [hs]; exact mem_cons_self) hc
        · exact ih (by rw [hs]; exact mem_cons_of_mem _ h) hc

theorem isWord_of_mem_words {l word : List α} (h : word ∈ words isSpace l) :
    IsWord isSpace word := by
  obtain ⟨hm, hne⟩ := mem_filter.mp h
  exact ⟨by simpa using hne, fun c hc => not_isSpace_of_mem_splitOnP hm hc⟩

theorem splitOnP_map {β : Type*} (f : β → α) (l : List β) :
    (l.map f).splitOnP isSpace = (l.splitOnP (isSpace ∘ f)).map (·.map f) := by
  induction l with
  | nil => simp
  | cons a l ih =>
    rw [map_cons, splitOnP_cons_eq_if_modifyHead, splitOnP_cons_eq_if_modifyHead, ih]
    by_cases hp : isSpace (f a) = true
    · simp [hp]
    · cases l.splitOnP (isSpace ∘ f) <;> simp [hp]

theorem words_map {β : Type*} (f : β → α) (l : List β) :
    words isSpace (l.map f) = (words (isSpace ∘ f) l).map (·.map f) := by
  rw [words, splitOnP_map, filter_map, words]
  simp [Function.comp_def]

/-! ### Decimal numbers -/

/-- An unsigned number below the bound, with an optional plus sign. -/
def parseUnsigned (bound : ℕ) (text : List Char) : Option ℕ :=
  let digits := match text with
    | '+' :: rest => rest
    | _ => text
  if digits.isEmpty || !digits.all Char.isDigit then none
  else if Nat.ofDigitChars 10 digits 0 < bound then some (Nat.ofDigitChars 10 digits 0) else none

theorem toList_toString (n : ℕ) : (toString n).toList = Nat.toDigits 10 n := by
  rw [Nat.toString_eq_repr, Nat.toList_repr]

theorem lt_of_parseUnsigned {bound n : ℕ} {text : List Char}
    (h : parseUnsigned bound text = some n) : n < bound := by
  unfold parseUnsigned at h
  extract_lets digits at h
  by_cases hd : (digits.isEmpty || !digits.all Char.isDigit) = true
  · rw [if_pos hd] at h
    cases h
  · rw [if_neg hd] at h
    by_cases hlt : Nat.ofDigitChars 10 digits 0 < bound
    · rw [if_pos hlt] at h
      rw [← Option.some.inj h]
      exact hlt
    · rw [if_neg hlt] at h
      cases h

theorem parseUnsigned_toDigits {bound n : ℕ} (h : n < bound) :
    parseUnsigned bound (Nat.toDigits 10 n) = some n := by
  have hd : ∀ c ∈ Nat.toDigits 10 n, c.isDigit = true := fun c =>
    Nat.isDigit_of_mem_toDigits (by decide) (by decide)
  have hv : Nat.ofDigitChars 10 (Nat.toDigits 10 n) 0 = n :=
    Nat.ofDigitChars_toDigits (by decide) (by decide)
  unfold parseUnsigned
  split
  · rename_i rest hpl
    have hp := hd '+' (by rw [hpl]; exact mem_cons_self)
    exact absurd hp (by decide)
  · have ha : (Nat.toDigits 10 n).all Char.isDigit = true := all_eq_true.mpr hd
    have hne : (Nat.toDigits 10 n).isEmpty = false := by simp [Nat.toDigits_ne_nil]
    simp only [ha, hne, hv]
    simp [h]

end Xbbg.Library
