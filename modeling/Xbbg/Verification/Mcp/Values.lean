import Xbbg.Model.McpResults

/-! # Sizes of bounded strings and values

The counts that the conversion keeps are the bytes of what it keeps. -/

namespace Xbbg.Mcp

open List Library

/-! ## Strings -/

theorem utf8Size_digitChar : ∀ d < 16, (Nat.digitChar d).utf8Size = 1 := by decide

theorem utf8Len_escapeChar (c : Char) : utf8Len (escapeChar c) = jsonEscapedCharBytes c := by
  unfold escapeChar jsonEscapedCharBytes
  by_cases hs : c = '"' ∨ c = '\\' ∨ c = '\x08' ∨ c = '\t' ∨ c = '\n' ∨ c = '\x0c' ∨ c = '\r'
  · rw [if_pos hs]
    rcases hs with rfl | rfl | rfl | rfl | rfl | rfl | rfl <;> decide
  · rw [if_neg hs]
    simp only [not_or] at hs
    obtain ⟨h1, h2, h3, h4, h5, h6, h7⟩ := hs
    rw [if_neg h1, if_neg h2, if_neg h3, if_neg h4, if_neg h5, if_neg h6, if_neg h7]
    by_cases hc : c.toNat < 32
    · rw [if_pos hc, if_pos (Nat.lt_succ_iff.mp hc)]
      have hh : (hexDigit (c.toNat / 16)).utf8Size = 1 := utf8Size_digitChar _ (by omega)
      have hl : (hexDigit (c.toNat % 16)).utf8Size = 1 := utf8Size_digitChar _ (by omega)
      simp only [utf8Len_cons, utf8Len_nil, hh, hl]
      decide
    · rw [if_neg hc, if_neg (by omega), utf8Len_cons, utf8Len_nil, Nat.add_zero]

def escapedLen (content : List Char) : ℕ := (content.map jsonEscapedCharBytes).sum

@[simp]
theorem escapedLen_cons (c : Char) (content : List Char) :
    escapedLen (c :: content) = jsonEscapedCharBytes c + escapedLen content := by
  rw [escapedLen, map_cons, sum_cons]
  rfl

theorem size_string (v : String) : (Json.string v).size = 2 + escapedLen v.toList := by
  have he : ∀ content : List Char, utf8Len (content.flatMap escapeChar) = escapedLen content := by
    intro content
    induction content with
    | nil => rfl
    | cons c content ih =>
      rw [flatMap_cons, utf8Len_append, ih, utf8Len_escapeChar, escapedLen_cons]
  have hq : Char.utf8Size '"' = 1 := rfl
  rw [Json.size, Json.text, stringText, utf8Len_append, utf8Len_cons, utf8Len_cons, he,
    hq, utf8Len_nil]
  omega

theorem foldl_satAdd (content : List Char) (bytes : ℕ) :
    content.foldl (fun bytes c => satAdd bytes (jsonEscapedCharBytes c)) (saturate bytes) =
      saturate (bytes + escapedLen content) := by
  induction content generalizing bytes with
  | nil => rfl
  | cons c content ih =>
    rw [foldl_cons, satAdd, saturate_saturate_add, ih, escapedLen_cons, Nat.add_assoc]

section BoundedJsonContent

variable (charLimit byteLimit jsonLimit : ℕ)

theorem boundedJsonContent_isPrefix (chars rawBytes jsonBytes : ℕ) (content : List Char) :
    boundedJsonContent charLimit byteLimit jsonLimit chars rawBytes jsonBytes content <+:
      content := by
  induction content generalizing chars rawBytes jsonBytes with
  | nil => exact nil_prefix
  | cons c content ih =>
    rw [boundedJsonContent]
    split
    · exact nil_prefix
    · exact cons_prefix_cons.mpr ⟨rfl, ih _ _ _⟩

/-- The escaped bytes stay within their limit, from a start that does. -/
theorem boundedJsonContent_le (chars rawBytes jsonBytes : ℕ) (content : List Char)
    (h : saturate jsonBytes ≤ jsonLimit) :
    saturate (jsonBytes + escapedLen
      (boundedJsonContent charLimit byteLimit jsonLimit chars rawBytes jsonBytes content)) ≤
        jsonLimit := by
  induction content generalizing chars rawBytes jsonBytes with
  | nil => exact h
  | cons c content ih =>
    rw [boundedJsonContent]
    split
    · exact h
    · rename_i hf
      rw [not_or, not_or] at hf
      have hn : saturate (jsonBytes + jsonEscapedCharBytes c) ≤ jsonLimit :=
        Nat.not_lt.mp hf.2.2
      rw [escapedLen_cons, ← Nat.add_assoc]
      exact ih _ _ _ hn

end BoundedJsonContent

/-- A text is kept, or it is cut, with an ellipsis at the end, or it is left out. -/
def Shortens (value result : String) : Prop :=
  result = value ∨ result = "" ∨
    ∃ content, content <+: value.toList ∧ result = String.ofList (content ++ ['…'])

theorem boundedJsonString_shortens (v : String) (lims : ResultLimits) (maxBytes : ℕ)
    (stats : ValueStats) : Shortens v (boundedJsonString v lims maxBytes stats).1 := by
  unfold boundedJsonString
  split
  · exact .inl rfl
  · split
    · exact .inr (.inl rfl)
    · exact .inr (.inr ⟨_, boundedJsonContent_isPrefix _ _ _ _ _ _ _, rfl⟩)

theorem boundedJsonString_le (v : String) (lims : ResultLimits) {maxBytes : ℕ}
    (h : 2 ≤ maxBytes) (stats : ValueStats) :
    serializedLen (.string (boundedJsonString v lims maxBytes stats).1) ≤ maxBytes := by
  unfold boundedJsonString
  split
  · rename_i hfi
    have hf := foldl_satAdd v.toList 2
    rw [saturate_of_le (show 2 ≤ usizeMax by decide)] at hf
    rw [serializedLen, size_string, ← hf]
    exact hfi.2
  · split
    · have he : serializedLen (.string "") = 2 := by decide
      rw [he]
      exact h
    · rename_i hr
      have hc := boundedJsonContent_le (lims.maxStringChars - 1)
        (lims.maxStringBytes - ellipsis.utf8Size) (maxBytes - 2 - ellipsis.utf8Size) 0 0 0
        v.toList (Nat.zero_le _)
      rw [Nat.zero_add] at hc
      generalize boundedJsonContent _ _ _ _ _ _ _ = content at hc ⊢
      have hel : ellipsis.utf8Size = 3 := rfl
      have hs : (Json.string (String.ofList (content ++ [ellipsis]))).size =
          escapedLen content + 5 := by
        have hl : escapedLen [ellipsis] = 3 := rfl
        rw [size_string, String.toList_ofList, escapedLen, map_append, sum_append,
          ← escapedLen, ← escapedLen, hl]
        omega
      rw [hel] at hc
      rw [serializedLen, hs, ← saturate_saturate_add]
      exact (saturate_le_self _).trans (by omega)

/-! ## Values -/

namespace BoundedItems

variable {α : Type}

/-- The count is the size of the container, and within the budget. -/
structure Exact (container : List α → Json) (maxBytes : ℕ) (acc : BoundedItems α) : Prop where
  bytes_eq : acc.bytes = serializedLen (container acc.bounded)
  bytes_le : 2 ≤ maxBytes → acc.bytes ≤ maxBytes

variable {container : List α → Json} {maxBytes : ℕ} {acc : BoundedItems α}

theorem Exact.stop (h : acc.Exact container maxBytes) (rest : ℕ) :
    (acc.stop rest).Exact container maxBytes := ⟨h.bytes_eq, h.bytes_le⟩

theorem Exact.skip (h : acc.Exact container maxBytes) : acc.skip.Exact container maxBytes :=
  ⟨h.bytes_eq, h.bytes_le⟩

theorem Exact.offer (h : acc.Exact container maxBytes) {overhead : ℕ}
    {childValue : BoundedMetadataValue} {kept : List α}
    (hk : serializedLen (container kept) =
      satAdd (satAdd acc.bytes overhead) childValue.bytes) (ch : Json) :
    (acc.offer maxBytes overhead ch childValue kept).Exact container maxBytes := by
  unfold BoundedItems.offer
  split
  · exact ⟨h.bytes_eq, h.bytes_le⟩
  · dsimp only
    split
    · exact h.skip
    · rename_i hf
      exact ⟨hk.symm, fun _ => Nat.not_lt.mp hf⟩

theorem offer_bounded (acc : BoundedItems α) (maxBytes overhead : ℕ) (ch : Json)
    (childValue : BoundedMetadataValue) (kept : List α) :
    (acc.offer maxBytes overhead ch childValue kept).bounded = acc.bounded ∨
      (acc.offer maxBytes overhead ch childValue kept).bounded = kept := by
  unfold BoundedItems.offer
  split
  · exact .inl rfl
  · dsimp only
    split
    · exact .inl rfl
    · exact .inr rfl

end BoundedItems

/-- The value that a value of metadata is bounded to has the size that is reported for it, for all
budgets. -/
def Reported (limits : ResultLimits) (value : Json) : Prop :=
  ∀ maxProperties maxBytes, (boundMetadataValue limits value maxProperties maxBytes).bytes =
    serializedLen (boundMetadataValue limits value maxProperties maxBytes).value

theorem boundText_bytes (lims : ResultLimits) (v : String) (maxBytes : ℕ) :
    (boundText lims v maxBytes).bytes = serializedLen (boundText lims v maxBytes).value := by
  unfold boundText
  dsimp only
  split
  · rfl
  · decide

theorem exact_boundItems {limits : ResultLimits} {items : List Json}
    (hi : ∀ item ∈ items, Reported limits item) (maxProperties : ℕ) {maxBytes : ℕ}
    {acc : BoundedItems Json} (h : acc.Exact .array maxBytes) :
    (boundItems limits items maxProperties maxBytes acc).Exact .array maxBytes := by
  induction items generalizing acc with
  | nil => exact h
  | cons child rest ih =>
    have hr : ∀ item ∈ rest, Reported limits item :=
      fun item hit => hi item (mem_cons_of_mem _ hit)
    have hc := hi child mem_cons_self
    rw [boundItems]
    split
    · exact h.stop _
    · apply ih hr
      apply h.offer
      rw [hc, serializedLen, Json.size_array_concat, h.bytes_eq]
      simp only [serializedLen, satAdd, saturate_saturate_add, saturate_add_saturate]

theorem exact_boundEntries {limits : ResultLimits} {entries : List (String × Json)}
    (he : ∀ entry ∈ entries, Reported limits entry.2) (maxProperties : ℕ) {maxBytes : ℕ}
    {acc : BoundedItems (String × Json)} (h : acc.Exact .object maxBytes)
    (hn : (entries.map Prod.fst).Nodup)
    (hf : ∀ key ∈ acc.bounded.map Prod.fst, key ∉ entries.map Prod.fst) :
    (boundEntries limits entries maxProperties maxBytes acc).Exact .object maxBytes := by
  induction entries generalizing acc with
  | nil => exact h
  | cons entry rest ih =>
    obtain ⟨key, child⟩ := entry
    have hr : ∀ entry ∈ rest, Reported limits entry.2 :=
      fun entry hen => he entry (mem_cons_of_mem _ hen)
    have hc : Reported limits child := he _ mem_cons_self
    obtain ⟨hke, hn⟩ := nodup_cons.mp hn
    have hl : ∀ other ∈ acc.bounded.map Prod.fst, other ∉ rest.map Prod.fst :=
      fun other ho hm => hf other ho (mem_cons_of_mem _ hm)
    have hne : key ∉ acc.bounded.map Prod.fst :=
      fun hm => hf key hm mem_cons_self
    rw [boundEntries]
    split
    · exact h.stop _
    · split
      · exact ih hr h.skip hn hl
      · apply ih hr _ hn
        · intro other ho
          rcases acc.offer_bounded maxBytes _ child _ _ with hk | hk
          · rw [hk] at ho
            exact hl other ho
          · rw [hk, ((Json.insertEntry_perm hne _).map Prod.fst).mem_iff, map_cons, mem_cons] at ho
            rcases ho with rfl | ho
            · exact hke
            · exact hl other ho
        · apply h.offer
          rw [hc, serializedLen, Json.size_object_insert hne, h.bytes_eq]
          simp only [serializedLen, satAdd, saturate_saturate_add, saturate_add_saturate,
            Json.entrySize]
          congr 1
          omega

theorem exact_start {α : Type} {container : List α → Json} (he : (container []).size = 2)
    (maxBytes : ℕ) : ({} : BoundedItems α).Exact container maxBytes := by
  refine ⟨?_, fun h => h⟩
  rw [serializedLen, he]
  rfl

/-- The reported bytes of a bounded value are those of the value. -/
theorem reported_of_distinct (limits : ResultLimits) {value : Json} (h : value.Distinct) :
    Reported limits value := by
  induction h with
  | null | bool value | number digits => exact fun _ _ => rfl
  | string value => exact fun _ maxBytes => boundText_bytes limits value maxBytes
  | array _ ih =>
    intro maxProperties maxBytes
    exact (exact_boundItems ih maxProperties (exact_start (by decide) maxBytes)).bytes_eq
  | object hn _ ih =>
    intro maxProperties maxBytes
    exact (exact_boundEntries ih maxProperties (exact_start (by decide) maxBytes) hn
      fun key hk => (not_mem_nil hk).elim).bytes_eq

def IsContainer : Json → Prop
  | .array _ => True
  | .object _ => True
  | _ => False

theorem bytes_le_of_isContainer (limits : ResultLimits) {value : Json} (h : value.Distinct)
    (maxProperties : ℕ) {maxBytes : ℕ} (hb : 2 ≤ maxBytes)
    (hc : IsContainer (boundMetadataValue limits value maxProperties maxBytes).value) :
    (boundMetadataValue limits value maxProperties maxBytes).bytes ≤ maxBytes := by
  cases h with
  | null | bool value | number digits => exact hc.elim
  | string value =>
    rw [boundMetadataValue, boundText] at hc
    dsimp only at hc
    split at hc
    · exact hc.elim
    · exact hc.elim
  | array hit =>
    exact (exact_boundItems (fun item hi => reported_of_distinct limits (hit item hi))
      maxProperties (exact_start (by decide) maxBytes)).bytes_le hb
  | object hn hen =>
    exact (exact_boundEntries
      (fun entry he => reported_of_distinct limits (hen entry he)) maxProperties
      (exact_start (by decide) maxBytes) hn
      fun key hk => (not_mem_nil hk).elim).bytes_le hb

end Xbbg.Mcp
