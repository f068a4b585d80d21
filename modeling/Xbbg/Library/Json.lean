import Mathlib.Algebra.GroupWithZero.Nat
import Mathlib.Algebra.Order.BigOperators.Group.List
import Mathlib.Data.List.Sort

/-! JSON values, their compact text in UTF-8 and the number of its bytes. -/

namespace Xbbg.Library

open List

/-! ### Bytes of a text -/

def utf8Len (text : List Char) : ℕ := (text.map Char.utf8Size).sum

@[simp]
theorem utf8Len_nil : utf8Len [] = 0 := rfl

@[simp]
theorem utf8Len_cons (c : Char) (text : List Char) :
    utf8Len (c :: text) = c.utf8Size + utf8Len text := by
  rw [utf8Len, map_cons, sum_cons]
  rfl

@[simp]
theorem utf8Len_append (left right : List Char) :
    utf8Len (left ++ right) = utf8Len left + utf8Len right := by
  rw [utf8Len, map_append, sum_append]
  rfl

/-! ### Texts of values -/

/-- A number is known by its text. -/
inductive Json where
  | null
  | bool (value : Bool)
  | number (text : String)
  | string (value : String)
  | array (items : List Json)
  | object (entries : List (String × Json))

def hexDigit (n : ℕ) : Char := Nat.digitChar n

/-- A character within the quotes of a string. -/
def escapeChar (c : Char) : List Char :=
  if c = '"' then ['\\', '"']
  else if c = '\\' then ['\\', '\\']
  else if c = '\x08' then ['\\', 'b']
  else if c = '\t' then ['\\', 't']
  else if c = '\n' then ['\\', 'n']
  else if c = '\x0c' then ['\\', 'f']
  else if c = '\r' then ['\\', 'r']
  else if c.toNat < 32 then
    ['\\', 'u', '0', '0', hexDigit (c.toNat / 16), hexDigit (c.toNat % 16)]
  else [c]

def stringText (value : String) : List Char := '"' :: value.toList.flatMap escapeChar ++ ['"']

namespace Json

mutual

def text : Json → List Char
  | null => "null".toList
  | bool value => if value then "true".toList else "false".toList
  | number digits => digits.toList
  | string value => stringText value
  | array items => '[' :: itemsText items ++ [']']
  | object entries => '{' :: entriesText entries ++ ['}']

def itemsText : List Json → List Char
  | [] => []
  | [item] => item.text
  | item :: next :: rest => item.text ++ ',' :: itemsText (next :: rest)

def entriesText : List (String × Json) → List Char
  | [] => []
  | [(key, value)] => stringText key ++ ':' :: value.text
  | (key, value) :: next :: rest =>
    stringText key ++ ':' :: value.text ++ ',' :: entriesText (next :: rest)

end

def size (value : Json) : ℕ := utf8Len value.text

example : (object [("a\n", array [null, bool true]), ("b", number "12")]).size = 26 := by decide

/-! ### Sizes -/

theorem size_bool_le (v : Bool) : (bool v).size ≤ 5 := by
  cases v <;> decide

theorem size_array (xs : List Json) :
    (array xs).size = 2 + (xs.map size).sum + (xs.length - 1) := by
  have hi : utf8Len (itemsText xs) = (xs.map size).sum + (xs.length - 1) := by
    induction xs with
    | nil => rfl
    | cons x rest ih =>
      cases rest with
      | nil => simp [itemsText, size]
      | cons next rest =>
        have hc : Char.utf8Size ',' = 1 := rfl
        rw [itemsText, utf8Len_append, utf8Len_cons, ih, hc, map_cons (l := next :: rest),
          sum_cons, ← size]
        simp only [length_cons]
        omega
  have ho : Char.utf8Size '[' = 1 := rfl
  have hcl : Char.utf8Size ']' = 1 := rfl
  rw [size, text, utf8Len_append, utf8Len_cons, utf8Len_cons, hi, ho, hcl, utf8Len_nil]
  omega

def entrySize (entry : String × Json) : ℕ := (string entry.1).size + 1 + entry.2.size

theorem size_object (entries : List (String × Json)) :
    (object entries).size = 2 + (entries.map entrySize).sum + (entries.length - 1) := by
  have hc : Char.utf8Size ':' = 1 := rfl
  have he : utf8Len (entriesText entries) = (entries.map entrySize).sum + (entries.length - 1) := by
    induction entries with
    | nil => rfl
    | cons e rest ih =>
      obtain ⟨key, v⟩ := e
      cases rest with
      | nil =>
        simp only [entriesText, utf8Len_append, utf8Len_cons, hc, map_cons, map_nil,
          sum_cons, sum_nil, entrySize, size, text, length_cons, length_nil]
        omega
      | cons next rest =>
        have hco : Char.utf8Size ',' = 1 := rfl
        rw [entriesText, utf8Len_append, utf8Len_append, utf8Len_cons, utf8Len_cons, ih, hco,
          hc, map_cons (l := next :: rest), sum_cons, entrySize]
        simp only [size, text, length_cons]
        omega
  have ho : Char.utf8Size '{' = 1 := rfl
  have hcl : Char.utf8Size '}' = 1 := rfl
  rw [size, text, utf8Len_append, utf8Len_cons, utf8Len_cons, he, ho, hcl, utf8Len_nil]
  omega

def separator {α : Type*} (items : List α) : ℕ := if items.isEmpty then 0 else 1

theorem size_array_concat (xs : List Json) (x : Json) :
    (array (xs ++ [x])).size = (array xs).size + separator xs + x.size := by
  cases xs with
  | nil => simp [size_array, separator]
  | cons a rest =>
    simp only [size_array, separator, map_append, sum_append, length_append,
      map_cons, map_nil, sum_cons, sum_nil, length_cons, length_nil,
      isEmpty_cons]
    simp
    omega

theorem size_object_perm {left right : List (String × Json)} (h : left.Perm right) :
    (object left).size = (object right).size := by
  rw [size_object, size_object, (h.map entrySize).sum_eq, h.length_eq]

/-! ### Objects as maps -/

/-- Insertion in the order of the keys; an entry of the same key is replaced. -/
def insertEntry (key : String) (value : Json) : List (String × Json) → List (String × Json)
  | [] => [(key, value)]
  | entry :: rest =>
    if key < entry.1 then (key, value) :: entry :: rest
    else if key = entry.1 then (key, value) :: rest
    else entry :: insertEntry key value rest

variable {entries : List (String × Json)}

theorem insertEntry_perm {key : String} (h : key ∉ entries.map Prod.fst) (v : Json) :
    (insertEntry key v entries).Perm ((key, v) :: entries) := by
  induction entries with
  | nil => exact .refl _
  | cons e rest ih =>
    rw [map_cons, mem_cons, not_or] at h
    obtain ⟨hne, hr⟩ := h
    by_cases hlt : key < e.1
    · rw [insertEntry, if_pos hlt]
    · rw [insertEntry, if_neg hlt, if_neg hne]
      exact ((ih hr).cons e).trans (.swap _ _ _)

/-- The object with the given entries, the later one if keys repeat. -/
def ofEntries (entries : List (String × Json)) : Json :=
  object (entries.foldl (fun inserted entry => insertEntry entry.1 entry.2 inserted) [])

/-- Every key at most once, at every depth. -/
inductive Distinct : Json → Prop
  | null : Distinct null
  | bool (value : Bool) : Distinct (bool value)
  | number (digits : String) : Distinct (number digits)
  | string (value : String) : Distinct (string value)
  | array {items : List Json} (h : ∀ item ∈ items, Distinct item) : Distinct (array items)
  | object {entries : List (String × Json)} (nodup : (entries.map Prod.fst).Nodup)
      (h : ∀ entry ∈ entries, Distinct entry.2) : Distinct (object entries)

/-! ### Costs

A budget is charged for each item with a separator after it, which is one more than there are. -/

def itemsCost (items : List Json) : ℕ := (items.map fun item => item.size + 1).sum

def entriesCost (entries : List (String × Json)) : ℕ :=
  (entries.map fun entry => entrySize entry + 1).sum

@[simp]
theorem itemsCost_nil : itemsCost [] = 0 := rfl

@[simp]
theorem itemsCost_append (left right : List Json) :
    itemsCost (left ++ right) = itemsCost left + itemsCost right := by
  rw [itemsCost, map_append, sum_append]
  rfl

@[simp]
theorem itemsCost_cons (item : Json) (items : List Json) :
    itemsCost (item :: items) = item.size + 1 + itemsCost items := by
  rw [itemsCost, map_cons, sum_cons]
  rfl

@[simp]
theorem entriesCost_nil : entriesCost [] = 0 := rfl

@[simp]
theorem entriesCost_cons (e : String × Json) (entries : List (String × Json)) :
    entriesCost (e :: entries) = entrySize e + 1 + entriesCost entries := by
  rw [entriesCost, map_cons, sum_cons]
  rfl

@[simp]
theorem entriesCost_append (left right : List (String × Json)) :
    entriesCost (left ++ right) = entriesCost left + entriesCost right := by
  rw [entriesCost, map_append, sum_append]
  rfl

theorem size_array_le (items : List Json) : (array items).size ≤ 2 + itemsCost items := by
  have hc : itemsCost items = (items.map size).sum + items.length := by
    simp [itemsCost, sum_map_add]
  rw [size_array]
  omega

variable (entries)

theorem size_object_add_separator :
    (object entries).size + separator entries = 2 + entriesCost entries := by
  have hc : entriesCost entries = (entries.map entrySize).sum + entries.length := by
    simp [entriesCost, sum_map_add]
  rw [size_object]
  cases entries with
  | nil => rfl
  | cons e rest =>
    simp only [separator, isEmpty_cons, length_cons, Bool.false_eq_true, if_false] at hc ⊢
    omega

theorem size_object_cons (e : String × Json) :
    (object (e :: entries)).size = 1 + entriesCost (e :: entries) := by
  have hs := size_object_add_separator (e :: entries)
  have ho : separator (e :: entries) = 1 := rfl
  omega

variable {entries}

theorem size_object_insert {key : String} (h : key ∉ entries.map Prod.fst) (v : Json) :
    (object (insertEntry key v entries)).size =
      (object entries).size + separator entries + entrySize (key, v) := by
  have hs := size_object_add_separator entries
  rw [size_object_perm (insertEntry_perm h v), size_object_cons, entriesCost_cons]
  omega

variable (entries)

theorem entriesCost_insertEntry_le (key : String) (v : Json) :
    entriesCost (insertEntry key v entries) ≤ entriesCost entries + entrySize (key, v) + 1 := by
  induction entries with
  | nil => simp [insertEntry]
  | cons e rest ih =>
    by_cases hlt : key < e.1
    · rw [insertEntry, if_pos hlt, entriesCost_cons]
      omega
    · by_cases heq : key = e.1
      · rw [insertEntry, if_neg hlt, if_pos heq, entriesCost_cons, entriesCost_cons]
        omega
      · rw [insertEntry, if_neg hlt, if_neg heq, entriesCost_cons, entriesCost_cons]
        omega

theorem size_ofEntries_le : (ofEntries entries).size ≤ 2 + entriesCost entries := by
  have hf : ∀ inserted : List (String × Json),
      entriesCost (entries.foldl (fun inserted e => insertEntry e.1 e.2 inserted)
        inserted) ≤ entriesCost inserted + entriesCost entries := by
    induction entries with
    | nil => exact fun inserted => le_rfl
    | cons e entries ih =>
      intro inserted
      obtain ⟨key, v⟩ := e
      have hi := entriesCost_insertEntry_le inserted key v
      have hr := ih (insertEntry key v inserted)
      rw [entriesCost_cons]
      exact hr.trans (by omega)
  have hc := hf []
  have hs := size_object_add_separator
    (entries.foldl (fun inserted e => insertEntry e.1 e.2 inserted) [])
  rw [entriesCost_nil] at hc
  rw [ofEntries]
  omega

theorem size_object_insert_le (key : String) (v : Json) :
    (object (insertEntry key v entries)).size ≤
      (object entries).size + separator entries + entrySize (key, v) := by
  have hc := entriesCost_insertEntry_le entries key v
  have hs := size_object_add_separator entries
  have hi : (object (insertEntry key v entries)).size =
      1 + entriesCost (insertEntry key v entries) := by
    cases entries with
    | nil => exact size_object_cons _ _
    | cons e rest =>
      unfold insertEntry
      split_ifs <;> exact size_object_cons _ _
  omega

variable {entries}

/-- What entries cost whose values have at most the given sizes. -/
def boundsCost (bounds : List (String × ℕ)) : ℕ :=
  (bounds.map fun bound => (string bound.1).size + bound.2 + 2).sum

theorem entriesCost_le_boundsCost (bounds : List (String × ℕ))
    (h : List.Forall₂ (fun e bound => e.1 = bound.1 ∧ e.2.size ≤ bound.2) entries
      bounds) : entriesCost entries ≤ boundsCost bounds := by
  induction h with
  | nil => exact le_rfl
  | @cons e bound entries bounds hent _ ih =>
    obtain ⟨hk, hv⟩ := hent
    rw [boundsCost, map_cons, sum_cons, ← boundsCost, entriesCost_cons, entrySize, hk]
    omega

theorem size_ofEntries_le_of_bounds (bounds : List (String × ℕ)) {bytes : ℕ}
    (hb : 2 + boundsCost bounds ≤ bytes)
    (h : List.Forall₂ (fun e bound => e.1 = bound.1 ∧ e.2.size ≤ bound.2) entries
      bounds) : (ofEntries entries).size ≤ bytes := by
  have hs := size_ofEntries_le entries
  have hc := entriesCost_le_boundsCost bounds h
  omega

theorem itemsCost_le_of_sublist {left right : List Json} (h : left.Sublist right) :
    itemsCost left ≤ itemsCost right := by
  induction h with
  | slnil => exact le_rfl
  | cons item _ ih =>
    rw [itemsCost_cons]
    omega
  | cons_cons item _ ih =>
    rw [itemsCost_cons, itemsCost_cons]
    omega

theorem utf8Size_of_isDigit {c : Char} (h : c.isDigit = true) : c.utf8Size = 1 := by
  rw [Char.utf8Size_eq_one_iff]
  simp only [Char.isDigit, Bool.and_eq_true, decide_eq_true_eq] at h
  exact UInt32.le_trans h.2 (by decide)

theorem size_number_toString (n : ℕ) : (number (toString n)).size = (Nat.toDigits 10 n).length := by
  have hd : ∀ c ∈ Nat.toDigits 10 n, c.utf8Size = 1 := fun c hc =>
    utf8Size_of_isDigit (Nat.isDigit_of_mem_toDigits (by decide) (by decide) hc)
  rw [size, text, Nat.toString_eq_repr, Nat.toList_repr, utf8Len, map_congr_left hd]
  simp

end Json

end Xbbg.Library
