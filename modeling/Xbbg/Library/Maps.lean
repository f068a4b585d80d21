import Mathlib.Data.List.AList
import Mathlib.Data.List.Induction

/-! Finite maps by their entries: replacing all values, and merging the entries of one map into
another, where the values of a common key are combined. -/

namespace Xbbg.Library

open List

variable {κ β γ : Type*} [DecidableEq κ]

/-- A map whose values do not depend on their keys. -/
abbrev Map (κ β : Type*) := AList fun _ : κ => β

namespace Map

def isEmpty (m : Map κ β) : Bool := m.entries.isEmpty

omit [DecidableEq κ] in
theorem keys_map_values (f : β → γ) (l : List (Sigma fun _ : κ => β)) :
    (l.map fun e => (⟨e.1, f e.2⟩ : Sigma fun _ : κ => γ)).keys = l.keys := by
  simp [keys, map_map, Function.comp_def]

def mapValues (f : β → γ) (m : Map κ β) : Map κ γ where
  entries := m.entries.map fun entry => ⟨entry.1, f entry.2⟩
  nodupKeys := by
    rw [List.NodupKeys, keys_map_values]
    exact m.nodupKeys

/-- Write the entries of `other` over `m`, each combined with what the key had before. -/
def merge (combine : Option β → γ → β) (m : Map κ β) (other : Map κ γ) : Map κ β :=
  other.entries.foldl (fun m entry => m.insert entry.1 (combine (m.lookup entry.1) entry.2)) m

theorem lookup_insert_if (m : Map κ β) (j k : κ) (b : β) :
    (m.insert j b).lookup k = if k = j then some b else m.lookup k := by
  by_cases h : k = j
  · subst h
    simp
  · rw [AList.lookup_insert_ne h, if_neg h]

theorem dlookup_map_values (f : β → γ) (l : List (Sigma fun _ : κ => β)) (k : κ) :
    (l.map fun e => (⟨e.1, f e.2⟩ : Sigma fun _ : κ => γ)).dlookup k = (l.dlookup k).map f := by
  induction l with
  | nil => rfl
  | cons e rest ih =>
    obtain ⟨j, b⟩ := e
    by_cases h : j = k
    · subst h
      simp
    · rw [map_cons, dlookup_cons_ne _ _ (Ne.symm h), ih, dlookup_cons_ne _ _ (Ne.symm h)]

theorem lookup_mapValues (f : β → γ) (m : Map κ β) (k : κ) :
    (m.mapValues f).lookup k = (m.lookup k).map f :=
  dlookup_map_values f m.entries k

theorem lookup_foldl_insert (combine : Option β → γ → β) (l : List (Sigma fun _ : κ => γ))
    (hn : l.NodupKeys) (m : Map κ β) (k : κ) :
    AList.lookup k (l.foldl (fun (m : Map κ β) e =>
        m.insert e.1 (combine (m.lookup e.1) e.2)) m) =
      match l.dlookup k with
      | none => m.lookup k
      | some c => some (combine (m.lookup k) c) := by
  induction l generalizing m with
  | nil => rfl
  | cons e rest ih =>
    obtain ⟨j, c⟩ := e
    obtain ⟨hno, hr⟩ := nodupKeys_cons.mp hn
    rw [foldl_cons, ih hr]
    by_cases h : j = k
    · subst h
      rw [dlookup_eq_none.mpr hno]
      simp
    · have hc : (⟨j, c⟩ :: rest : List (Sigma fun _ : κ => γ)).dlookup k = rest.dlookup k :=
        dlookup_cons_ne _ _ (Ne.symm h)
      rw [hc, AList.lookup_insert_ne (Ne.symm h)]

theorem lookup_merge (combine : Option β → γ → β) (m : Map κ β) (o : Map κ γ) (k : κ) :
    (merge combine m o).lookup k = match o.lookup k with
      | none => m.lookup k
      | some c => some (combine (m.lookup k) c) :=
  lookup_foldl_insert combine o.entries o.nodupKeys m k

omit [DecidableEq κ] in
theorem isEmpty_iff_entries (m : Map κ β) : m.isEmpty = true ↔ m.entries = [] := by
  simp [isEmpty]

variable {m : Map κ β}

theorem lookup_of_isEmpty (h : m.isEmpty = true) (k : κ) : m.lookup k = none := by
  rw [AList.lookup, (isEmpty_iff_entries m).mp h]
  rfl

/-! ### Maps collected from rows -/

variable {ρ ι : Type*} [DecidableEq ι]

/-- The entries of the rows that have one; a later row overwrites an earlier one. -/
def collect (entry : ρ → Option (κ × β)) (rows : List ρ) : Map κ β :=
  rows.foldl (fun m row =>
    match entry row with
    | none => m
    | some (k, b) => m.insert k b) ∅

theorem collect_append (e : ρ → Option (κ × β)) (rs : List ρ) (row : ρ) : collect e (rs ++ [row]) =
      match e row with
      | none => collect e rs
      | some (k, b) => (collect e rs).insert k b := by
  simp [collect]

variable {k : κ} {rs : List ρ} {b : β}

theorem exists_entry_of_lookup_collect {e : ρ → Option (κ × β)}
    (h : (collect e rs).lookup k = some b) :
    ∃ row ∈ rs, e row = some (k, b) := by
  induction rs using reverseRecOn with
  | nil => simp [collect] at h
  | append_singleton rs row ih =>
    rw [collect_append] at h
    cases he : e row with
    | none =>
      rw [he] at h
      obtain ⟨x, hm, hf⟩ := ih h
      exact ⟨x, mem_append_left _ hm, hf⟩
    | some p =>
      obtain ⟨j, c⟩ := p
      rw [he] at h
      dsimp only at h
      rw [lookup_insert_if] at h
      by_cases hk : k = j
      · rw [if_pos hk] at h
        cases h
        exact ⟨row, by simp, by rw [he, hk]⟩
      · rw [if_neg hk] at h
        obtain ⟨x, hm, hf⟩ := ih h
        exact ⟨x, mem_append_left _ hm, hf⟩

theorem exists_lookup_collect (e : ρ → Option (κ × β))
    {row : ρ} (hm : row ∈ rs) (he : e row = some (k, b)) :
    ∃ c, (collect e rs).lookup k = some c := by
  induction rs using reverseRecOn with
  | nil => simp at hm
  | append_singleton rs last ih =>
    rw [collect_append]
    cases hl : e last with
    | none =>
      rcases mem_append.mp hm with hm | hm
      · exact ih hm
      · rw [mem_singleton.mp hm, hl] at he
        cases he
    | some p =>
      obtain ⟨j, c⟩ := p
      dsimp only
      rw [lookup_insert_if]
      by_cases hk : k = j
      · exact ⟨c, if_pos hk⟩
      · rw [if_neg hk]
        rcases mem_append.mp hm with hm | hm
        · exact ih hm
        · rw [mem_singleton.mp hm, hl] at he
          exact absurd (Prod.mk.inj (Option.some.inj he)).1.symm hk

/-- The entries of the rows by two keys. -/
def collectNested (entry : ρ → Option (κ × ι × β)) (rows : List ρ) : Map κ (Map ι β) :=
  rows.foldl (fun m row =>
    match entry row with
    | none => m
    | some (k, i, b) => m.insert k (((m.lookup k).getD ∅).insert i b)) ∅

def lookupNested (m : Map κ (Map ι β)) (k : κ) (i : ι) : Option β :=
  (m.lookup k).bind fun inner => inner.lookup i

theorem exists_entry_of_lookup_collectNested {e : ρ → Option (κ × ι × β)}
    {i : ι} (h : (collectNested e rs).lookupNested k i = some b) :
    ∃ row ∈ rs, e row = some (k, i, b) := by
  induction rs using reverseRecOn with
  | nil => simp [collectNested, lookupNested] at h
  | append_singleton rs row ih =>
    have he : (collectNested e rs).lookupNested k i = some b →
        ∃ row' ∈ rs ++ [row], e row' = some (k, i, b) := by
      intro hr
      obtain ⟨x, hm, hf⟩ := ih hr
      exact ⟨x, mem_append_left _ hm, hf⟩
    cases hen : e row with
    | none =>
      apply he
      simpa [collectNested, hen] using h
    | some triple =>
      obtain ⟨j, l, c⟩ := triple
      have his : collectNested e (rs ++ [row]) = (collectNested e rs).insert j
          ((((collectNested e rs).lookup j).getD ∅).insert l c) := by
        simp [collectNested, hen]
      rw [his, lookupNested, lookup_insert_if] at h
      by_cases hk : k = j
      · rw [if_pos hk, Option.bind_some, lookup_insert_if] at h
        by_cases hi : i = l
        · rw [if_pos hi] at h
          cases h
          exact ⟨row, by simp, by rw [hen, hk, hi]⟩
        · rw [if_neg hi] at h
          apply he
          subst hk
          cases hin : (collectNested e rs).lookup k with
          | none => simp [hin] at h
          | some inner => simpa [lookupNested, hin] using h
      · rw [if_neg hk] at h
        exact he h

/-! ### Counting values -/

section Tally

variable {δ : Type*} [DecidableEq δ]

/-- How many entries have a value of the given class. -/
def tally (classOf : β → δ) (m : Map κ β) (d : δ) : ℕ :=
  m.entries.countP fun entry => classOf entry.2 = d

omit [DecidableEq κ] in
theorem tally_congr {classOf classOf' : β → δ} {d : δ}
    (h : ∀ e ∈ m.entries, classOf e.2 = classOf' e.2) :
    tally classOf m d = tally classOf' m d := by
  apply countP_congr
  intro e he
  simp [h e he]

theorem tally_insert (classOf : β → δ) (b : β) (d : δ) (hn : m.lookup k = none) :
    tally classOf (m.insert k b) d = tally classOf m d + if classOf b = d then 1 else 0 := by
  rw [tally, AList.entries_insert_of_notMem (AList.lookup_eq_none.mp hn), countP_cons]
  simp [tally]

theorem tally_erase (classOf : β → δ) (d : δ) (ho : m.lookup k = some b) :
    tally classOf m d = tally classOf (m.erase k) d + if classOf b = d then 1 else 0 := by
  have hm : k ∈ m.entries.keys := AList.lookup_isSome.mp (by simp [ho])
  obtain ⟨c, front, back, hf, hs, he⟩ := exists_of_kerase hm
  have hb : c = b := by
    have hc : m.lookup k = some c := by
      rw [AList.lookup, hs, dlookup_append, dlookup_eq_none.mpr hf]
      simp
    rw [ho] at hc
    exact (Option.some.inj hc).symm
  have hen : (m.erase k).entries = front ++ back := he
  rw [tally, tally, hen, hs, countP_append, countP_append, countP_cons, hb]
  simp only [decide_eq_true_eq]
  omega

end Tally

end Map

end Xbbg.Library
