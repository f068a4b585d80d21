import Mathlib.Data.List.Nodup

/-! A slab: a growing table whose freed keys are reused, the last freed one first. -/

namespace Xbbg.Library

open List

/-- Occupied and vacant entries with the stack of vacant keys. The stack lists each
vacant key once, so an insertion never overwrites an entry. -/
structure Slab (α : Type*) where
  entries : List (Option α)
  free : List ℕ
  free_nodup : free.Nodup
  free_vacant : ∀ k ∈ free, entries[k]? = some none

namespace Slab

def empty {α : Type*} : Slab α :=
  ⟨[], [], List.nodup_nil, by simp⟩

def get? {α : Type*} (s : Slab α) (k : ℕ) : Option α :=
  s.entries[k]?.join

def contains {α : Type*} (s : Slab α) (k : ℕ) : Bool :=
  (s.get? k).isSome

def keys {α : Type*} (s : Slab α) : List ℕ :=
  (List.range s.entries.length).filter s.contains

/-- The key that the next insertion returns. -/
def vacantKey {α : Type*} (s : Slab α) : ℕ :=
  s.free.head?.getD s.entries.length

def insert {α : Type*} (s : Slab α) (a : α) : Slab α :=
  match hfree : s.free with
  | [] => ⟨s.entries ++ [some a], [], List.nodup_nil, by simp⟩
  | k :: rest =>
    { entries := s.entries.set k (some a)
      free := rest
      free_nodup := (List.nodup_cons.mp (hfree ▸ s.free_nodup)).2
      free_vacant := by
        intro j hj
        have hne : k ≠ j := by
          rintro rfl
          exact (List.nodup_cons.mp (hfree ▸ s.free_nodup)).1 hj
        rw [List.getElem?_set_ne hne]
        exact s.free_vacant j (by simp [hfree, hj]) }

def remove {α : Type*} (s : Slab α) (k : ℕ) : Slab α :=
  match hget : s.get? k with
  | none => s
  | some a =>
    have hk : s.entries[k]? = some (some a) := Option.join_eq_some_iff.mp hget
    { entries := s.entries.set k none
      free := k :: s.free
      free_nodup := by
        refine List.nodup_cons.mpr ⟨?_, s.free_nodup⟩
        intro hmem
        simp [s.free_vacant k hmem] at hk
      free_vacant := by
        intro j hj
        rcases List.mem_cons.mp hj with rfl | hj
        · have hlt : j < s.entries.length := (List.getElem?_eq_some_iff.mp hk).1
          simp [hlt]
        · have hne : k ≠ j := by
            rintro rfl
            simp [s.free_vacant k hj] at hk
          rw [List.getElem?_set_ne hne]
          exact s.free_vacant j hj }

/-- Update the value under an occupied key in place. -/
def modify {α : Type*} (s : Slab α) (k : ℕ) (f : α → α) : Slab α :=
  { s with
    entries := s.entries.modify k (Option.map f)
    free_vacant := by
      intro j hj
      rw [List.getElem?_modify, s.free_vacant j hj]
      split <;> rfl }

variable {α : Type*} (s : Slab α)

@[simp] theorem get?_empty (k : ℕ) : (empty : Slab α).get? k = none := by
  simp [empty, get?]

theorem mem_keys (k : ℕ) : k ∈ s.keys ↔ ∃ a, s.get? k = some a := by
  simp only [keys, mem_filter, mem_range, contains, Option.isSome_iff_exists]
  refine and_iff_right_of_imp ?_
  rintro ⟨a, ha⟩
  exact (List.getElem?_eq_some_iff.mp (Option.join_eq_some_iff.mp ha)).1

theorem get?_vacantKey : s.get? s.vacantKey = none := by
  unfold vacantKey
  cases hf : s.free with
  | nil => simp [get?]
  | cons k rest => simp [get?, s.free_vacant k (by simp [hf])]

@[simp] theorem get?_insert_self (a : α) : (s.insert a).get? s.vacantKey = some a := by
  unfold insert vacantKey
  split
  · rename_i hf
    simp [get?, hf]
  · rename_i k rest hf
    have hlt : k < s.entries.length :=
      (List.getElem?_eq_some_iff.mp (s.free_vacant k (by simp [hf]))).1
    simp [get?, hf, hlt]

theorem get?_insert_of_ne (a : α) {k : ℕ} (hk : k ≠ s.vacantKey) :
    (s.insert a).get? k = s.get? k := by
  unfold vacantKey at hk
  unfold insert
  split
  · rename_i hf
    have hne : k ≠ s.entries.length := by simpa [hf] using hk
    simp only [get?]
    rcases Nat.lt_or_gt_of_ne hne with hlt | hgt
    · rw [getElem?_append_left hlt]
    · rw [getElem?_append_right (by omega), getElem?_eq_none (l := s.entries) (by omega),
        getElem?_eq_none (by simp; omega)]
  · rename_i j rest hf
    have hne : j ≠ k := by
      intro h
      exact hk (by simp [hf, h])
    simp [get?, getElem?_set_ne hne]

theorem get?_insert (a : α) (k : ℕ) :
    (s.insert a).get? k = if k = s.vacantKey then some a else s.get? k := by
  by_cases h : k = s.vacantKey
  · subst h
    simp
  · rw [if_neg h, get?_insert_of_ne s a h]

theorem get?_remove (k j : ℕ) : (s.remove k).get? j = if j = k then none else s.get? j := by
  unfold remove
  split
  · rename_i hg
    by_cases h : j = k
    · subst h
      simp [hg]
    · simp [h]
  · rename_i a hg
    have hlt : k < s.entries.length :=
      (List.getElem?_eq_some_iff.mp (Option.join_eq_some_iff.mp hg)).1
    by_cases h : j = k
    · subst h
      simp [get?, hlt]
    · simp [get?, h, getElem?_set_ne (Ne.symm h)]

theorem get?_foldl_remove (ks : List ℕ) (j : ℕ) :
    (ks.foldl remove s).get? j = if j ∈ ks then none else s.get? j := by
  induction ks generalizing s with
  | nil => simp
  | cons k rest ih =>
    rw [foldl_cons, ih, get?_remove]
    by_cases hr : j ∈ rest
    · simp [hr]
    · by_cases hk : j = k <;> simp [hr, hk]

theorem vacantKey_remove {k : ℕ} {a : α} (h : s.get? k = some a) : (s.remove k).vacantKey = k := by
  unfold remove
  split
  · rename_i hn
    simp [hn] at h
  · simp [vacantKey]

theorem get?_modify (k : ℕ) (f : α → α) (j : ℕ) :
    (s.modify k f).get? j = if j = k then (s.get? j).map f else s.get? j := by
  unfold modify get?
  simp only [getElem?_modify]
  by_cases h : j = k
  · subst h
    cases hg : s.entries[j]? with
    | none => simp
    | some e => cases e <;> simp
  · cases hg : s.entries[j]? <;> simp [h, Ne.symm h]

theorem get?_foldl_modify_of_notMem {ks : List ℕ} (f : α → α) {j : ℕ} (hj : j ∉ ks) :
    (ks.foldl (fun t k => t.modify k f) s).get? j = s.get? j := by
  induction ks generalizing s with
  | nil => rfl
  | cons k rest ih =>
    obtain ⟨hne, hr⟩ : j ≠ k ∧ j ∉ rest := by simpa using hj
    rw [foldl_cons, ih _ hr, get?_modify, if_neg hne]

theorem map_get?_foldl_modify {β : Type*} (ks : List ℕ) {f : α → α} {g : α → β}
    (hf : ∀ a, g (f a) = g a) (j : ℕ) :
    ((ks.foldl (fun t k => t.modify k f) s).get? j).map g = (s.get? j).map g := by
  induction ks generalizing s with
  | nil => rfl
  | cons k rest ih =>
    rw [foldl_cons, ih, get?_modify]
    by_cases hj : j = k
    · simp [hj, Function.comp_def, hf]
    · simp [hj]

end Slab

end Xbbg.Library
