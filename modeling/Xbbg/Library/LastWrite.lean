import Mathlib.Data.List.Nodup
import Mathlib.Data.List.Perm.Basic

/-! The last value written to a key by a list of writes, when writes may be reordered, filtered
or renamed, and views that follow an image by its writes or by what they change. -/

namespace Xbbg.Library

open List

variable {κ ν : Type*} [DecidableEq κ]

def lastWrite : List (κ × ν) → κ → Option ν
  | [], _ => none
  | (j, v) :: rest, k => (lastWrite rest k).or (if j = k then some v else none)

@[simp] theorem lastWrite_nil (k : κ) : lastWrite ([] : List (κ × ν)) k = none := rfl

theorem lastWrite_cons (j : κ) (v : ν) (rest : List (κ × ν)) (k : κ) :
    lastWrite ((j, v) :: rest) k = (lastWrite rest k).or (if j = k then some v else none) := rfl

theorem lastWrite_append (front back : List (κ × ν)) (k : κ) :
    lastWrite (front ++ back) k = (lastWrite back k).or (lastWrite front k) := by
  induction front with
  | nil => simp
  | cons w rest ih =>
    obtain ⟨j, v⟩ := w
    rw [cons_append, lastWrite_cons, ih, lastWrite_cons, Option.or_assoc]

theorem lastWrite_eq_none_iff (ws : List (κ × ν)) (k : κ) :
    lastWrite ws k = none ↔ k ∉ ws.map Prod.fst := by
  induction ws with
  | nil => simp
  | cons w rest ih =>
    obtain ⟨j, v⟩ := w
    rw [lastWrite_cons, Option.or_eq_none_iff, ih]
    by_cases h : j = k
    · simp [h]
    · simp [h, Ne.symm h]

variable {writes : List (κ × ν)} {k : κ}

theorem mem_of_lastWrite {v : ν} (h : lastWrite writes k = some v) : (k, v) ∈ writes := by
  induction writes with
  | nil => simp at h
  | cons write rest ih =>
    obtain ⟨j, w⟩ := write
    rw [lastWrite_cons, Option.or_eq_some_iff] at h
    rcases h with hr | ⟨-, hh⟩
    · exact mem_cons_of_mem _ (ih hr)
    · by_cases hj : j = k
      · obtain rfl : w = v := by simpa [hj] using hh
        simp [hj]
      · simp [hj] at hh

/-- Among writes to distinct keys every write is the last one to its key. -/
theorem lastWrite_eq_some_iff (hno : (writes.map Prod.fst).Nodup)
    {v : ν} : lastWrite writes k = some v ↔ (k, v) ∈ writes := by
  refine ⟨mem_of_lastWrite, fun hm => ?_⟩
  induction writes with
  | nil => simp at hm
  | cons write rest ih =>
    obtain ⟨j, w⟩ := write
    obtain ⟨hn, hr⟩ := nodup_cons.mp hno
    rw [lastWrite_cons]
    rcases mem_cons.mp hm with heq | hm
    · cases heq
      simp [(lastWrite_eq_none_iff rest k).mpr hn]
    · simp [ih hr hm]

theorem lastWrite_perm {writes' : List (κ × ν)} (h : writes.Perm writes')
    (hn : (writes.map Prod.fst).Nodup) (k : κ) :
    lastWrite writes k = lastWrite writes' k := by
  have hn' : (writes'.map Prod.fst).Nodup := (h.map Prod.fst).nodup_iff.mp hn
  refine Option.ext fun v => ?_
  rw [lastWrite_eq_some_iff hn, lastWrite_eq_some_iff hn', h.mem_iff]

theorem lastWrite_filter_key (ws : List (κ × ν)) (p : κ → Bool) (hk : p k = true) :
    lastWrite (ws.filter fun w => p w.1) k = lastWrite ws k := by
  induction ws with
  | nil => rfl
  | cons w rest ih =>
    obtain ⟨j, v⟩ := w
    rw [filter_cons, lastWrite_cons]
    by_cases hj : p j = true
    · rw [if_pos hj, lastWrite_cons, ih]
    · have hne : j ≠ k := fun heq => hj (heq ▸ hk)
      rw [if_neg hj, ih, if_neg hne, Option.or_none]

theorem lastWrite_filter_of_nodup (hn : (writes.map Prod.fst).Nodup) (p : κ × ν → Bool) (k : κ) :
    lastWrite (writes.filter p) k = (lastWrite writes k).filter fun v => p (k, v) := by
  have hn' : ((writes.filter p).map Prod.fst).Nodup :=
    (filter_sublist.map Prod.fst).nodup hn
  refine Option.ext fun v => ?_
  rw [lastWrite_eq_some_iff hn', mem_filter, Option.filter_eq_some_iff, lastWrite_eq_some_iff hn]

/-- Positions in a list of distinct names may be replaced by the names. -/
theorem lastWrite_filterMap_getElem? {ns : List κ} (hn : ns.Nodup)
    (ws : List (ℕ × ν)) {i : ℕ} (hi : ns[i]? = some k) :
    lastWrite (ws.filterMap fun w => (ns[w.1]?).map fun name => (name, w.2)) k =
      lastWrite ws i := by
  induction ws with
  | nil => rfl
  | cons w rest ih =>
    obtain ⟨j, v⟩ := w
    rw [lastWrite_cons]
    cases hj : ns[j]? with
    | none =>
      have hne : j ≠ i := by
        rintro rfl
        simp [hi] at hj
      simp [hj, ih, hne]
    | some name =>
      have hif : name = k ↔ j = i := by
        constructor
        · rintro rfl
          exact (List.getElem?_inj (List.getElem?_eq_some_iff.mp hj).1 hn).mp (hj.trans hi.symm)
        · rintro rfl
          exact Option.some.inj (hj.symm.trans hi)
      simp [hj, ih, lastWrite_cons, hif]

section Views

/-! A view agrees with an image at a key if it holds the same value wherever the image has one. -/

variable (same : ν → ν → Bool)

def Agrees (image view : Option ν) : Prop :=
  ∀ v, image = some v → ∃ w, view = some w ∧ same w v = true

variable {same}

theorem agrees_none (view : Option ν) : Agrees same none view := by
  intro v h
  cases h

theorem agrees_copy (hr : ∀ v, same v v = true) (im view : Option ν) :
    Agrees same im (im.or view) := by
  rintro v rfl
  exact ⟨v, rfl, hr v⟩

theorem Agrees.write {im view : Option ν} (hr : ∀ v, same v v = true) (w : Option ν)
    (h : w = none → Agrees same im view) : Agrees same (w.or im) (w.or view) := by
  cases w with
  | none => exact h rfl
  | some v =>
    rintro _ ⟨⟩
    exact ⟨v, rfl, hr v⟩

theorem Agrees.change {im view : Option ν} (hr : ∀ v, same v v = true)
    (ht : ∀ u v w, same u v = true → same v w = true → same u w = true) (write : Option ν)
    (h : Agrees same im view) :
    Agrees same (write.or im) ((write.filter fun v => !im.any (same · v)).or view) := by
  cases write with
  | none => exact h
  | some v =>
    rintro _ ⟨⟩
    cases im with
    | none => exact ⟨v, by simp, hr v⟩
    | some u =>
      cases hs : same u v with
      | false => exact ⟨v, by simp [Option.filter, hs], hr v⟩
      | true =>
        obtain ⟨w, hv, hw⟩ := h u rfl
        exact ⟨w, by simp [Option.filter, hs, hv], ht w u v hw hs⟩

end Views

end Xbbg.Library
