import Xbbg.Library.Lists

/-! Sets that number their members in the order of their insertion. A number once given keeps
its meaning while the set grows, so lists of numbers can be read back through the set. -/

namespace Xbbg.Library

open List

structure IndexSet (α : Type*) where
  entries : List α
  nodup : entries.Nodup

namespace IndexSet

variable {α : Type*} [DecidableEq α]
variable {s t : IndexSet α} {indices : List ℕ}

def empty : IndexSet α := ⟨[], List.nodup_nil⟩

/-- Insert a member; an equal member that is already there keeps its number. -/
def insertFull (s : IndexSet α) (a : α) : ℕ × IndexSet α :=
  if h : a ∈ s.entries then (s.entries.idxOf a, s)
  else (s.entries.length, ⟨s.entries ++ [a], List.nodup_append.mpr
    ⟨s.nodup, List.nodup_singleton a, by
      intro x hx y hy
      rw [List.mem_singleton.mp hy]
      exact fun heq => h (heq ▸ hx)⟩⟩)

/-- Insert a list in order and return the number of each of its entries. -/
def insertAll : IndexSet α → List α → List ℕ × IndexSet α
  | s, [] => ([], s)
  | s, a :: rest =>
    let (index, s) := s.insertFull a
    let (indices, s) := insertAll s rest
    (index :: indices, s)

omit [DecidableEq α] in
/-- The members behind a list of numbers. -/
def read (s : IndexSet α) (indices : List ℕ) : List α :=
  indices.filterMap fun index => s.entries[index]?

/-- Every number of `s` means the same in `t`. -/
def Extends (s t : IndexSet α) : Prop := s.entries <+: t.entries

omit [DecidableEq α] in
theorem Extends.refl (s : IndexSet α) : s.Extends s := prefix_rfl

omit [DecidableEq α] in
theorem Extends.trans {u : IndexSet α} (h : s.Extends t) (h' : t.Extends u) : s.Extends u :=
  IsPrefix.trans h h'

omit [DecidableEq α] in
theorem Extends.getElem?_eq_some (h : s.Extends t) {i : ℕ} {a : α}
    (ha : s.entries[i]? = some a) : t.entries[i]? = some a :=
  getElem?_of_isPrefix h ha

theorem extends_insertFull (s : IndexSet α) (a : α) : s.Extends (s.insertFull a).2 := by
  unfold insertFull
  split
  · exact Extends.refl s
  · exact prefix_append s.entries [a]

theorem getElem?_insertFull (s : IndexSet α) (a : α) :
    (s.insertFull a).2.entries[(s.insertFull a).1]? = some a := by
  unfold insertFull
  split
  · rename_i h
    exact getElem?_idxOf h
  · simp

theorem extends_insertAll (s : IndexSet α) (l : List α) : s.Extends (s.insertAll l).2 := by
  induction l generalizing s with
  | nil => exact Extends.refl s
  | cons a rest ih => exact (extends_insertFull s a).trans (ih _)

theorem getElem?_insertAll (s : IndexSet α) (l : List α) (k : ℕ) :
    ((s.insertAll l).1[k]?).bind (fun i => (s.insertAll l).2.entries[i]?) = l[k]? := by
  induction l generalizing s k with
  | nil => simp [insertAll]
  | cons a rest ih =>
    cases k with
    | zero =>
      have hh := getElem?_insertFull s a
      have hg := extends_insertAll (s.insertFull a).2 rest
      simpa [insertAll] using hg.getElem?_eq_some hh
    | succ k => simpa [insertAll] using ih (s.insertFull a).2 k

theorem mem_insertFull (s : IndexSet α) (a b : α) :
    b ∈ (s.insertFull a).2.entries ↔ b ∈ s.entries ∨ b = a := by
  unfold insertFull
  split
  · rename_i h
    exact ⟨.inl, fun hb => hb.elim id fun he => he ▸ h⟩
  · simp

theorem mem_insertAll (s : IndexSet α) (l : List α) (b : α) :
    b ∈ (s.insertAll l).2.entries ↔ b ∈ s.entries ∨ b ∈ l := by
  induction l generalizing s with
  | nil => simp [insertAll]
  | cons a rest ih => rw [insertAll, ih, mem_insertFull, mem_cons, or_assoc]

omit [DecidableEq α] in
theorem read_map {f : ℕ → ℕ} (h : ∀ idx ∈ indices, t.entries[f idx]? = s.entries[idx]?) :
    t.read (indices.map f) = s.read indices := by
  induction indices with
  | nil => rfl
  | cons idx rest ih =>
    have hr := ih fun i hi => h i (mem_cons_of_mem _ hi)
    simp only [read, map_cons, filterMap_cons] at hr ⊢
    rw [h idx (by simp), hr]

omit [DecidableEq α] in
theorem read_append (s : IndexSet α) (front back : List ℕ) :
    s.read (front ++ back) = s.read front ++ s.read back :=
  filterMap_append

omit [DecidableEq α] in
theorem getElem?_read (h : ∀ idx ∈ indices, idx < s.entries.length) (k : ℕ) :
    (s.read indices)[k]? = (indices[k]?).bind fun idx => s.entries[idx]? := by
  induction indices generalizing k with
  | nil => simp [read]
  | cons idx rest ih =>
    have hr := ih fun i hi => h i (mem_cons_of_mem _ hi)
    obtain ⟨a, hh⟩ : ∃ a, s.entries[idx]? = some a :=
      ⟨_, getElem?_eq_getElem (h idx (by simp))⟩
    have hc : s.read (idx :: rest) = a :: s.read rest := by
      simp only [read, filterMap_cons, hh]
    cases k with
    | zero => simp [hc, hh]
    | succ k => simpa [hc] using hr k

omit [DecidableEq α] in
theorem Extends.read_eq (h : s.Extends t) (hb : ∀ i ∈ indices, i < s.entries.length) :
    t.read indices = s.read indices := by
  have hsa : ∀ i ∈ indices, t.entries[id i]? = s.entries[i]? := by
    intro i hi
    have hs := getElem?_eq_getElem (hb i hi)
    rw [id, h.getElem?_eq_some hs, hs]
  simpa using read_map hsa

end IndexSet

end Xbbg.Library
