import Mathlib.Data.List.Nodup

/-! Finite maps from natural keys. A bound above every key makes the keys enumerable in
increasing order while lookups stay plain function application. -/

namespace Xbbg.Library

structure Table (β : Type*) where
  get : ℕ → Option β
  bound : ℕ
  get_of_bound_le : ∀ k, bound ≤ k → get k = none

namespace Table

variable {β : Type*}

def empty : Table β :=
  ⟨fun _ => none, 0, fun _ _ => rfl⟩

def insert (t : Table β) (k : ℕ) (b : β) : Table β where
  get := Function.update t.get k (some b)
  bound := max t.bound (k + 1)
  get_of_bound_le := by
    intro j hj
    have hne : j ≠ k := by omega
    rw [Function.update_of_ne hne]
    exact t.get_of_bound_le j (by omega)

/-- Replace every value by what `f` makes of it and its key; `none` drops the key. -/
def filterMap (t : Table β) (f : ℕ → β → Option β) : Table β where
  get := fun k => (t.get k).bind (f k)
  bound := t.bound
  get_of_bound_le := by
    intro k hk
    simp [t.get_of_bound_le k hk]

def erase (t : Table β) (k : ℕ) : Table β :=
  t.filterMap fun j b => if j = k then none else some b

def modify (t : Table β) (k : ℕ) (f : β → β) : Table β :=
  t.filterMap fun j b => if j = k then some (f b) else some b

def map (t : Table β) (f : β → β) : Table β :=
  t.filterMap fun _ b => some (f b)

def retain (t : Table β) (p : β → Bool) : Table β :=
  t.filterMap fun _ b => if p b then some b else none

/-- The keys of the values that meet `p`, in increasing order. -/
def keys (t : Table β) (p : β → Bool) : List ℕ :=
  (List.range t.bound).filter fun k => (t.get k).any p

@[simp] theorem get_empty (k : ℕ) : (empty : Table β).get k = none := rfl

theorem get_insert (t : Table β) (k : ℕ) (b : β) (j : ℕ) :
    (t.insert k b).get j = if j = k then some b else t.get j := by
  simp [insert, Function.update_apply]

theorem get_filterMap (t : Table β) (f : ℕ → β → Option β) (k : ℕ) :
    (t.filterMap f).get k = (t.get k).bind (f k) := rfl

theorem get_erase (t : Table β) (k j : ℕ) :
    (t.erase k).get j = if j = k then none else t.get j := by
  rw [erase, get_filterMap]
  by_cases h : j = k <;> simp [h]

theorem get_modify (t : Table β) (k : ℕ) (f : β → β) (j : ℕ) :
    (t.modify k f).get j = if j = k then (t.get j).map f else t.get j := by
  rw [modify, get_filterMap]
  by_cases h : j = k
  · simp [h]
    cases t.get k <;> rfl
  · simp [h]

theorem get_map (t : Table β) (f : β → β) (k : ℕ) : (t.map f).get k = (t.get k).map f := by
  rw [map, get_filterMap]
  cases t.get k <;> rfl

theorem get_retain (t : Table β) (p : β → Bool) (k : ℕ) :
    (t.retain p).get k = (t.get k).filter p := by
  rw [retain, get_filterMap]
  cases t.get k <;> rfl

theorem modify_insert (t : Table β) (k : ℕ) (b : β) (f : β → β) :
    (t.insert k b).modify k f = t.insert k (f b) := by
  have hg : ((t.insert k b).modify k f).get = (t.insert k (f b)).get := by
    funext j
    rw [get_modify, get_insert, get_insert]
    by_cases h : j = k <;> simp [h]
  simp only [modify, filterMap, insert] at hg ⊢
  simp only [hg]

end Table

end Xbbg.Library
