import Mathlib.Data.List.TakeWhile
import Mathlib.Order.Lattice

/-! Histories with good and bad entries, and marks in time. A history is separated by a mark
when no two good entries from its two sides follow each other without a bad one between. -/

namespace Xbbg.Library

open List

variable {α ι : Type*} [LinearOrder ι] {good : α → Bool} {time : α → ι}

def Separated (good : α → Bool) (time : α → ι) (log : List α) (marks : List ι) : Prop :=
  ∀ pre a mid b post m, log = pre ++ a :: (mid ++ b :: post) → good a = true → good b = true →
    m ∈ marks → time a < m → m ≤ time b → ∃ c ∈ mid, good c = false

/-- The good entries after the last bad one. -/
def trailing (good : α → Bool) (log : List α) : List α :=
  log.reverse.takeWhile good

theorem trailing_snoc (log : List α) (b : α) :
    trailing good (log ++ [b]) = if good b then b :: trailing good log else [] := by
  simp [trailing, takeWhile_cons]

theorem mem_trailing {pre mid : List α} {a : α} (ha : good a = true)
    (hm : ∀ c ∈ mid, good c = true) : a ∈ trailing good (pre ++ a :: mid) := by
  have hr : (pre ++ a :: mid).reverse = mid.reverse ++ a :: pre.reverse := by simp
  rw [trailing, hr, takeWhile_append_of_pos (by simpa using hm)]
  simp [ha]

theorem separated_nil (marks : List ι) : Separated good time ([] : List α) marks := by
  intro pre a mid b post m h
  simp at h

theorem Separated.snoc {log : List α} {marks : List ι} (h : Separated good time log marks) {b : α}
    (hb : good b = true → ∀ a ∈ trailing good log, ∀ m ∈ marks, m ≤ time a ∨ time b < m) :
    Separated good time (log ++ [b]) marks := by
  intro pre a mid c post m hs ha hc hm hlt hle
  rcases eq_nil_or_concat post with rfl | ⟨post', last, rfl⟩
  · obtain ⟨rfl, rfl⟩ : log = pre ++ a :: mid ∧ b = c := by
      have hs' : log ++ [b] = (pre ++ a :: mid) ++ [c] := by simpa using hs
      simpa using append_inj' hs' rfl
    by_contra hnone
    have hmi : ∀ d ∈ mid, good d = true := by simpa using hnone
    rcases hb hc a (mem_trailing ha hmi) m hm with hbe | haf
    · exact absurd hlt (not_lt.mpr hbe)
    · exact absurd haf (not_lt.mpr hle)
  · obtain ⟨rfl, -⟩ : log = pre ++ a :: (mid ++ c :: post') ∧ b = last := by
      have hs' : log ++ [b] = (pre ++ a :: (mid ++ c :: post')) ++ [last] := by
        simpa using hs
      simpa using append_inj' hs' rfl
    exact h pre a mid c post' m rfl ha hc hm hlt hle

theorem Separated.mark {log : List α} {marks : List ι} (h : Separated good time log marks) {m : ι}
    (hm : ∀ a ∈ log, time a < m) : Separated good time log (marks ++ [m]) := by
  intro pre a mid b post m' hs ha hb hme hlt hle
  rcases mem_append.mp hme with ho | hn
  · exact h pre a mid b post m' hs ha hb ho hlt hle
  · obtain rfl := mem_singleton.mp hn
    exact absurd (hm b (by simp [hs])) (not_lt.mpr hle)

end Xbbg.Library
