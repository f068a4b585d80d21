import Mathlib.Data.List.Sort
import Mathlib.Data.List.Flatten

/-! A sorted queue of work that is leased out in batches. A batch is finished or put back,
and work may be skipped instead of leased. -/

namespace Xbbg.Library

open List

structure Leases (ι : Type*) where
  queue : List ι
  leased : List ι
  finished : List ι
  skipped : List ι

namespace Leases

variable {ι : Type*} [LinearOrder ι]

inductive Step (l : Leases ι) : Leases ι → Prop where
  | stay {leased : List ι} : leased.Perm l.leased → Step l { l with leased := leased }
  | select (selected skipped : List ι) {queue leased : List ι} : queue.Sublist l.queue →
      l.queue.Perm (selected ++ (skipped ++ queue)) → leased.Perm (selected ++ l.leased) →
      Step l ⟨queue, leased, l.finished, l.skipped ++ skipped⟩
  | finish (batch : List ι) {leased : List ι} : l.leased.Perm (batch ++ leased) →
      Step l { l with leased := leased, finished := l.finished ++ batch }
  | requeue (batch : List ι) {queue leased : List ι} : l.leased.Perm (batch ++ leased) →
      queue.Pairwise (· < ·) → queue.Perm (batch ++ l.queue) →
      Step l { l with queue := queue, leased := leased }

/-- The queue is strictly sorted, and every identifier is queued, leased, finished or
skipped, once. -/
structure Accounts (l : Leases ι) (ids : List ι) : Prop where
  sorted : l.queue.Pairwise (· < ·)
  perm : (l.queue ++ (l.leased ++ (l.finished ++ l.skipped))).Perm ids

theorem Step.accounts {l l' : Leases ι} {ids : List ι} (h : Step l l') (hl : l.Accounts ids) :
    l'.Accounts ids := by
  have hp := perm_iff_count.mp hl.perm
  cases h with
  | stay hle =>
    exact ⟨hl.sorted, (((hle.append_right _).append_left _)).trans hl.perm⟩
  | select sel skipped hs hqu hle =>
    refine ⟨hl.sorted.sublist hs, perm_iff_count.mpr fun id => ?_⟩
    rw [← hp id]
    have hq := hqu.count_eq id
    have hh := hle.count_eq id
    simp only [count_append] at hq hh ⊢
    omega
  | finish b hle =>
    refine ⟨hl.sorted, perm_iff_count.mpr fun id => ?_⟩
    rw [← hp id]
    have hh := hle.count_eq id
    simp only [count_append] at hh ⊢
    omega
  | requeue b hle hso hqu =>
    refine ⟨hso, perm_iff_count.mpr fun id => ?_⟩
    rw [← hp id]
    have hq := hqu.count_eq id
    have hh := hle.count_eq id
    simp only [count_append] at hq hh ⊢
    omega

/-- Work is finished in order, and before everything that is still open. -/
structure InOrder (l : Leases ι) : Prop where
  sorted : l.finished.Pairwise (· < ·)
  before : ∀ done ∈ l.finished, ∀ id ∈ l.queue ++ l.leased, done < id

/-- The order survives when a batch is finished before everything that stays open. -/
theorem Step.inOrder {l l' : Leases ι} (h : Step l l') (hl : l.InOrder)
    (hb : ∀ b, l'.finished = l.finished ++ b → b.Pairwise (· < ·) ∧
      ∀ id ∈ b, ∀ later ∈ l'.queue ++ l'.leased, id < later) : l'.InOrder := by
  cases h with
  | stay hle =>
    refine ⟨hl.sorted, fun done hd id hid => hl.before done hd id ?_⟩
    exact (hle.append_left l.queue).subset hid
  | select sel skipped hsu hq hle =>
    refine ⟨hl.sorted, fun done hd id hid => hl.before done hd id ?_⟩
    rcases mem_append.mp hid with hid | hid
    · exact mem_append_left _ (hsu.subset hid)
    · rcases mem_append.mp (hle.subset hid) with hid | hid
      · exact mem_append_left _ (hq.symm.subset (mem_append_left _ hid))
      · exact mem_append_right _ hid
  | finish b hle =>
    obtain ⟨hs, hla⟩ := hb b rfl
    refine ⟨pairwise_append.mpr ⟨hl.sorted, hs, ?_⟩, ?_⟩
    · intro done hd id hid
      refine hl.before done hd id (mem_append_right _ ?_)
      exact hle.symm.subset (mem_append_left _ hid)
    · intro done hd id hid
      rcases mem_append.mp hd with hd | hd
      · refine hl.before done hd id ?_
        rcases mem_append.mp hid with hid | hid
        · exact mem_append_left _ hid
        · exact mem_append_right _ (hle.symm.subset (mem_append_right _ hid))
      · exact hla done hd id hid
  | requeue b hle hs hq =>
    refine ⟨hl.sorted, fun done hd id hid => hl.before done hd id ?_⟩
    rcases mem_append.mp hid with hid | hid
    · rcases mem_append.mp (hq.subset hid) with hid | hid
      · exact mem_append_right _ (hle.symm.subset (mem_append_left _ hid))
      · exact mem_append_left _ hid
    · exact mem_append_right _ (hle.symm.subset (mem_append_right _ hid))

/-- In an ordered history nothing smaller is finished after an identifier. -/
theorem InOrder.not_mem_after {l : Leases ι} (h : l.InOrder) {front back : List ι} {a b : ι}
    (hsp : l.finished = front ++ b :: back) (hlt : a < b) : a ∉ back := by
  intro hm
  have hs := h.sorted
  rw [hsp, pairwise_append, pairwise_cons] at hs
  exact absurd (hs.2.1.1 a hm) hlt.asymm

end Leases

theorem pairwise_lt_orderedInsert {ι : Type*} [LinearOrder ι] {a : ι} {l : List ι}
    (h : l.Pairwise (· < ·)) (ha : a ∉ l) : (l.orderedInsert (· < ·) a).Pairwise (· < ·) := by
  induction l with
  | nil => simp
  | cons b l ih =>
    obtain ⟨hne, ha'⟩ : a ≠ b ∧ a ∉ l := by simpa using ha
    obtain ⟨hb, hl⟩ := pairwise_cons.mp h
    rw [orderedInsert_cons]
    split
    · rename_i hlt
      refine pairwise_cons.mpr ⟨fun c hc => ?_, h⟩
      rcases mem_cons.mp hc with rfl | hc
      · exact hlt
      · exact hlt.trans (hb c hc)
    · rename_i hle
      refine pairwise_cons.mpr ⟨fun c hc => ?_, ih hl ha'⟩
      rcases (mem_orderedInsert _).mp hc with rfl | hc
      · exact lt_of_le_of_ne (not_lt.mp hle) hne.symm
      · exact hb c hc

end Xbbg.Library
