import Mathlib.Algebra.GroupWithZero.Nat
import Mathlib.Data.List.DropRight
import Mathlib.Data.List.Nodup
import Mathlib.Data.List.Perm.Subperm

/-! Splitting a list at one of its positions, so that replacing or dropping the entry there
can be read off the two parts, finding an entry by its key, and positions of entries. -/

namespace Xbbg.Library

open List

variable {α β γ : Type*} {l : List α} {i : ℕ} {a b : α}

theorem mem_snoc : a ∈ l ++ [b] ↔ a ∈ l ∨ a = b := by simp

theorem exists_split_of_getElem? (h : l[i]? = some a) :
    ∃ front back, l = front ++ a :: back ∧ l.eraseIdx i = front ++ back ∧
      ∀ f : α → α, l.modify i f = front ++ f a :: back := by
  obtain ⟨hlt, rfl⟩ := List.getElem?_eq_some_iff.mp h
  refine ⟨l.take i, l.drop (i + 1), ?_, eraseIdx_eq_take_drop_succ l i, ?_⟩
  · rw [← drop_eq_getElem_cons hlt, take_append_drop]
  · intro f
    exact modify_eq_take_cons_drop hlt

theorem exists_of_mem_modify {f : α → α} (h : a ∈ l.modify i f) : ∃ b ∈ l, a = b ∨ a = f b := by
  obtain ⟨j, hj⟩ := mem_iff_getElem?.mp h
  rw [getElem?_modify] at hj
  obtain ⟨b, hb, rfl⟩ := Option.map_eq_some_iff.mp hj
  refine ⟨b, mem_of_getElem? hb, ?_⟩
  split
  · exact .inr rfl
  · exact .inl rfl

theorem modify_append_of_lt (h : i < l.length) (f : α → α)
    (more : List α) : (l ++ more).modify i f = l.modify i f ++ more := by
  induction l generalizing i with
  | nil => simp at h
  | cons a l ih =>
    cases i with
    | zero => rfl
    | succ i =>
      have hlt : i < l.length := by simpa using h
      simp [ih hlt]

theorem modify_append_length (l : List α) (a : α) (f : α → α) :
    (l ++ [a]).modify l.length f = l ++ [f a] := by
  induction l with
  | nil => rfl
  | cons b l ih => simp [ih]

variable {p : α → Bool}

theorem any_set (h : l[i]? = some a) (hp : p b = p a) : (l.set i b).any p = l.any p := by
  obtain ⟨front, back, hl, -, hm⟩ := exists_split_of_getElem? h
  rw [set_eq_modify, hm, hl]
  simp [hp]

theorem any_eraseIdx (h : l[i]? = some a) (hp : p a = false) : (l.eraseIdx i).any p = l.any p := by
  obtain ⟨front, back, hl, he, -⟩ := exists_split_of_getElem? h
  rw [he, hl]
  simp [hp]

theorem sum_map_set_lt (weight : α → ℕ) (h : l[i]? = some a) (hlt : weight b < weight a) :
    ((l.set i b).map weight).sum < (l.map weight).sum := by
  obtain ⟨front, back, hl, -, hm⟩ := exists_split_of_getElem? h
  rw [set_eq_modify, hm, hl]
  simpa using hlt

theorem sum_map_eraseIdx_lt (weight : α → ℕ) (h : l[i]? = some a) (hp : 0 < weight a) :
    ((l.eraseIdx i).map weight).sum < (l.map weight).sum := by
  obtain ⟨front, back, hl, he, -⟩ := exists_split_of_getElem? h
  rw [he, hl]
  simpa using hp

/-- Filtering by the key of an entry finds that entry only, when the keys are distinct. -/
theorem filter_eq_singleton [BEq β] [LawfulBEq β] {f : α → β}
    (hno : (l.map f).Nodup) (ha : a ∈ l) : l.filter (f · == f a) = [a] := by
  induction l with
  | nil => simp at ha
  | cons b l ih =>
    obtain ⟨hn, hno'⟩ := nodup_cons.mp hno
    rcases mem_cons.mp ha with rfl | hm
    · have hr : l.filter (f · == f a) = [] := by
        rw [filter_eq_nil_iff]
        intro c hc heq
        exact hn (mem_map.mpr ⟨c, hc, by simpa using heq⟩)
      simp [hr]
    · have hne : f b ≠ f a := fun heq => hn (heq ▸ mem_map_of_mem hm)
      simp [hne, ih hno' hm]

theorem getElem?_of_idxOf? [BEq α] [LawfulBEq α] (h : l.idxOf? a = some i) : l[i]? = some a := by
  obtain ⟨hlt, heq, -⟩ := idxOf?_eq_some_iff.mp h
  rw [getElem?_eq_getElem hlt, heq]

theorem idxOf?_of_getElem? [BEq α] [LawfulBEq α]
    (hn : l.Nodup) (h : l[i]? = some a) : l.idxOf? a = some i := by
  cases hi : l.idxOf? a with
  | none => exact absurd (mem_of_getElem? h) (idxOf?_eq_none_iff.mp hi)
  | some j =>
    have hj := getElem?_of_idxOf? hi
    rw [(List.getElem?_inj (List.getElem?_eq_some_iff.mp hj).1 hn).mp (hj.trans h.symm)]

theorem getElem?_of_isPrefix {l l' : List α} (he : l <+: l')
    (h : l[i]? = some a) : l'[i]? = some a := by
  obtain ⟨rest, rfl⟩ := he
  rw [List.getElem?_append_left (List.getElem?_eq_some_iff.mp h).1, h]

theorem filterMap_sublist_map {f : α → Option β} {g : α → β}
    (h : ∀ a b, f a = some b → b = g a) (l : List α) : (l.filterMap f).Sublist (l.map g) := by
  induction l with
  | nil => exact .slnil
  | cons a l ih =>
    cases hf : f a with
    | none =>
      rw [filterMap_cons_none hf]
      exact ih.cons _
    | some b =>
      rw [filterMap_cons_some hf, h a b hf]
      exact ih.cons_cons _

/-- A fold that adds one entry at a time to what the accumulator holds. -/
theorem foldl_holds {σ : Type*} (Holds : List α → σ → Prop) {f : σ → α → σ}
    (hs : ∀ l s a, Holds l s → Holds (l ++ [a]) (f s a)) (more : List α) {s : σ}
    (h : Holds l s) : Holds (l ++ more) (more.foldl f s) := by
  induction more generalizing l s with
  | nil => simpa using h
  | cons a rest ih => simpa using ih (hs l s a h)

variable {P : α → β → Prop}

theorem exists_forall₂ (h : ∀ a ∈ l, ∃ b, P a b) : ∃ l', Forall₂ P l l' := by
  induction l with
  | nil => exact ⟨[], .nil⟩
  | cons a l ih =>
    obtain ⟨b, hb⟩ := h a (by simp)
    obtain ⟨l', hl'⟩ := ih fun a ha => h a (mem_cons_of_mem _ ha)
    exact ⟨b :: l', .cons hb hl'⟩

variable {l' : List β}

theorem exists_left_of_forall₂ (h : Forall₂ P l l') {b : β} (hb : b ∈ l') : ∃ a ∈ l, P a b := by
  induction h with
  | nil => simp at hb
  | @cons a first _ _ hf _ ih =>
    rcases mem_cons.mp hb with rfl | hb
    · exact ⟨a, by simp, hf⟩
    · obtain ⟨a', ha', hp⟩ := ih hb
      exact ⟨a', mem_cons_of_mem _ ha', hp⟩

theorem exists_getElem?_of_forall₂ (h : Forall₂ P l l') (ha : l[i]? = some a) :
    ∃ b, l'[i]? = some b ∧ P a b := by
  induction h generalizing i with
  | nil => simp at ha
  | @cons first b _ _ hf _ ih =>
    cases i with
    | zero =>
      obtain rfl : first = a := by simpa using ha
      exact ⟨b, rfl, hf⟩
    | succ i => exact ih (by simpa using ha)

theorem map_eq_of_forall₂ {f : α → γ} {g : β → γ}
    (h : Forall₂ (fun a b => f a = g b) l l') : l.map f = l'.map g := by
  induction h with
  | nil => rfl
  | cons hf _ ih => rw [map_cons, map_cons, hf, ih]

theorem dropWhile_rdropWhile_dropWhile (p : α → Bool) (l : List α) :
    ((l.dropWhile p).rdropWhile p).dropWhile p = (l.dropWhile p).rdropWhile p := by
  apply dropWhile_eq_self_iff.mpr
  intro hl hp
  -- the first element that is left is the first one that was not dropped
  have hf := rdropWhile_prefix p (l.dropWhile p)
  have hl' : 0 < (l.dropWhile p).length := Nat.lt_of_lt_of_le hl hf.length_le
  have hs := hf.getElem hl
  rw [hs] at hp
  exact absurd hp (by simpa using dropWhile_get_zero_not p l hl')

def latest {α κ : Type*} [BEq κ] (key : α → κ) (log : List α) (k : κ) : Option α :=
  (log.filter fun a => key a == k).getLast?

theorem latest_append_of_eq {κ : Type*} [BEq κ] [ReflBEq κ] (key : α → κ) (log : List α)
    (a : α) : latest key (log ++ [a]) (key a) = some a := by
  simp [latest]

theorem latest_append_of_ne {κ : Type*} [BEq κ] [LawfulBEq κ] (key : α → κ) (log : List α)
    {k : κ} (h : key a ≠ k) : latest key (log ++ [a]) k = latest key log k := by
  simp [latest, h]

/-! ### Parts that end where a property stops -/

theorem append_inj_of_stop {front back tail tail' : List α}
    (hf : ∀ a ∈ front, p a = true) (hb : ∀ a ∈ back, p a = true)
    (ht : ∀ a ∈ tail.head?, p a = false) (ht' : ∀ a ∈ tail'.head?, p a = false)
    (h : front ++ tail = back ++ tail') : front = back ∧ tail = tail' := by
  have hs : ∀ {rest : List α}, (∀ a ∈ rest.head?, p a = false) → rest.takeWhile p = [] := by
    intro rest hr
    cases rest with
    | nil => rfl
    | cons a rest => exact takeWhile_cons_of_neg (by simp [hr a rfl])
  have hta := congrArg (takeWhile p) h
  rw [takeWhile_append_of_pos hf, takeWhile_append_of_pos hb, hs ht,
    hs ht', append_nil, append_nil] at hta
  subst hta
  exact ⟨rfl, append_cancel_left h⟩

theorem find?_eq_some_of_nodup [DecidableEq β] {key : α → β} (hn : (l.map key).Nodup)
    (ha : a ∈ l) : l.find? (fun b => key b == key a) = some a := by
  rw [← head?_filter, filter_eq_singleton hn ha]
  rfl

theorem eraseDups_concat [DecidableEq α] (l : List α) (a : α) :
    (l ++ [a]).eraseDups = if a ∈ l then l.eraseDups else l.eraseDups ++ [a] := by
  rw [eraseDups_append, removeAll, filter_singleton]
  by_cases h : a ∈ l
  · simp [h]
  · simp [h]
    rfl

theorem nodup_eraseDups [DecidableEq α] (l : List α) : l.eraseDups.Nodup := by
  induction l using reverseRecOn with
  | nil => exact nodup_nil
  | append_singleton l a ih =>
    rw [eraseDups_concat]
    split_ifs with ha
    · exact ih
    · rw [nodup_append_comm, singleton_append, nodup_cons, mem_eraseDups]
      exact ⟨ha, ih⟩

/-- A list that begins with the front of another adds what follows there. -/
theorem eraseDups_append_of_isPrefix [DecidableEq α] {ns l p : List α}
    (hns : ns.Nodup) (hl : l.eraseDups <+: ns) (hp : p <+: ns) : (l ++ p).eraseDups <+: ns := by
  induction p using reverseRecOn with
  | nil => simpa using hl
  | append_singleton p a ih =>
    have hi := ih ((prefix_append p [a]).trans hp)
    rw [← append_assoc, eraseDups_concat]
    split
    · exact hi
    · rename_i ha
      have hnot : a ∉ (l ++ p).eraseDups := fun hm => ha (mem_eraseDups.mp hm)
      rcases prefix_or_prefix_of_prefix hi hp with hq | hq
      · rcases prefix_concat_iff.mp hq with heq | hq
        · exact absurd (heq ▸ by simp) hnot
        · have hnd : p.Nodup := ((prefix_append p [a]).trans hp).sublist.nodup hns
          have hsub : p ⊆ (l ++ p).eraseDups := fun b hb =>
            mem_eraseDups.mpr (mem_append_right l hb)
          rw [hq.eq_of_length_le (subperm_of_subset hnd hsub).length_le]
          exact hp
      · exact absurd (hq.subset (by simp)) hnot

end Xbbg.Library
