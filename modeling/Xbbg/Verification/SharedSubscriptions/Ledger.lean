import Xbbg.Verification.SharedSubscriptions.Registry

/-! The consumers' side of the hub: keys are handed out once, so a key belongs to one membership
and to one label at most. -/

namespace Xbbg.SharedSubscriptions.Hub

open List Library

variable {s s' s'' : Hub}

/-- Every key in use was handed out, no two memberships of a consumer share one, and a feed that
was not created has no entries. -/
structure Ledger (s : Hub) : Prop where
  coherent : ∀ c < s.nextConsumer, (s.consumers c).status.Coherent
  active_lt : ∀ c < s.nextConsumer, ∀ l k, (s.consumers c).status.topicToKey l = some k →
    k < (s.consumers c).nextKey
  member_lt : ∀ c < s.nextConsumer, ∀ m ∈ (s.consumers c).memberships,
    m.key < (s.consumers c).nextKey
  member_nodup : ∀ c < s.nextConsumer, ((s.consumers c).memberships.map (·.key)).Nodup
  topic_lt : ∀ f, ∀ t ∈ (s.feeds f).consumers,
    t.owner < s.nextConsumer ∧ t.key < (s.consumers t.owner).nextKey
  unborn : ∀ f, s.nextFeed ≤ f → (s.feeds f).consumers = []
  patched : s.patches ⊆ s.ended

theorem ledger_new : Ledger new where
  coherent := fun _ _ => Status.coherent_empty
  active_lt := fun c _ l k h => by simp [new, Consumer.new, Status.empty] at h
  member_lt := fun c _ m h => by simp [new, Consumer.new] at h
  member_nodup := fun _ _ => nodup_nil
  topic_lt := fun f t h => by simp [new] at h
  unborn := fun _ _ => rfl
  patched := nil_subset _

theorem Ledger.calm (h : Ledger s) (hca : Calm s s') : Ledger s' := by
  have ho : ∀ c < s'.nextConsumer, c < s.nextConsumer ∨ (s'.consumers c).Fresh := by
    intro c hc
    by_cases hlt : c < s.nextConsumer
    · exact .inl hlt
    · exact .inr (hca.fresh c (Nat.not_lt.mp hlt) hc)
  have hme : ∀ c < s.nextConsumer,
      (s'.consumers c).memberships.Sublist (s.consumers c).memberships := by
    intro c hc
    rcases (hca.follows c hc).memberships with heq | ⟨-, hn⟩
    · rw [heq]
    · rw [hn]
      exact nil_sublist _
  constructor
  · intro c hc
    rcases ho c hc with hlt | hfr
    · exact (hca.follows c hlt).status.coherent (h.coherent c hlt)
    · exact hfr.coherent
  · intro c hc l k hl
    rcases ho c hc with hlt | hfr
    · rw [(hca.follows c hlt).nextKey]
      exact h.active_lt c hlt l k ((hca.follows c hlt).status.sub l k hl)
    · rw [hfr.inactive] at hl
      cases hl
  · intro c hc m hm
    rcases ho c hc with hlt | hfr
    · rw [(hca.follows c hlt).nextKey]
      exact h.member_lt c hlt m ((hme c hlt).subset hm)
    · simp [hfr.memberships] at hm
  · intro c hc
    rcases ho c hc with hlt | hfr
    · exact ((hme c hlt).map _).nodup (h.member_nodup c hlt)
    · simp [hfr.memberships]
  · intro f t ht
    obtain ⟨t₀, ht₀, how, hke⟩ := (hca.feeds f).symm.exists_topic ht
    obtain ⟨hlt, hk⟩ := h.topic_lt f t₀ ht₀
    rw [how, hke] at *
    exact ⟨hlt.trans_le hca.nextConsumer, (hca.follows _ hlt).nextKey.symm ▸ hk⟩
  · intro f hf
    have hma := (hca.feeds f).marks
    rw [h.unborn f (hca.nextFeed ▸ hf)] at hma
    simpa using hma
  · exact hca.patched h.patched

/-! ### Changes that only take away -/

structure Trims (s s' : Hub) : Prop where
  nextConsumer : s'.nextConsumer = s.nextConsumer
  nextFeed : s.nextFeed ≤ s'.nextFeed
  nextKey : ∀ c, (s'.consumers c).nextKey = (s.consumers c).nextKey
  memberships : ∀ c, (s'.consumers c).memberships.Sublist (s.consumers c).memberships
  coherent : ∀ c, (s.consumers c).status.Coherent → (s'.consumers c).status.Coherent
  active : ∀ c l k, (s'.consumers c).status.topicToKey l = some k →
    (s.consumers c).status.topicToKey l = some k
  marks : ∀ f, ((s'.feeds f).consumers.map (·.mark)).Sublist ((s.feeds f).consumers.map (·.mark))
  patched : s.patches ⊆ s.ended → s'.patches ⊆ s'.ended

theorem Trims.refl (s : Hub) : Trims s s :=
  ⟨rfl, le_rfl, fun _ => rfl, fun _ => .refl _, fun _ h => h, fun _ _ _ h => h, fun _ => .refl _,
    id⟩

theorem Trims.trans (h : Trims s s') (h' : Trims s' s'') : Trims s s'' where
  nextConsumer := h'.nextConsumer.trans h.nextConsumer
  nextFeed := h.nextFeed.trans h'.nextFeed
  nextKey := fun c => (h'.nextKey c).trans (h.nextKey c)
  memberships := fun c => (h'.memberships c).trans (h.memberships c)
  coherent := fun c hc => h'.coherent c (h.coherent c hc)
  active := fun c l k hl => h.active c l k (h'.active c l k hl)
  marks := fun f => (h'.marks f).trans (h.marks f)
  patched := fun hp => h'.patched (h.patched hp)

theorem Ledger.trims (h : Ledger s) (htr : Trims s s') : Ledger s' := by
  have hlt : ∀ c, c < s'.nextConsumer → c < s.nextConsumer :=
    fun c hc => htr.nextConsumer ▸ hc
  constructor
  · exact fun c hc => htr.coherent c (h.coherent c (hlt c hc))
  · intro c hc l k hl
    rw [htr.nextKey]
    exact h.active_lt c (hlt c hc) l k (htr.active c l k hl)
  · intro c hc m hm
    rw [htr.nextKey]
    exact h.member_lt c (hlt c hc) m ((htr.memberships c).subset hm)
  · exact fun c hc => ((htr.memberships c).map _).nodup (h.member_nodup c (hlt c hc))
  · intro f t ht
    obtain ⟨t₀, ht₀, hmr⟩ := mem_map.mp ((htr.marks f).subset (mem_map_of_mem ht))
    obtain ⟨hlt, hke⟩ := h.topic_lt f t₀ ht₀
    obtain ⟨ho, hk⟩ := Prod.mk.inj hmr
    rw [htr.nextConsumer, htr.nextKey, ← ho, ← hk]
    exact ⟨hlt, hke⟩
  · intro f hf
    have hma := htr.marks f
    rw [h.unborn f (htr.nextFeed.trans hf)] at hma
    simpa using hma
  · exact htr.patched h.patched

theorem trims_modifyConsumer {c : ℕ} {change : Consumer → Consumer}
    (hk : (change (s.consumers c)).nextKey = (s.consumers c).nextKey)
    (hm : (change (s.consumers c)).memberships.Sublist (s.consumers c).memberships)
    (hc : (s.consumers c).status.Coherent → (change (s.consumers c)).status.Coherent)
    (ha : ∀ l k, (change (s.consumers c)).status.topicToKey l = some k →
      (s.consumers c).status.topicToKey l = some k) :
    Trims s (s.modifyConsumer c change) := by
  refine { Trims.refl s with nextKey := ?_, memberships := ?_, coherent := ?_, active := ?_ } <;>
  · intro d
    by_cases hd : d = c
    · subst hd
      simpa [modifyConsumer]
    · simp [modifyConsumer, hd]

theorem trims_consumers {f : ℕ} (topics : List ConsumerTopic)
    (h : topics.Sublist (s.feeds f).consumers) :
    Trims s (s.modifyFeed f fun feed => { feed with consumers := topics }) := by
  refine { Trims.refl s with marks := ?_ }
  intro g
  by_cases hg : g = f
  · subst hg
    simpa [modifyFeed] using h.map _
  · simp [modifyFeed, hg]

theorem trims_retire (s : Hub) (f : ℕ) : Trims s (s.retire f) := by
  have hm : ∀ g, ((s.retire f).feeds g).consumers.map (·.mark) =
      (s.feeds g).consumers.map (·.mark) := fun g => (same_retire s f g).marks
  by_cases hf : s.registry.lookup (s.feeds f).identity = some f
  · refine { Trims.refl s with
      nextConsumer := ?_, nextFeed := (nextFeed_retire s f).ge, nextKey := ?_, memberships := ?_
      coherent := ?_, active := ?_, marks := fun g => hm g ▸ .refl _, patched := ?_ } <;>
    simp [retire, hf, modifyFeed]
  · rw [retire_eq_self hf]
    exact .refl s

theorem trims_retire_foldl (s : Hub) (finished : List ℕ) : Trims s (finished.foldl retire s) := by
  induction finished generalizing s with
  | nil => exact .refl s
  | cons f rest ih => exact (trims_retire s f).trans (ih _)

theorem trims_detach (s : Hub) (c : ℕ) (m : Membership) : Trims s (s.detach c m) := by
  have ht : Trims s _ := trims_consumers (s.detached c m) filter_sublist
  unfold detach
  dsimp only
  split
  · exact ht.trans (trims_retire _ m.feed)
  · exact ht

theorem trims_clearActive (s : Hub) (c : ℕ) : Trims s (s.clearActive c) := by
  have hl : Trims s { s with lost := c :: s.lost } := { Trims.refl s with }
  refine hl.trans (trims_modifyConsumer rfl (.refl _) (fun _ => Status.coherent_empty) ?_)
  simp [Status.empty]

theorem trims_clearActive_foldl (s : Hub) (owners : List ℕ) :
    Trims s (owners.foldl clearActive s) := by
  induction owners generalizing s with
  | nil => exact .refl s
  | cons c rest ih => exact (trims_clearActive s c).trans (ih _)

theorem feeds_clearActive_foldl (s : Hub) (owners : List ℕ) :
    (owners.foldl clearActive s).feeds = s.feeds := by
  induction owners generalizing s with
  | nil => rfl
  | cons c rest ih => exact ih _

theorem trims_sweep (s : Hub) (f : ℕ) : Trims s (s.sweep f) := by
  unfold sweep
  extract_lets feed gone topics s₁ s₂
  have h₁ : Trims s s₁ := trims_clearActive_foldl s _
  have h₂ : Trims s₁ s₂ := by
    refine trims_consumers topics ?_
    rw [feeds_clearActive_foldl]
    exact filter_sublist
  split
  · exact (h₁.trans h₂).trans (trims_retire s₂ f)
  · exact h₁.trans h₂

theorem trims_doWork (s : Hub) (work : Work) : Trims s (s.doWork work) := by
  cases work with
  | detach c m => exact trims_detach s c m
  | sweep f => exact trims_sweep s f
  | dropTopics c labels =>
    simp only [doWork]
    refine trims_modifyConsumer rfl (.refl _) (fun hc => hc.dropTopics labels) ?_
    intro l k
    rw [Status.topicToKey_dropTopics]
    split
    · rintro ⟨⟩
    · exact id
  | clearActive c => exact trims_clearActive s c
  | closeStream c =>
    simp only [doWork, closeStream]
    exact trims_modifyConsumer rfl (.refl _) id fun _ _ h => h

theorem trims_gate (s : Hub) (gate : Gate) : Trims s { s with gate := gate } :=
  { Trims.refl s with }

theorem trims_takeMembers (s : Hub) (c : ℕ) (labels : List String) :
    Trims s (s.takeMembers c labels).1 := by
  simp only [takeMembers]
  exact trims_modifyConsumer rfl filter_sublist id fun _ _ h => h

theorem trims_rollback (s : Hub) (call : Call) : Trims s (s.rollback call) :=
  (trims_takeMembers s call.consumer call.labels).trans (trims_gate _ _)

theorem trims_stepTask {task : Task} (h : s.stepTask task = some s') : Trims s s' := by
  cases task with
  | remove c labels =>
    rw [← Option.some.inj h]
    exact (trims_takeMembers s c labels).trans (trims_gate _ _)
  | unsubscribe c =>
    rw [← Option.some.inj h]
    refine .trans (trims_modifyConsumer rfl (nil_sublist _) id fun _ _ h => h) (trims_gate _ _)
  | depart i =>
    obtain ⟨departure, -, rfl⟩ := Option.map_eq_some_iff.mp h
    exact { Trims.refl s with }
  | cleanup =>
    rw [← Option.some.inj h]
    exact trims_gate s _

end Xbbg.SharedSubscriptions.Hub
