import Xbbg.Library.Results
import Xbbg.Verification.SharedSubscriptions.Aliases
import Xbbg.Verification.SharedSubscriptions.Ledger

/-! A call that adds topics is all or nothing: whenever it gives up after planning, its rollback
leaves no topic, membership, entry or feed of the call, and every other topic keeps what it has
unless its feed ends it or its consumer's whole stream ends. -/

namespace Xbbg.SharedSubscriptions

open Function List Library

namespace Status

variable {planned : List Planned}

theorem topicToKey_reserve_of_notMem {l : String} (st : Status) (h : l ∉ planned.map (·.label)) :
    (planned.foldl (fun st p => st.addActive p.label p.key) st).topicToKey l = st.topicToKey l := by
  induction planned generalizing st with
  | nil => rfl
  | cons p rest ih =>
    simp only [map_cons, mem_cons, not_or] at h
    rw [foldl_cons, ih _ h.2]
    simp [addActive, h.1]

/-- What is active after a reservation was so before, or was reserved. -/
theorem topicToKey_reserve {st : Status} {l : String} {k : ℕ}
    (h : (planned.foldl (fun st p => st.addActive p.label p.key) st).topicToKey l = some k) :
    st.topicToKey l = some k ∨ k ∈ planned.map (·.key) := by
  induction planned generalizing st with
  | nil => exact .inl h
  | cons p rest ih =>
    rcases ih h with ho | hn
    · simp only [addActive, update_apply] at ho
      split at ho
      · exact .inr (by simp [Option.some.inj ho])
      · exact .inl ho
    · exact .inr (mem_cons_of_mem _ hn)

theorem Coherent.reserve {st : Status} (h : st.Coherent) (hl : (planned.map (·.label)).Nodup)
    (hk : (planned.map (·.key)).Nodup) (hi : ∀ p ∈ planned, st.topicToKey p.label = none)
    (hf : ∀ p ∈ planned, ∀ l, st.topicToKey l ≠ some p.key) :
    (planned.foldl (fun st p => st.addActive p.label p.key) st).Coherent := by
  induction planned generalizing st with
  | nil => exact h
  | cons p rest ih =>
    rw [map_cons, nodup_cons] at hl hk
    refine ih (h.addActive (hi p (by simp)) (hf p (by simp))) hl.2 hk.2 ?_ ?_
    · intro q hq
      have hne : q.label ≠ p.label := fun heq => hl.1 (heq ▸ mem_map_of_mem hq)
      simpa [Status.addActive, hne] using hi q (mem_cons_of_mem _ hq)
    · intro q hq l
      have hne : p.key ≠ q.key := fun heq => hk.1 (heq ▸ mem_map_of_mem hq)
      simp only [Status.addActive, update_apply]
      split
      · simpa using hne
      · exact hf q (mem_cons_of_mem _ hq) l

end Status

/-- The topics of a call whose membership is still to be pushed. -/
def Call.waiting (call : Call) : List Planned :=
  match call.phase with
  | .join p _ _ => p :: call.rest
  | _ => call.rest

namespace Hub

variable {s s' s'' : Hub}
variable {call : Call} {f : ℕ} {p : Planned} {created : Bool}

/-! ### A call under way -/

/-- What holds while a call attaches its topics: its keys are its own, every entry that it made
has a membership with a label of the call, and so has every feed that it created, except for one
that it is about to join. Nobody else enters a created feed. -/
structure CallOk (s : Hub) (call : Call) : Prop where
  allocated : call.consumer < s.nextConsumer
  alive : (s.consumers call.consumer).dropped = false
  key_lt : ∀ k ∈ call.keys, k < (s.consumers call.consumer).nextKey
  distinct : call.keys.Nodup
  waiting : call.waiting.Sublist call.planned
  fresh : ∀ p ∈ call.waiting, ∀ m ∈ (s.consumers call.consumer).memberships, m.key ≠ p.key
  joining : ∀ p f created, call.phase = .join p f created → f < s.nextFeed
  entering : ∀ p f created, call.phase = .enter p f created → f < s.nextFeed ∧ p ∈ call.planned ∧
    ∃ m ∈ (s.consumers call.consumer).memberships, m.key = p.key ∧ m.label = p.label ∧ m.feed = f
  listed : ∀ f, ∀ t ∈ (s.feeds f).consumers, t.owner = call.consumer → t.key ∈ call.keys →
    ∃ m ∈ (s.consumers call.consumer).memberships,
      m.key = t.key ∧ m.label ∈ call.labels ∧ m.feed = f
  anchored : ∀ f ∈ call.created, (∃ m ∈ (s.consumers call.consumer).memberships,
    m.label ∈ call.labels ∧ m.feed = f) ∨ ∃ p, call.phase = .join p f true
  own : ∀ f ∈ call.created, ∀ t ∈ (s.feeds f).consumers, t.owner = call.consumer ∧ t.key ∈ call.keys

/-- What holds during a rollback: the entries of the call and the feeds that it created and that
are still registered have a membership left to detach, no other membership has the key of one of
these, and the topics are dropped at the end. -/
structure UndoOk (s : Hub) (work : List Work) (call : Call) : Prop where
  allocated : call.consumer < s.nextConsumer
  alive : (s.consumers call.consumer).dropped = false
  members : ∀ m ∈ (s.consumers call.consumer).memberships, m.label ∉ call.labels
  listed : ∀ f, ∀ t ∈ (s.feeds f).consumers, t.owner = call.consumer → t.key ∈ call.keys →
    ∃ m, .detach call.consumer m ∈ work ∧ m.key = t.key ∧ m.feed = f
  anchored : ∀ f ∈ call.created, (∃ id, s.registry.lookup id = some f) →
    ∃ m, .detach call.consumer m ∈ work ∧ m.feed = f
  own : ∀ f ∈ call.created, ∀ t ∈ (s.feeds f).consumers, t.owner = call.consumer ∧ t.key ∈ call.keys
  pieces : ∀ w ∈ work, w = .dropTopics call.consumer call.labels ∨
    ∃ m, w = .detach call.consumer m ∧
      ∀ m' ∈ (s.consumers call.consumer).memberships, m'.key ≠ m.key
  inactive : .dropTopics call.consumer call.labels ∈ work ∨
    ∀ l ∈ call.labels, (s.consumers call.consumer).status.topicToKey l = none

/-- The holder's memberships are out of reach of what happens without the gate. -/
theorem Calm.holder_memberships (hca : Calm s s') {c : ℕ} (hc : c < s.nextConsumer)
    (hh : s.gate.holder = some c) (ha : (s.consumers c).dropped = false) :
    (s'.consumers c).dropped = false ∧
      (s'.consumers c).memberships = (s.consumers c).memberships := by
  have hd : (s'.consumers c).dropped = false := by
    by_contra h
    have := hca.holder c hh (by simpa using h)
    simp [ha] at this
  refine ⟨hd, (hca.follows c hc).memberships.resolve_right ?_⟩
  simp [hd]

theorem CallOk.calm (h : CallOk s call) (hc : Calm s s')
    (hh : s.gate.holder = some call.consumer) : CallOk s' call := by
  obtain ⟨ha, hm⟩ := hc.holder_memberships h.allocated hh h.alive
  refine ⟨h.allocated.trans_le hc.nextConsumer, ha, ?_, h.distinct, h.waiting, ?_, ?_, ?_,
    ?_, ?_, ?_⟩
  · rw [(hc.follows _ h.allocated).nextKey]
    exact h.key_lt
  · rw [hm]
    exact h.fresh
  · rw [hc.nextFeed]
    exact h.joining
  · rw [hc.nextFeed, hm]
    exact h.entering
  · intro f t ht ho hk
    obtain ⟨t₀, ht₀, ho₀, hk₀⟩ := (hc.feeds f).symm.exists_topic ht
    rw [hm, ← hk₀]
    exact h.listed f t₀ ht₀ (ho₀.trans ho) (hk₀ ▸ hk)
  · rw [hm]
    exact h.anchored
  · intro f hf t ht
    obtain ⟨t₀, ht₀, ho, hk⟩ := (hc.feeds f).symm.exists_topic ht
    rw [← ho, ← hk]
    exact h.own f hf t₀ ht₀

theorem UndoOk.calm {work : List Work} (h : UndoOk s work call) (hc : Calm s s')
    (hh : s.gate.holder = some call.consumer) : UndoOk s' work call := by
  obtain ⟨ha, hm⟩ := hc.holder_memberships h.allocated hh h.alive
  refine ⟨h.allocated.trans_le hc.nextConsumer, ha, ?_, ?_, ?_, ?_, ?_, ?_⟩
  · rw [hm]
    exact h.members
  · intro f t ht ho hk
    obtain ⟨t₀, ht₀, ho₀, hk₀⟩ := (hc.feeds f).symm.exists_topic ht
    rw [← hk₀]
    exact h.listed f t₀ ht₀ (ho₀.trans ho) (hk₀ ▸ hk)
  · rw [hc.registry]
    exact h.anchored
  · intro f hf t ht
    obtain ⟨t₀, ht₀, ho, hk⟩ := (hc.feeds f).symm.exists_topic ht
    rw [← ho, ← hk]
    exact h.own f hf t₀ ht₀
  · rw [hm]
    exact h.pieces
  · refine h.inactive.imp_right fun hn l hl => ?_
    cases hk : (s'.consumers call.consumer).status.topicToKey l with
    | none => rfl
    | some k => simpa [hn l hl] using (hc.follows _ h.allocated).status.sub l k hk

/-! ### Planning -/

theorem consumers_foldl_retire (s : Hub) (finished : List ℕ) :
    (finished.foldl retire s).consumers = s.consumers := by
  induction finished generalizing s with
  | nil => rfl
  | cons f rest ih => rw [foldl_cons, ih, consumers_retire]

section Plan

variable {trim : String → String} {c : ℕ} {topics : List String}
  {aliases requested : List (String × String)} {session : Option ℕ} {planned : List Planned}
  {finished : List ℕ} {nextFeed : ℕ}
  (h : Plans trim s c topics aliases session requested planned finished nextFeed s')
include h

theorem Plans.consumers : s'.consumers =
    update s.consumers c (reserve planned (s.consumers c)) := by
  rw [h.state]
  simp [modifyConsumer, consumers_foldl_retire]

theorem Plans.le_key {p : Planned} (hp : p ∈ planned) : (s.consumers c).nextKey ≤ p.key := by
  have hk : p.key ∈ planned.map (·.key) := mem_map_of_mem hp
  rw [h.keys] at hk
  exact (mem_range'_1.mp hk).1

theorem Plans.nodup_labels : (planned.map (·.label)).Nodup := by
  rw [h.labels]
  exact (filter_sublist.map _).nodup (nodup_validateTopicAliases h.valid)

theorem Plans.nodup_keys : (planned.map (·.key)).Nodup := by
  rw [h.keys]
  exact nodup_range'

theorem Plans.inactive {p : Planned} (hp : p ∈ planned) :
    (s.consumers c).status.topicToKey p.label = none := by
  have hl : p.label ∈ planned.map (·.label) := mem_map_of_mem hp
  rw [h.labels] at hl
  obtain ⟨r, hr, hrl⟩ := mem_map.mp hl
  rw [← hrl]
  simpa using (mem_filter.mp hr).2

theorem Plans.trims : Trims s (finished.foldl retire { s with nextFeed := nextFeed }) := by
  have hn : Trims s { s with nextFeed := nextFeed } :=
    { Trims.refl s with nextFeed := h.next_le }
  exact hn.trans (trims_retire_foldl _ finished)

theorem Plans.nextConsumer : s'.nextConsumer = s.nextConsumer := by
  rw [h.state]
  exact h.trims.nextConsumer

theorem Plans.feeds : s'.feeds = (finished.foldl retire { s with nextFeed := nextFeed }).feeds := by
  rw [h.state]
  rfl

theorem Plans.ledger (hs : Ledger s) : Ledger s' := by
  have h₁ := hs.trims h.trims
  have hc : ∀ d, s'.consumers d = if d = c then reserve planned (s.consumers c)
      else s.consumers d := by
    intro d
    rw [h.consumers, update_apply]
  have hn := h.nextConsumer
  constructor
  · intro d hd
    rw [hn] at hd
    rw [hc]
    split
    · refine (hs.coherent c h.allocated).reserve h.nodup_labels h.nodup_keys
        (fun p hp => h.inactive hp) ?_
      intro p hp l hl
      exact absurd (hs.active_lt c h.allocated l _ hl) (Nat.not_lt.mpr (h.le_key hp))
    · exact hs.coherent d hd
  · intro d hd l k hl
    rw [hn] at hd
    rw [hc] at hl ⊢
    split at hl
    · next heq =>
      simp only [heq, if_true, reserve]
      rcases Status.topicToKey_reserve hl with ho | hnw
      · exact (hs.active_lt c h.allocated l k ho).trans_le (Nat.le_add_right _ _)
      · rw [h.keys] at hnw
        exact (mem_range'_1.mp hnw).2
    · next hne =>
      rw [if_neg hne]
      exact hs.active_lt d hd l k hl
  · intro d hd m hm
    rw [hn] at hd
    rw [hc] at hm ⊢
    split at hm
    · next heq =>
      simp only [heq, if_true, reserve]
      exact (hs.member_lt c h.allocated m hm).trans_le (Nat.le_add_right _ _)
    · next hne =>
      rw [if_neg hne]
      exact hs.member_lt d hd m hm
  · intro d hd
    rw [hn] at hd
    rw [hc]
    split
    · exact hs.member_nodup c h.allocated
    · exact hs.member_nodup d hd
  · intro f t ht
    rw [h.feeds] at ht
    obtain ⟨hlt, hk⟩ := h₁.topic_lt f t ht
    rw [h.trims.nextConsumer] at hlt
    rw [h.trims.nextKey] at hk
    rw [hn, hc]
    refine ⟨hlt, ?_⟩
    split
    · next heq =>
      rw [heq] at hk
      exact hk.trans_le (Nat.le_add_right _ _)
    · exact hk
  · intro f hf
    rw [h.feeds]
    apply h₁.unborn f
    rw [h.state] at hf
    exact hf
  · rw [h.state]
    exact h₁.patched

theorem Plans.callOk (hs : Ledger s) :
    CallOk s' ⟨c, planned, session, planned, .lookup, [], []⟩ := by
  have hc : s'.consumers c = reserve planned (s.consumers c) := by
    rw [h.consumers, update_self]
  refine ⟨?_, ?_, ?_, h.nodup_keys, .refl _, ?_, ?_, ?_, ?_, ?_, ?_⟩
  · rw [h.nextConsumer]
    exact h.allocated
  · rw [hc]
    exact h.alive
  · intro k hk
    rw [hc]
    change k ∈ planned.map (·.key) at hk
    rw [h.keys] at hk
    exact (mem_range'_1.mp hk).2
  · intro p hp m hm
    rw [hc] at hm
    have hlt := hs.member_lt c h.allocated m hm
    have hle := h.le_key hp
    omega
  · simp
  · simp
  · intro f t ht ho hke
    -- no entry carries a key of the call yet
    change t.owner = c at ho
    rw [h.feeds] at ht
    obtain ⟨-, hlt⟩ := (hs.trims h.trims).topic_lt f t ht
    rw [h.trims.nextKey, ho] at hlt
    obtain ⟨p, hp, hpk⟩ := mem_map.mp hke
    have hle := h.le_key hp
    omega
  · simp
  · simp

end Plan

/-! ### Giving up -/

/-- The memberships and the entries that the call made are what its rollback takes back. -/
theorem CallOk.rollback (h : CallOk s call) (hs : Ledger s)
    (hp : ∀ p f, call.phase ≠ .join p f true) :
    ∃ work, (s.rollback call).gate = .working work (some call) ∧
      UndoOk (s.rollback call) work call := by
  have hme : ((s.rollback call).consumers call.consumer).memberships =
      (s.consumers call.consumer).memberships.filter
        fun member => !call.labels.contains member.label := by
    simp [Hub.rollback, takeMembers, modifyConsumer]
  have hta : ∀ m ∈ (s.consumers call.consumer).memberships, m.label ∈ call.labels →
      Work.detach call.consumer m ∈ (s.takeMembers call.consumer call.labels).2 := by
    intro m hm hl
    simp only [takeMembers, mem_append, mem_map, mem_filter]
    exact .inl ⟨m, ⟨hm, by simpa using hl⟩, rfl⟩
  refine ⟨_, rfl, h.allocated, ?_, ?_, ?_, ?_, h.own, ?_, .inl ?_⟩
  · simpa [Hub.rollback, takeMembers, modifyConsumer] using h.alive
  · intro m hm
    rw [hme] at hm
    simpa using (mem_filter.mp hm).2
  · intro f t ht ho hk
    obtain ⟨m, hm, hmk, hl, hfe⟩ := h.listed f t ht ho hk
    exact ⟨m, hta m hm hl, hmk, hfe⟩
  · intro f hf _
    rcases h.anchored f hf with ⟨m, hm, hl, hfe⟩ | ⟨p, hj⟩
    · exact ⟨m, hta m hm hl, hfe⟩
    · exact absurd hj (hp p f)
  · intro w hw
    simp only [mem_append, mem_map, mem_singleton] at hw
    rcases hw with ⟨m, hm, rfl⟩ | rfl
    · refine .inr ⟨m, rfl, ?_⟩
      intro m' hm' heq
      rw [hme] at hm'
      obtain ⟨hm, hl⟩ := mem_filter.mp hm
      obtain ⟨hm', hl'⟩ := mem_filter.mp hm'
      obtain rfl := inj_on_of_nodup_map (hs.member_nodup _ h.allocated) hm' hm heq
      simp only [Bool.not_eq_true', hl] at hl'
      cases hl'
    · exact .inl rfl
  · simp

/-! ### The work of a rollback -/

theorem consumers_detach (s : Hub) (c : ℕ) (m : Membership) :
    (s.detach c m).consumers = s.consumers := by
  unfold detach
  dsimp only
  split
  · rw [consumers_retire]
    rfl
  · rfl

theorem nextConsumer_detach (s : Hub) (c : ℕ) (m : Membership) :
    (s.detach c m).nextConsumer = s.nextConsumer :=
  (trims_detach s c m).nextConsumer

theorem same_detach (s : Hub) (c : ℕ) (m : Membership) (f : ℕ) : Feed.Same { s.feeds f with
      consumers := if f = m.feed then s.detached c m else (s.feeds f).consumers }
      ((s.detach c m).feeds f) := by
  have hs : Feed.Same { s.feeds f with
      consumers := if f = m.feed then s.detached c m else (s.feeds f).consumers }
      ((s.modifyFeed m.feed fun feed =>
        { feed with consumers := s.detached c m }).feeds f) := by
    by_cases hf : f = m.feed
    · subst hf
      simpa [modifyFeed] using Feed.Same.refl _
    · simpa [modifyFeed, hf] using Feed.Same.refl _
  by_cases he : (s.detached c m).isEmpty = true
  · simp only [detach, if_pos he]
    exact hs.trans (same_retire _ m.feed f)
  · simp only [detach, if_neg he]
    exact hs

variable {m : Membership} {t : ConsumerTopic}

theorem exists_topic_of_detach {c : ℕ} (ht : t ∈ ((s.detach c m).feeds f).consumers) :
    ∃ t₀ ∈ (s.feeds f).consumers, t₀.owner = t.owner ∧ t₀.key = t.key ∧
      (f = m.feed → t.owner = c → t.key ≠ m.key) := by
  obtain ⟨t₀, ht₀, ho, hk⟩ := (same_detach s c m f).symm.exists_topic ht
  dsimp only at ht₀
  split at ht₀
  · next hf =>
    obtain ⟨hm, hl⟩ := mem_filter.mp ht₀
    refine ⟨t₀, hf ▸ hm, ho, hk, ?_⟩
    rintro - hc hke
    simp [ho.trans hc, hk.trans hke] at hl
  · next hne => exact ⟨t₀, ht₀, ho, hk, fun hf => absurd hf hne⟩

/-- An entry of a living owner stays unless it is the one to be detached. -/
theorem exists_topic_detach {c : ℕ}
    (ht : t ∈ (s.feeds f).consumers) (ha : (s.consumers t.owner).dropped = false)
    (hs : t.owner = c → t.key ≠ m.key) :
    ∃ t' ∈ ((s.detach c m).feeds f).consumers, t'.owner = t.owner ∧ t'.key = t.key := by
  apply (same_detach s c m f).exists_topic
  dsimp only
  split
  · next hf =>
    subst hf
    refine mem_filter.mpr ⟨ht, ?_⟩
    by_cases hc : t.owner = c
    · simp [hs hc]
    · simp [isDropped, ha, hc]
  · exact ht

theorem lookup_detach (h : Registered s) (c : ℕ) (m : Membership) (id : FeedKey) (g : ℕ) :
    (s.detach c m).registry.lookup id = some g ↔
      s.registry.lookup id = some g ∧ (g = m.feed → s.detached c m ≠ []) := by
  have hs := h.same (sameRegistry_consumers s m.feed (s.detached c m))
  unfold detach
  dsimp only
  split
  · next he =>
    rw [lookup_retire hs]
    simp [modifyFeed, isEmpty_iff.mp he]
  · next hl =>
    have hne : s.detached c m ≠ [] := by simpa using hl
    simp [modifyFeed, hne]

theorem UndoOk.detach {work : List Work} (hr : Registered s)
    (h : UndoOk s (.detach call.consumer m :: work) call) :
    UndoOk (s.detach call.consumer m) work call := by
  refine ⟨?_, ?_, ?_, ?_, ?_, ?_, ?_, ?_⟩
  · rw [nextConsumer_detach]
    exact h.allocated
  · rw [consumers_detach]
    exact h.alive
  · rw [consumers_detach]
    exact h.members
  · intro f t ht ho hk
    obtain ⟨t₀, ht₀, ho₀, hk₀, hne⟩ := exists_topic_of_detach ht
    obtain ⟨m', hm', hm, hfe⟩ :=
      h.listed f t₀ ht₀ (ho₀.trans ho) (hk₀ ▸ hk)
    refine ⟨m', ?_, hm.trans hk₀, hfe⟩
    rcases mem_cons.mp hm' with heq | hwo
    · -- the entry of this membership is not there any more
      obtain rfl : m' = m := by injection heq
      exact absurd (hm.trans hk₀).symm (hne hfe.symm ho)
    · exact hwo
  · rintro f hf ⟨id, hlo⟩
    obtain ⟨hol, hl⟩ := (lookup_detach hr _ m id f).mp hlo
    obtain ⟨m', hm', hfe⟩ := h.anchored f hf ⟨id, hol⟩
    rcases mem_cons.mp hm' with heq | hwo
    · -- the feed has an entry left, which is the call's and has its own membership
      obtain rfl : m' = m := by injection heq
      obtain ⟨t, ht⟩ := exists_mem_of_ne_nil _ (hl hfe.symm)
      obtain ⟨hme, hs⟩ := mem_filter.mp ht
      rw [hfe] at hme
      obtain ⟨ho, hk⟩ := h.own f hf t hme
      obtain ⟨m'', hm'', hm, hfe'⟩ := h.listed f t hme ho hk
      refine ⟨m'', (mem_cons.mp hm'').resolve_left ?_, hfe'⟩
      intro heq
      obtain rfl : m'' = m' := by injection heq
      simp [ho, hm] at hs
    · exact ⟨m', hwo, hfe⟩
  · intro f hf t ht
    obtain ⟨t₀, ht₀, ho, hk, -⟩ := exists_topic_of_detach ht
    rw [← ho, ← hk]
    exact h.own f hf t₀ ht₀
  · rw [consumers_detach]
    exact fun w hw => h.pieces w (mem_cons_of_mem _ hw)
  · rw [consumers_detach]
    exact h.inactive.imp_left fun hme => (mem_cons.mp hme).resolve_left (by simp)

theorem UndoOk.dropTopics {work : List Work}
    (h : UndoOk s (.dropTopics call.consumer call.labels :: work) call) :
    UndoOk (s.doWork (.dropTopics call.consumer call.labels)) work call := by
  have hme : ((s.doWork (.dropTopics call.consumer call.labels)).consumers
      call.consumer).memberships = (s.consumers call.consumer).memberships := by
    simp [doWork, modifyConsumer]
  have hp : ∀ m, Work.detach call.consumer m ∈
      Work.dropTopics call.consumer call.labels :: work → .detach call.consumer m ∈ work :=
    fun m hm => (mem_cons.mp hm).resolve_left (by simp)
  refine ⟨h.allocated, ?_, ?_, ?_, ?_, h.own, ?_, .inr ?_⟩
  · simpa [doWork, modifyConsumer] using h.alive
  · rw [hme]
    exact h.members
  · intro f t ht ho hk
    obtain ⟨m, hm, hfa⟩ := h.listed f t ht ho hk
    exact ⟨m, hp m hm, hfa⟩
  · intro f hf hlo
    obtain ⟨m, hm, hfe⟩ := h.anchored f hf hlo
    exact ⟨m, hp m hm, hfe⟩
  · rw [hme]
    exact fun w hw => h.pieces w (mem_cons_of_mem _ hw)
  · intro l hl
    simp only [doWork, modifyConsumer, update_self]
    rw [Status.topicToKey_dropTopics, if_pos hl]

theorem UndoOk.work {w : Work} {work : List Work} (hr : Registered s)
    (h : UndoOk s (w :: work) call) : UndoOk (s.doWork w) work call := by
  rcases h.pieces w (by simp) with rfl | ⟨m, rfl, -⟩
  · exact h.dropTopics
  · exact h.detach hr

/-! ### Going on -/

theorem trims_createFeed (s : Hub) (id : FeedKey) (session : ℕ) :
    Trims s (s.createFeed id session) := by
  refine { Trims.refl s with nextFeed := Nat.le_succ _, marks := ?_ }
  intro f
  by_cases hf : f = s.nextFeed
  · simp [createFeed, hf]
  · simp [createFeed, hf]

theorem Ledger.join (hs : Ledger s) (h : CallOk s call) (hph : call.phase = .join p f created) :
    Ledger (s.join call p f created) := by
  have hp : p ∈ call.waiting := by simp [Call.waiting, hph]
  have hke : p.key ∈ call.keys := mem_map_of_mem (h.waiting.subset hp)
  have hc : ∀ d, (s.join call p f created).consumers d =
      if d = call.consumer then { s.consumers d with
        memberships := (s.consumers d).memberships ++
          [⟨p.key, p.label, (s.feeds f).identity.topic, (s.feeds f).session, f⟩] }
      else s.consumers d := by
    intro d
    by_cases hd : d = call.consumer
    · subst hd
      simp [Hub.join, modifyConsumer]
    · simp [Hub.join, modifyConsumer, hd]
  constructor
  · intro d hd
    rw [hc]
    split <;> exact hs.coherent d hd
  · intro d hd l k
    rw [hc]
    split <;> exact hs.active_lt d hd l k
  · intro d hd m
    rw [hc]
    split
    · next heq =>
      intro hm
      rcases mem_snoc.mp hm with hm | rfl
      · exact hs.member_lt d hd m hm
      · exact heq ▸ h.key_lt p.key hke
    · exact hs.member_lt d hd m
  · intro d hd
    rw [hc]
    split
    · next heq =>
      rw [map_append]
      refine nodup_append'.mpr ⟨hs.member_nodup d hd, nodup_singleton _, ?_⟩
      rw [heq]
      intro k hk hk'
      obtain ⟨m, hm, hmk⟩ := mem_map.mp hk
      exact h.fresh p hp m hm (hmk.trans (by simpa using hk'))
    · exact hs.member_nodup d hd
  · intro g t ht
    have hto := hs.topic_lt g t ht
    rw [hc]
    split <;> exact hto
  · exact hs.unborn
  · exact hs.patched

variable {gate : Gate}

theorem Ledger.enter (hs : Ledger s) {tp : ConsumerTopic} (hf : f < s.nextFeed)
    (ho : tp.owner < s.nextConsumer) (hk : tp.key < (s.consumers tp.owner).nextKey) :
    Ledger { s.modifyFeed f fun feed => { feed with consumers := feed.consumers ++ [tp] } with
      gate := gate } := by
  refine ⟨hs.coherent, hs.active_lt, hs.member_lt, hs.member_nodup, ?_, ?_, hs.patched⟩
  · intro g t ht
    by_cases hg : g = f
    · subst hg
      simp only [modifyFeed, update_self, mem_append, mem_singleton] at ht
      rcases ht with ht | rfl
      · exact hs.topic_lt g t ht
      · exact ⟨ho, hk⟩
    · simp only [modifyFeed, update_of_ne hg] at ht
      exact hs.topic_lt g t ht
  · intro g hg
    have hne : g ≠ f := by
      change s.nextFeed ≤ g at hg
      omega
    simpa [modifyFeed, hne] using hs.unborn g hg

variable {rest : List Planned}

theorem CallOk.next (h : CallOk s call) {phase : Phase}
    {creations : List ℕ} (ho : ∀ p f, call.phase ≠ .join p f true)
    (he : ∀ p f created, phase ≠ .enter p f created)
    (hj : ∀ p f created, phase = .join p f created → f < s.nextFeed)
    (hw : Call.waiting { call with rest := rest, phase := phase, creations := creations } =
      call.waiting) :
    CallOk { s with gate := gate }
      { call with rest := rest, phase := phase, creations := creations } where
  allocated := h.allocated
  alive := h.alive
  key_lt := h.key_lt
  distinct := h.distinct
  waiting := hw ▸ h.waiting
  fresh := hw ▸ h.fresh
  joining := hj
  entering := fun p f created heq => absurd heq (he p f created)
  listed := h.listed
  anchored := fun f hf => (h.anchored f hf).imp_right fun ⟨p, hp⟩ => absurd hp (ho p f)
  own := h.own

theorem CallOk.create (h : CallOk s call) (hp : call.phase = .lookup)
    (hr : call.rest = p :: rest) (id : FeedKey) (session : ℕ) :
    CallOk { s.createFeed id session with
        gate := .adding { call with
          rest := rest
          phase := .join p s.nextFeed true
          created := s.nextFeed :: call.created } }
      { call with
        rest := rest
        phase := .join p s.nextFeed true
        created := s.nextFeed :: call.created } := by
  have hw : p :: rest = call.waiting := by simp [Call.waiting, hp, hr]
  -- the new feed has no entries; every other feed is as it was
  have hfe : ∀ f, ∀ t ∈ ((s.createFeed id session).feeds f).consumers,
      f ≠ s.nextFeed ∧ t ∈ (s.feeds f).consumers := by
    intro f t ht
    by_cases hf : f = s.nextFeed
    · simp [createFeed, hf] at ht
    · exact ⟨hf, by simpa [createFeed, hf] using ht⟩
  refine ⟨h.allocated, h.alive, h.key_lt, h.distinct, ?_, ?_, ?_, ?_, ?_, ?_, ?_⟩
  · change (p :: rest).Sublist call.planned
    exact hw ▸ h.waiting
  · change ∀ q ∈ p :: rest, ∀ m ∈ (s.consumers call.consumer).memberships, m.key ≠ q.key
    exact hw ▸ h.fresh
  · rintro _ _ _ ⟨⟩
    exact Nat.lt_succ_self _
  · intro _ _ _ heq
    cases heq
  · intro f t ht
    exact h.listed f t (hfe f t ht).2
  · intro f hf
    rcases mem_cons.mp hf with rfl | ho
    · exact .inr ⟨p, rfl⟩
    · exact .inl ((h.anchored f ho).resolve_right (by simp [hp]))
  · intro f hf t ht
    obtain ⟨hne, hm⟩ := hfe f t ht
    exact h.own f ((mem_cons.mp hf).resolve_left hne) t hm

theorem CallOk.join (h : CallOk s call) (hph : call.phase = .join p f created) :
    CallOk (s.join call p f created) { call with phase := .enter p f created } := by
  have hw : call.waiting = p :: call.rest := by simp [Call.waiting, hph]
  have hs : (p :: call.rest).Sublist call.planned := hw ▸ h.waiting
  have hp : p ∈ call.planned := hs.subset (by simp)
  have hme : ((s.join call p f created).consumers call.consumer).memberships =
      (s.consumers call.consumer).memberships ++
        [⟨p.key, p.label, (s.feeds f).identity.topic, (s.feeds f).session, f⟩] := by
    simp [Hub.join, modifyConsumer]
  refine ⟨h.allocated, ?_, ?_, h.distinct, (sublist_cons_self p _).trans hs, ?_, ?_, ?_, ?_,
    ?_, h.own⟩
  · simpa [Hub.join, modifyConsumer] using h.alive
  · intro k hk
    simpa [Hub.join, modifyConsumer] using h.key_lt k hk
  · intro q hq m hm
    change q ∈ call.rest at hq
    rw [hme] at hm
    rcases mem_snoc.mp hm with hm | rfl
    · exact h.fresh q (hw ▸ mem_cons_of_mem _ hq) m hm
    · have hn : ((p :: call.rest).map (·.key)).Nodup := (hs.map _).nodup h.distinct
      rw [map_cons, nodup_cons] at hn
      intro heq
      change p.key = q.key at heq
      exact hn.1 (heq ▸ mem_map_of_mem hq)
  · intro _ _ _ heq
    cases heq
  · rintro _ _ _ ⟨⟩
    rw [hme]
    exact ⟨h.joining p f created hph, hp, _,
      mem_append_right _ (mem_singleton_self _), rfl, rfl, rfl⟩
  · intro g t ht ho hke
    obtain ⟨m, hm, hf⟩ := h.listed g t ht ho hke
    rw [hme]
    exact ⟨m, mem_append_left _ hm, hf⟩
  · intro g hg
    rw [hme]
    rcases h.anchored g hg with ⟨m, hm, hf⟩ | ⟨q, hq⟩
    · exact .inl ⟨m, mem_append_left _ hm, hf⟩
    · rw [hph] at hq
      obtain ⟨rfl, rfl, -⟩ := Phase.join.inj hq
      exact .inl ⟨_, mem_append_right _ (mem_singleton_self _), mem_map_of_mem hp, rfl⟩

theorem CallOk.enter (h : CallOk s call) (hph : call.phase = .enter p f created)
    (allowed growth : Bool) :
    CallOk { s.modifyFeed f fun feed =>
          { feed with consumers := feed.consumers ++ [⟨call.consumer, p.key, allowed⟩] } with
        gate := gate }
      { call with phase := .settle f created growth } := by
  obtain ⟨-, hp, m, hm, hmk, hl, hfe⟩ := h.entering p f created hph
  have hf : ∀ g, ∀ t ∈ ((s.modifyFeed f fun feed => { feed with
      consumers := feed.consumers ++ [⟨call.consumer, p.key, allowed⟩] }).feeds g).consumers,
      t ∈ (s.feeds g).consumers ∨ g = f ∧ t.owner = call.consumer ∧ t.key = p.key := by
    intro g t ht
    by_cases hg : g = f
    · subst hg
      simp only [modifyFeed, update_self, mem_append, mem_singleton] at ht
      rcases ht with ht | rfl
      · exact .inl ht
      · exact .inr ⟨rfl, rfl, rfl⟩
    · exact .inl (by simpa [modifyFeed, hg] using ht)
  have hw : call.waiting = call.rest := by simp [Call.waiting, hph]
  refine ⟨h.allocated, h.alive, h.key_lt, h.distinct, ?_, ?_, ?_, ?_, ?_, ?_, ?_⟩
  · exact hw ▸ h.waiting
  · exact hw ▸ h.fresh
  · intro _ _ _ heq
    cases heq
  · intro _ _ _ heq
    cases heq
  · intro g t ht ho hk
    rcases hf g t ht with hol | ⟨rfl, -, hk'⟩
    · exact h.listed g t hol ho hk
    · exact ⟨m, hm, hmk.trans hk'.symm, hl ▸ mem_map_of_mem hp, hfe⟩
  · intro g hg
    exact .inl ((h.anchored g hg).resolve_right (by simp [hph]))
  · intro g hg t ht
    rcases hf g t ht with hol | ⟨-, ho, hk⟩
    · exact h.own g hg t hol
    · exact ⟨ho, hk ▸ mem_map_of_mem hp⟩

/-! ### Every reachable state -/

structure Sound (s : Hub) : Prop where
  registered : Registered s
  ledger : Ledger s
  adding : ∀ call, s.gate = .adding call → CallOk s call
  undoing : ∀ work call, s.gate = .working work (some call) → UndoOk s work call

theorem sound_new : Sound new :=
  ⟨registered_new, ledger_new, fun _ h => by simp [new] at h, fun _ _ h => by simp [new] at h⟩

/-- The gate is free, or with somebody who adds nothing. -/
theorem sound_of_idle (hr : Registered s) (hl : Ledger s) (hg : s.gate.holder = none) :
    Sound s := by
  refine ⟨hr, hl, ?_, ?_⟩
  · intro call h
    simp [h, Gate.holder] at hg
  · intro work call h
    simp [h, Gate.holder] at hg

theorem sound_of_adding (hr : Registered s) (hl : Ledger s) (hg : s.gate = .adding call)
    (h : CallOk s call) : Sound s := by
  refine ⟨hr, hl, ?_, ?_⟩
  · intro call' h'
    obtain rfl : call = call' := Gate.adding.inj (hg.symm.trans h')
    exact h
  · intro work call' h'
    rw [hg] at h'
    cases h'

theorem sound_of_undoing {work : List Work} (hr : Registered s) (hl : Ledger s)
    (hg : s.gate = .working work (some call)) (h : UndoOk s work call) : Sound s := by
  refine ⟨hr, hl, ?_, ?_⟩
  · intro call' h'
    rw [hg] at h'
    cases h'
  · intro work' call' h'
    obtain ⟨rfl, heq⟩ := Gate.working.inj (hg.symm.trans h')
    cases heq
    exact h

theorem Sound.callStep (h : Sound s) (hg : s.gate = .adding call) (hs : CallStep s call s') :
    Sound s' := by
  have hc := h.adding call hg
  have hh : s.gate.holder = some call.consumer := by rw [hg, Gate.holder]
  have hr := h.registered.callStep hs
  cases hs with
  | commit => exact sound_of_idle hr (h.ledger.trims (trims_gate s _)) rfl
  | subscribe hph | settle hph creations =>
    refine sound_of_adding hr (h.ledger.trims (trims_gate s _)) rfl
      (hc.next (by simp [hph]) (by simp) (by simp) ?_)
    simp [Call.waiting, hph]
  | found hph hre hlo =>
    refine sound_of_adding hr (h.ledger.trims (trims_gate s _)) rfl
      (hc.next (by simp [hph]) (by simp) ?_ ?_)
    · rintro _ _ _ ⟨⟩
      exact h.registered.below _ _ hlo
    · simp [Call.waiting, hph, hre]
  | create session hph hre hlo =>
    exact sound_of_adding hr
      (h.ledger.trims ((trims_createFeed s _ session).trans (trims_gate _ _))) rfl
      (hc.create hph hre _ session)
  | join hph => exact sound_of_adding hr (h.ledger.join hc hph) rfl (hc.join hph)
  | enter allowed growth hph hca =>
    have hc' := hc.calm hca hh
    obtain ⟨hf, hp, -⟩ := hc'.entering _ _ _ hph
    exact sound_of_adding hr
      ((h.ledger.calm hca).enter hf hc'.allocated (hc'.key_lt _ (mem_map_of_mem hp)))
      rfl (hc'.enter hph allowed growth)
  | undo hph hca =>
    have hl := h.ledger.calm hca
    obtain ⟨work, hw, hu⟩ := (hc.calm hca hh).rollback hl hph
    exact sound_of_undoing hr (hl.trims (trims_rollback _ call)) hw hu

theorem Sound.event (h : Sound s) {ev : Event} (hs : s.stepEvent ev = some s') :
    Sound s' := by
  have hc := calm_stepEvent h.ledger.patched hs
  refine ⟨h.registered.calm hc, h.ledger.calm hc, ?_, ?_⟩
  · intro call hg
    rw [hc.gate] at hg
    exact (h.adding call hg).calm hc (by rw [hg, Gate.holder])
  · intro work call hg
    rw [hc.gate] at hg
    exact (h.undoing work call hg).calm hc (by rw [hg, Gate.holder])

theorem holder_stepTask {task : Task} (h : s.stepTask task = some s') : s'.gate.holder = none := by
  cases task with
  | depart i =>
    obtain ⟨departure, -, rfl⟩ := Option.map_eq_some_iff.mp h
    rfl
  | _ =>
    rw [← Option.some.inj h]
    rfl

theorem Sound.work (h : Sound s) {w : Work} {work : List Work} {undone : Option Call}
    (hg : s.gate = .working (w :: work) undone) :
    Sound { s.doWork w with gate := .working work undone } := by
  have hr := (h.registered.doWork w).gate (.working work undone)
  have hl := h.ledger.trims ((trims_doWork s w).trans (trims_gate _ (.working work undone)))
  cases undone with
  | none => exact sound_of_idle hr hl rfl
  | some call =>
    have hu := (h.undoing _ call hg).work h.registered
    exact sound_of_undoing hr hl rfl { hu with }

theorem Sound.step {trim : String → String} {a : Action} (h : Sound s)
    (hs : s.step trim a = some s') : Sound s' := by
  have hr := h.registered.step h.ledger.patched hs
  cases a with
  | plan c topics aliases session =>
    obtain ⟨requested, planned, finished, nextFeed, hp⟩ := plans_of_plan hs
    exact sound_of_adding hr (hp.ledger h.ledger) (by rw [hp.state]) (hp.callOk h.ledger)
  | call a =>
    simp only [Hub.step] at hs
    split at hs
    · next call hg => exact h.callStep hg (callStep_of_stepCall hs)
    · cases hs
  | task task =>
    simp only [Hub.step] at hs
    split at hs
    · exact sound_of_idle hr (h.ledger.trims (trims_stepTask hs)) (holder_stepTask hs)
    · cases hs
  | work =>
    simp only [Hub.step] at hs
    split at hs
    · rw [← Option.some.inj hs]
      exact sound_of_idle (h.registered.gate _) (h.ledger.trims (trims_gate s _)) rfl
    · next hg =>
      rw [← Option.some.inj hs]
      exact h.work hg
    · cases hs
  | event ev => exact h.event hs

theorem sound_of_run {trim : String → String} {acts : List Action}
    (h : FreeRun (step trim) new acts s) : Sound s :=
  Run.invariant (fun _ _ _ hs _ hst => hs.step hst) h sound_new

end Hub

end Xbbg.SharedSubscriptions
