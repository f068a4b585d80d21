import Xbbg.Model.SharedSubscriptions

/-! What can happen to the hub while somebody else holds the mutation gate: feeds report, streams
close, consumers come and go. None of it touches the registry, a membership of a living consumer
or the place of an entry, and a topic ends only through its own feed or with all topics of its
consumer. -/

namespace Xbbg.SharedSubscriptions

open Function List Library Option Status

/-! ### The active topics -/

variable {gone : ℕ → Prop} {key : ℕ}

namespace Status

/-- The two maps are inverse to each other, and the list of topics is the domain of the first. -/
structure Coherent (st : Status) : Prop where
  inverse : ∀ l k, st.topicToKey l = some k ↔ st.keyToTopic k = some l
  topics : ∀ l, l ∈ st.topics ↔ ∃ k, st.topicToKey l = some k

theorem coherent_empty : empty.Coherent :=
  ⟨by simp [empty], by simp [empty]⟩

variable {st : Status}

theorem Coherent.key_unique (h : st.Coherent) {l l' : String} {k : ℕ}
    (hl : st.topicToKey l = some k) (hl' : st.topicToKey l' = some k) : l = l' := by
  have hk := (h.inverse l k).mp hl
  rw [(h.inverse l' k).mp hl'] at hk
  exact (some.inj hk).symm

theorem Coherent.addActive (h : st.Coherent) {topic : String}
    (ht : st.topicToKey topic = none) (hke : ∀ l, st.topicToKey l ≠ some key) :
    (st.addActive topic key).Coherent := by
  have hn : st.keyToTopic key = none := by
    cases hk : st.keyToTopic key with
    | none => rfl
    | some l => exact absurd ((h.inverse l key).mpr hk) (hke l)
  constructor
  · intro l k
    simp only [Status.addActive, update_apply]
    by_cases hl : l = topic <;> by_cases hk : k = key
    · simp [hl, hk]
    · have hne : st.keyToTopic k ≠ some topic := by
        intro hk'
        rw [(h.inverse topic k).mpr hk'] at ht
        cases ht
      simp [hl, hk, hne, Ne.symm hk]
    · simp [hl, hk, hke l, Ne.symm hl]
    · simpa [hl, hk] using h.inverse l k
  · intro l
    simp only [Status.addActive, mem_append, mem_singleton, update_apply, h.topics]
    by_cases hl : l = topic
    · simp [hl]
    · simp [hl]

theorem Coherent.take (h : st.Coherent) {topic : String}
    (ha : st.topicToKey topic = some key) : (st.take topic key).Coherent := by
  constructor
  · intro l k
    simp only [Status.take, update_apply]
    by_cases hl : l = topic <;> by_cases hk : k = key
    · simp [hl, hk]
    · have hne : st.keyToTopic k ≠ some topic := by
        intro hk'
        rw [(h.inverse topic k).mpr hk'] at ha
        exact hk (some.inj ha)
      simp [hl, hk, hne]
    · have hne : st.topicToKey l ≠ some key := fun hl' => hl (h.key_unique hl' ha)
      simp [hl, hk, hne]
    · simpa [hl, hk] using h.inverse l k
  · intro l
    simp only [Status.take, mem_filter, update_apply, h.topics]
    by_cases hl : l = topic
    · simp [hl]
    · simp [hl]

/-- The topics of `st` that `st'` lacks are gone for the given reason, and none is new. -/
structure Shrinks (st st' : Status) (gone : ℕ → Prop) : Prop where
  coherent : st.Coherent → st'.Coherent
  sub : ∀ l k, st'.topicToKey l = some k → st.topicToKey l = some k
  kept : st.Coherent → ∀ l k, st.topicToKey l = some k → st'.topicToKey l = some k ∨ gone k

theorem Shrinks.refl (st : Status) (gone : ℕ → Prop) : st.Shrinks st gone :=
  ⟨id, fun _ _ h => h, fun _ _ _ h => .inl h⟩

theorem Shrinks.mono {st' : Status} {gone' : ℕ → Prop} (h : st.Shrinks st' gone)
    (hi : ∀ k, gone k → gone' k) : st.Shrinks st' gone' :=
  ⟨h.coherent, h.sub, fun hc l k hl => (h.kept hc l k hl).imp_right (hi k)⟩

theorem Shrinks.trans {st' st'' : Status} (h : st.Shrinks st' gone)
    (h' : st'.Shrinks st'' gone) : st.Shrinks st'' gone where
  coherent := fun hc => h'.coherent (h.coherent hc)
  sub := fun l k hl => h.sub l k (h'.sub l k hl)
  kept := by
    intro hc l k hl
    rcases h.kept hc l k hl with hl' | hg
    · exact h'.kept (h.coherent hc) l k hl'
    · exact .inr hg

theorem shrinks_empty (st : Status) (hg : ∀ k, gone k) :
    st.Shrinks empty gone :=
  ⟨fun _ => coherent_empty, by simp [empty], fun _ _ k _ => .inr (hg k)⟩

theorem sub_take (st : Status) (tp : String) (key : ℕ) (l : String) (k : ℕ)
    (h : (st.take tp key).topicToKey l = some k) : st.topicToKey l = some k := by
  simp only [take, update_apply] at h
  split at h
  · cases h
  · exact h

theorem shrinks_finalizeKey (st : Status) (key : ℕ) :
    st.Shrinks (st.finalizeKey key) (· = key) := by
  unfold finalizeKey
  split
  · exact .refl st _
  · next topic hke =>
    refine ⟨fun hc => hc.take ((hc.inverse topic key).mpr hke), st.sub_take topic key, ?_⟩
    intro hc l k hl
    by_cases hk : k = key
    · exact .inr hk
    · have hne : l ≠ topic := by
        rintro rfl
        rw [(hc.inverse l key).mpr hke] at hl
        exact hk (some.inj hl).symm
      exact .inl (by simpa [take, update_apply, hne] using hl)

theorem shrinks_dropTopic (tp : String) :
    st.Shrinks (st.dropTopic tp) fun k => st.topicToKey tp = some k := by
  unfold dropTopic
  split
  · exact .refl st _
  · next key hk =>
    refine ⟨fun hc => hc.take hk, st.sub_take tp key, ?_⟩
    intro hc l k hl
    by_cases hne : l = tp
    · subst hne
      exact .inr (hk ▸ hl)
    · exact .inl (by simpa [take, update_apply, hne] using hl)

theorem topicToKey_dropTopic (st : Status) (tp l : String) :
    (st.dropTopic tp).topicToKey l = if l = tp then none else st.topicToKey l := by
  unfold dropTopic
  split
  · next hn =>
    split
    · next h => rw [h, hn]
    · rfl
  · simp [take, update_apply]

theorem topicToKey_dropTopics (labels : List String) (st : Status) (l : String) :
    (labels.foldl dropTopic st).topicToKey l = if l ∈ labels then none else st.topicToKey l := by
  induction labels generalizing st with
  | nil => simp
  | cons tp rest ih =>
    rw [foldl_cons, ih, topicToKey_dropTopic]
    by_cases hr : l ∈ rest <;> by_cases ht : l = tp <;> simp [hr, ht]

theorem Coherent.dropTopics (h : st.Coherent) (labels : List String) :
    (labels.foldl dropTopic st).Coherent := by
  induction labels generalizing st with
  | nil => exact h
  | cons tp rest ih => exact ih ((shrinks_dropTopic tp).coherent h)

end Status

/-! ### Calm changes -/

def ConsumerTopic.mark (topic : ConsumerTopic) : ℕ × ℕ := (topic.owner, topic.key)

/-- The same feed with the same entries, up to its lifecycle and whether they are active. -/
structure Feed.Same (feed feed' : Feed) : Prop where
  identity : feed'.identity = feed.identity
  session : feed'.session = feed.session
  marks : feed'.consumers.map (·.mark) = feed.consumers.map (·.mark)

theorem Feed.Same.refl (feed : Feed) : feed.Same feed := ⟨rfl, rfl, rfl⟩

theorem Feed.Same.trans {feed feed' feed'' : Feed} (h : feed.Same feed') (h' : feed'.Same feed'') :
    feed.Same feed'' :=
  ⟨h'.identity.trans h.identity, h'.session.trans h.session, h'.marks.trans h.marks⟩

theorem Feed.Same.symm {feed feed' : Feed} (h : feed.Same feed') : feed'.Same feed :=
  ⟨h.identity.symm, h.session.symm, h.marks.symm⟩

theorem Feed.Same.exists_topic {feed feed' : Feed} (h : feed.Same feed') {tp : ConsumerTopic}
    (ht : tp ∈ feed.consumers) :
    ∃ tp' ∈ feed'.consumers, tp'.owner = tp.owner ∧ tp'.key = tp.key := by
  have hm : tp.mark ∈ feed'.consumers.map (·.mark) :=
    h.marks ▸ mem_map_of_mem ht
  obtain ⟨tp', hme, heq⟩ := mem_map.mp hm
  exact ⟨tp', hme, congrArg Prod.fst heq, congrArg Prod.snd heq⟩

/-- A consumer keeps its memberships until it is dropped, and its topics unless they are gone. -/
structure Consumer.Follows (gone : ℕ → Prop) (consumer consumer' : Consumer) : Prop where
  nextKey : consumer'.nextKey = consumer.nextKey
  dropped : consumer.dropped = true → consumer'.dropped = true
  memberships : consumer'.memberships = consumer.memberships ∨
    consumer'.dropped = true ∧ consumer'.memberships = []
  status : consumer.status.Shrinks consumer'.status gone

theorem Consumer.Follows.refl (gone : ℕ → Prop) (consumer : Consumer) :
    consumer.Follows gone consumer :=
  ⟨rfl, id, .inl rfl, .refl _ _⟩

theorem Consumer.Follows.trans {gone' : ℕ → Prop} {x x' x'' : Consumer}
    (hi : ∀ k, gone k → gone' k) (h : x.Follows gone x') (h' : x'.Follows gone' x'') :
    x.Follows gone' x'' where
  nextKey := h'.nextKey.trans h.nextKey
  dropped := fun hx => h'.dropped (h.dropped hx)
  memberships := by
    rcases h'.memberships with heq' | hg
    · rw [heq']
      exact h.memberships.imp_right fun hx => ⟨h'.dropped hx.1, hx.2⟩
    · exact .inr hg
  status := (h.status.mono hi).trans h'.status

structure Consumer.Fresh (consumer : Consumer) : Prop where
  memberships : consumer.memberships = []
  coherent : consumer.status.Coherent
  inactive : ∀ l, consumer.status.topicToKey l = none

theorem Consumer.Fresh.follows {x x' : Consumer} (hx : x.Fresh)
    (h : x.Follows gone x') : x'.Fresh where
  memberships := by
    rcases h.memberships with heq | hg
    · rw [heq, hx.memberships]
    · exact hg.2
  coherent := h.status.coherent hx.coherent
  inactive := by
    intro l
    cases hl : x'.status.topicToKey l with
    | none => rfl
    | some k => simpa [hx.inactive l] using h.status.sub l k hl

namespace Hub

variable {s s' s'' : Hub}

/-- The topic was ended by its own feed, or with all topics of its consumer. -/
def Gone (s : Hub) (c key : ℕ) : Prop := (c, key) ∈ s.ended ∨ c ∈ s.lost

/-- What may change while somebody else holds the gate. -/
structure Calm (s s' : Hub) : Prop where
  gate : s'.gate = s.gate
  registry : s'.registry = s.registry
  liveFeeds : s'.liveFeeds = s.liveFeeds
  nextFeed : s'.nextFeed = s.nextFeed
  retired : s'.retired = s.retired
  feeds : ∀ f, (s.feeds f).Same (s'.feeds f)
  nextConsumer : s.nextConsumer ≤ s'.nextConsumer
  gone : ∀ c k, s.Gone c k → s'.Gone c k
  patched : s.patches ⊆ s.ended → s'.patches ⊆ s'.ended
  follows : ∀ c < s.nextConsumer, (s.consumers c).Follows (s'.Gone c) (s'.consumers c)
  fresh : ∀ c, s.nextConsumer ≤ c → c < s'.nextConsumer → (s'.consumers c).Fresh
  holder : ∀ c, s.gate.holder = some c → (s'.consumers c).dropped = true →
    (s.consumers c).dropped = true

theorem Calm.refl (s : Hub) : Calm s s where
  gate := rfl
  registry := rfl
  liveFeeds := rfl
  nextFeed := rfl
  retired := rfl
  feeds := fun f => .refl _
  nextConsumer := le_rfl
  gone := fun _ _ h => h
  patched := id
  follows := fun _ _ => .refl _ _
  fresh := fun c ho hn => absurd hn (by omega)
  holder := fun _ _ h => h

theorem Calm.trans (h : Calm s s') (h' : Calm s' s'') : Calm s s'' where
  gate := h'.gate.trans h.gate
  registry := h'.registry.trans h.registry
  liveFeeds := h'.liveFeeds.trans h.liveFeeds
  nextFeed := h'.nextFeed.trans h.nextFeed
  retired := h'.retired.trans h.retired
  feeds := fun f => (h.feeds f).trans (h'.feeds f)
  nextConsumer := h.nextConsumer.trans h'.nextConsumer
  gone := fun c k hg => h'.gone c k (h.gone c k hg)
  patched := fun hp => h'.patched (h.patched hp)
  follows := fun c hc =>
    .trans (h'.gone c) (h.follows c hc) (h'.follows c (hc.trans_le h.nextConsumer))
  fresh := by
    intro c ho hn
    by_cases hc : c < s'.nextConsumer
    · exact (h.fresh c ho hc).follows (h'.follows c hc)
    · exact h'.fresh c (by omega) hn
  holder := fun c hc hd => h.holder c hc (h'.holder c (h.gate ▸ hc) hd)

theorem calm_history (s : Hub) {ended patches : List (ℕ × ℕ)} {lost : List ℕ}
    {departures : List (ℕ × List Membership)} (he : s.ended ⊆ ended) (hl : s.lost ⊆ lost)
    (hp : s.patches ⊆ s.ended → patches ⊆ ended) :
    Calm s { s with
      ended := ended, patches := patches, lost := lost, departures := departures } :=
  { Calm.refl s with
    gone := fun _ _ hg => hg.imp (fun h => he h) fun h => hl h
    patched := hp
    follows := fun _ _ => .refl _ _ }

theorem calm_modifyConsumer {s : Hub} {c : ℕ} {change : Consumer → Consumer}
    (hf : (s.consumers c).Follows (s.Gone c) (change (s.consumers c)))
    (hh : s.gate.holder = some c → (change (s.consumers c)).dropped = true →
      (s.consumers c).dropped = true) :
    Calm s (s.modifyConsumer c change) :=
  { Calm.refl s with
    follows := by
      intro d _
      by_cases hd : d = c
      · subst hd
        simp only [modifyConsumer, update_self]
        exact hf
      · simpa [modifyConsumer, hd] using Consumer.Follows.refl _ _
    fresh := fun d ho hn => absurd hn (Nat.not_lt.mpr ho)
    holder := by
      intro d hd
      by_cases hdc : d = c
      · subst hdc
        simpa [modifyConsumer] using hh hd
      · simp [modifyConsumer, hdc] }

theorem calm_modifyFeed {f : ℕ} {change : Feed → Feed} (h : (s.feeds f).Same (change (s.feeds f))) :
    Calm s (s.modifyFeed f change) :=
  { Calm.refl s with
    feeds := by
      intro g
      by_cases hg : g = f
      · subst hg
        simpa [modifyFeed] using h
      · simpa [modifyFeed, hg] using Feed.Same.refl _ }

theorem calm_clearActive (s : Hub) (c : ℕ) : Calm s (s.clearActive c) := by
  have hl : Calm s { s with lost := c :: s.lost } :=
    calm_history s (fun _ h => h) (subset_cons_self _ _) id
  refine hl.trans (calm_modifyConsumer ⟨rfl, id, .inl rfl, ?_⟩ fun _ h => h)
  exact shrinks_empty _ fun _ => .inr (by simp)

theorem calm_closeStream (s : Hub) (c : ℕ) : Calm s (s.closeStream c) :=
  calm_modifyConsumer ⟨rfl, id, .inl rfl, .refl _ _⟩ fun _ h => h

/-- A failure may be published once its key has been noted as ended. -/
theorem calm_publishFailure {c : ℕ} (h : (c, key) ∈ s.ended) :
    Calm s (s.publishFailure c key) := by
  refine calm_modifyConsumer ⟨rfl, id, .inl rfl, ?_⟩ fun _ h => h
  exact (shrinks_finalizeKey _ key).mono fun k hk => .inl (hk ▸ h)

theorem calm_endKey (s : Hub) (c key : ℕ) : Calm s (s.endKey c key) :=
  calm_history s (subset_cons_self _ _) (fun _ h => h) fun hp =>
    subset_cons_of_subset _ hp

theorem calm_failTopic (s : Hub) (c key : ℕ) : Calm s (s.failTopic c key) :=
  (calm_endKey s c key).trans (calm_publishFailure (by simp [endKey]))

/-! ### Events -/

theorem calm_applyEffect (s : Hub) (tp : ConsumerTopic) (effect : Effect) :
    Calm s (s.applyEffect tp effect).1 := by
  cases effect with
  | skip => exact .refl s
  | deactivate => exact .refl s
  | failTopic => exact calm_failTopic s _ _
  | endStream => exact (calm_clearActive s _).trans (calm_closeStream _ _)
  | patch =>
    refine calm_history s (subset_cons_self _ _) (fun _ h => h) fun hp => ?_
    exact append_subset.mpr ⟨subset_cons_of_subset _ hp, by simp [endKey]⟩

theorem mark_applyEffect (s : Hub) (tp : ConsumerTopic) (effect : Effect) :
    (s.applyEffect tp effect).2.mark = tp.mark := by
  cases effect <;> rfl

theorem feeds_applyEffect (s : Hub) (tp : ConsumerTopic) (effect : Effect) :
    (s.applyEffect tp effect).1.feeds = s.feeds := by
  cases effect <;> rfl

theorem calm_visitTopics (effect : Hub → ConsumerTopic → Effect) (s : Hub)
    (topics : List ConsumerTopic) : Calm s (visitTopics effect s topics).1 := by
  induction topics generalizing s with
  | nil => exact .refl s
  | cons tp rest ih => exact (calm_applyEffect s tp _).trans (ih _)

theorem marks_visitTopics (effect : Hub → ConsumerTopic → Effect) (s : Hub)
    (topics : List ConsumerTopic) :
    (visitTopics effect s topics).2.map (·.mark) = topics.map (·.mark) := by
  induction topics generalizing s with
  | nil => rfl
  | cons tp rest ih =>
    simp only [visitTopics, map_cons, mark_applyEffect]
    rw [ih]

theorem feeds_visitTopics (effect : Hub → ConsumerTopic → Effect) (s : Hub)
    (topics : List ConsumerTopic) : (visitTopics effect s topics).1.feeds = s.feeds := by
  induction topics generalizing s with
  | nil => rfl
  | cons tp rest ih =>
    simp only [visitTopics]
    rw [ih, feeds_applyEffect]

theorem calm_visitFeed (s : Hub) (f : ℕ) (lifecycle : Feed.Lifecycle)
    (effect : Hub → ConsumerTopic → Effect) : Calm s (s.visitFeed f lifecycle effect) := by
  unfold visitFeed
  refine (calm_visitTopics effect s (s.feeds f).consumers).trans (calm_modifyFeed ?_)
  rw [feeds_visitTopics]
  exact ⟨rfl, rfl, marks_visitTopics effect s _⟩

theorem calm_onError (s : Hub) (f : ℕ) : Calm s (s.onError f) := by
  unfold onError
  split
  · exact .refl s
  · exact calm_visitFeed s f _ _

theorem calm_onDataLoss (s : Hub) (f : ℕ) : Calm s (s.onDataLoss f) := by
  unfold onDataLoss
  split
  · exact .refl s
  · exact calm_visitFeed s f _ _

theorem calm_foldl {α : Type*} {f : Hub → α → Hub} (hf : ∀ s a, Calm s (f s a)) (s : Hub)
    (l : List α) : Calm s (l.foldl f s) := by
  induction l generalizing s with
  | nil => exact .refl s
  | cons a rest ih => exact (hf s a).trans (ih _)

theorem fresh_new (service : String) (options : List String) (isolated imageDelivery : Bool) :
    (Consumer.new service options isolated imageDelivery).Fresh :=
  ⟨rfl, coherent_empty, fun _ => rfl⟩

theorem calm_newConsumer (s : Hub) {consumer : Consumer} (hf : consumer.Fresh)
    (ha : consumer.dropped = false) :
    Calm s { s with
      consumers := update s.consumers s.nextConsumer consumer
      nextConsumer := s.nextConsumer + 1 } :=
  { Calm.refl s with
    nextConsumer := Nat.le_succ _
    follows := by
      intro c hc
      simpa [update_apply, hc.ne] using Consumer.Follows.refl _ _
    fresh := by
      intro c ho hn
      obtain rfl : c = s.nextConsumer := by
        change c < s.nextConsumer + 1 at hn
        omega
      simpa using hf
    holder := by
      intro c _
      by_cases hc : c = s.nextConsumer
      · simp [hc, ha]
      · simp [hc] }

/-- Whatever happens without the gate is calm. -/
theorem calm_stepEvent {ev : Event} (hpa : s.patches ⊆ s.ended)
    (h : s.stepEvent ev = some s') : Calm s s' := by
  cases ev with
  | feed f lifecycle effect =>
    simp only [stepEvent, ite_none_right_eq_some, some.injEq] at h
    rw [← h.2]
    exact calm_visitFeed s f _ _
  | error f =>
    rw [← some.inj h]
    exact calm_onError s f
  | dataLoss f =>
    rw [← some.inj h]
    exact calm_onDataLoss s f
  | publish i =>
    obtain ⟨⟨c, key⟩, hget, rfl⟩ := map_eq_some_iff.mp h
    have he : Calm s { s with patches := s.patches.eraseIdx i } :=
      { Calm.refl s with patched := fun hp _ hq => hp (mem_of_mem_eraseIdx hq) }
    dsimp only
    split
    · exact he
    · exact he.trans (calm_publishFailure (hpa (mem_of_getElem? hget)))
  | closeStream c =>
    rw [← some.inj h]
    exact calm_closeStream s c
  | dropConsumer c =>
    simp only [stepEvent, ite_none_left_eq_some, some.injEq] at h
    obtain ⟨hg, rfl⟩ := h
    have ht : Calm s { s with departures := s.departures ++ [(c, (s.consumers c).memberships)] } :=
      calm_history s (fun _ h => h) (fun _ h => h) id
    refine ht.trans (calm_modifyConsumer ⟨rfl, fun _ => rfl, .inr ⟨rfl, rfl⟩, .refl _ _⟩ ?_)
    intro hh
    change s.gate.holder = some c at hh
    simp [hh] at hg
  | newConsumer service options isolated imageDelivery =>
    rw [← some.inj h]
    exact calm_newConsumer s (fresh_new service options isolated imageDelivery) rfl
  | shutdown =>
    rw [← some.inj h]
    have hc : Calm s ((range s.nextConsumer).foldl
        (fun s c => (s.clearActive c).closeStream c) s) :=
      calm_foldl (fun s c => (calm_clearActive s c).trans (calm_closeStream _ c)) s _
    exact { hc with }

end Hub

end Xbbg.SharedSubscriptions
