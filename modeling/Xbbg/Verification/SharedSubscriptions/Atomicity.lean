import Xbbg.Verification.SharedSubscriptions.Rollback

/-! What a call that gave up leaves of the state that it found: from planning to the end of the
rollback, whatever happens in between. -/

namespace Xbbg.SharedSubscriptions

open List Library

def Gate.caller : Gate → Option Call
  | .free => none
  | .adding call => some call
  | .working _ undone => undone

namespace Hub

variable {s s' s₀ : Hub} {c : ℕ} {labels : List String} {created : List ℕ}
variable {trim : String → String} {planned : List Planned} {call : Call}

/-! ### What was there before the call -/

/-- An entry that a call of `c` with these labels has to leave alone. -/
structure Stays (s₀ : Hub) (c : ℕ) (labels : List String) (f : ℕ) (t : ConsumerTopic) : Prop where
  mem : t ∈ (s₀.feeds f).consumers
  member : t.owner = c → ∃ m ∈ (s₀.consumers c).memberships, m.key = t.key ∧ m.label ∉ labels

/-- What the state still has of the state `s₀` in which a call of `c` began. -/
structure Since (s₀ : Hub) (c : ℕ) (labels : List String) (created : List ℕ) (s : Hub) :
    Prop where
  nextConsumer : s₀.nextConsumer ≤ s.nextConsumer
  nextFeed : s₀.nextFeed ≤ s.nextFeed
  active : ∀ d < s₀.nextConsumer, ∀ l k, (s₀.consumers d).status.topicToKey l = some k →
    (d = c → l ∉ labels) → (s.consumers d).status.topicToKey l = some k ∨ s.Gone d k
  members : ∀ d < s₀.nextConsumer, (s.consumers d).dropped = false →
    ∀ m ∈ (s₀.consumers d).memberships, (d = c → m.label ∉ labels) → m ∈ (s.consumers d).memberships
  entries : ∀ f t, Stays s₀ c labels f t → (s.consumers t.owner).dropped = false →
    ∃ t' ∈ (s.feeds f).consumers, t'.owner = t.owner ∧ t'.key = t.key
  registered : ∀ id f t, s₀.registry.lookup id = some f → (s₀.feeds f).isDead = false →
    Stays s₀ c labels f t → (s.consumers t.owner).dropped = false → s.registry.lookup id = some f
  origin : ∀ id f, s.registry.lookup id = some f → s₀.registry.lookup id = some f ∨ f ∈ created

theorem Since.calm (h : Since s₀ c labels created s) (h₀ : Ledger s₀) (hs : Ledger s)
    (hc : Calm s s') : Since s₀ c labels created s' := by
  have hlt : ∀ d < s₀.nextConsumer, d < s.nextConsumer := fun d hd => hd.trans_le h.nextConsumer
  -- who lives now was alive before
  have ha : ∀ d < s₀.nextConsumer, (s'.consumers d).dropped = false →
      (s.consumers d).dropped = false := by
    intro d hd hdr
    by_contra hold
    have := (hc.follows d (hlt d hd)).dropped (by simpa using hold)
    simp [hdr] at this
  refine ⟨h.nextConsumer.trans hc.nextConsumer, hc.nextFeed.symm ▸ h.nextFeed, ?_, ?_, ?_, ?_, ?_⟩
  · intro d hd l k hl hne
    rcases h.active d hd l k hl hne with hke | hg
    · exact (hc.follows d (hlt d hd)).status.kept (hs.coherent d (hlt d hd)) l k hke
    · exact .inr (hc.gone d k hg)
  · intro d hd hdr m hm hne
    rcases (hc.follows d (hlt d hd)).memberships with heq | ⟨hg, -⟩
    · rw [heq]
      exact h.members d hd (ha d hd hdr) m hm hne
    · simp [hdr] at hg
  · intro f t hst hdr
    have hd := (h₀.topic_lt f t hst.mem).1
    obtain ⟨t', ht', ho, hk⟩ := h.entries f t hst (ha _ hd hdr)
    obtain ⟨t'', ht'', ho', hk'⟩ := (hc.feeds f).exists_topic ht'
    exact ⟨t'', ht'', ho'.trans ho, hk'.trans hk⟩
  · intro id f t hlo hde hst hdr
    rw [hc.registry]
    exact h.registered id f t hlo hde hst (ha _ (h₀.topic_lt f t hst.mem).1 hdr)
  · rw [hc.registry]
    exact h.origin

/-! ### From planning on -/

theorem lookup_foldl_retire (h : Registered s) (finished : List ℕ) (id : FeedKey) (g : ℕ) :
    (finished.foldl retire s).registry.lookup id = some g ↔
      s.registry.lookup id = some g ∧ g ∉ finished := by
  induction finished generalizing s with
  | nil => simp
  | cons f rest ih =>
    rw [foldl_cons, ih (h.retire f), lookup_retire h]
    simp only [mem_cons, not_or]
    tauto

theorem same_foldl_retire (s : Hub) (finished : List ℕ) (f : ℕ) :
    (s.feeds f).Same ((finished.foldl retire s).feeds f) := by
  induction finished generalizing s with
  | nil => exact .refl _
  | cons g rest ih => exact (same_retire s g f).trans (ih _)

theorem Plans.since {topics : List String} {aliases req : List (String × String)}
    {ses : Option ℕ} {finished : List ℕ} {nextFeed : ℕ}
    (h : Plans trim s c topics aliases ses req planned finished nextFeed s')
    (hr : Registered s) : Since s c (planned.map (·.label)) [] s' := by
  have hn : Registered { s with nextFeed := nextFeed } :=
    hr.same { SameRegistry.refl s with nextFeed := h.next_le }
  have hlo : ∀ id g, s'.registry.lookup id = some g ↔
      s.registry.lookup id = some g ∧ g ∉ finished := by
    intro id g
    rw [h.state]
    exact lookup_foldl_retire hn finished id g
  refine ⟨h.nextConsumer.ge, ?_, ?_, ?_, ?_, ?_, ?_⟩
  · rw [h.state]
    exact h.trims.nextFeed
  · intro d _ l k hl hne
    left
    rw [h.consumers, Function.update_apply]
    split
    · next heq =>
      subst heq
      rw [reserve, Status.topicToKey_reserve_of_notMem _ (hne rfl)]
      exact hl
    · exact hl
  · intro d _ _ m hm _
    rw [h.consumers, Function.update_apply]
    split
    · next heq => exact heq ▸ hm
    · exact hm
  · intro f t hs _
    rw [h.feeds]
    exact (same_foldl_retire { s with nextFeed := nextFeed } finished f).exists_topic hs.mem
  · intro id f t ho hd _ _
    refine (hlo id f).mpr ⟨ho, fun hme => ?_⟩
    simp [h.dead f hme] at hd
  · exact fun id f hf => .inl ((hlo id f).mp hf).1

theorem gone_retire (s : Hub) (f d k : ℕ) : (s.retire f).Gone d k ↔ s.Gone d k := by
  simp only [retire]
  split <;> rfl

theorem gone_detach (s : Hub) (c : ℕ) (m : Membership) (d k : ℕ) :
    (s.detach c m).Gone d k ↔ s.Gone d k := by
  simp only [detach]
  split
  · rw [gone_retire]
    rfl
  · rfl

section

variable (h : Since s₀ c labels created s)
include h

theorem Since.gate (gate : Gate) : Since s₀ c labels created { s with gate := gate } :=
  { h with }

theorem Since.create (h₀ : Ledger s₀) {id : FeedKey} (ses : ℕ) (hn : s.registry.lookup id = none) :
    Since s₀ c labels (s.nextFeed :: created) (s.createFeed id ses) := by
  refine ⟨h.nextConsumer, h.nextFeed.trans (Nat.le_succ _), h.active, h.members, ?_, ?_, ?_⟩
  · intro f t hs hd
    -- a feed that had an entry is not the new one
    have hne : f ≠ s.nextFeed := by
      rintro rfl
      have hm := hs.mem
      rw [h₀.unborn _ h.nextFeed] at hm
      cases hm
    simpa [createFeed, hne] using h.entries f t hs hd
  · intro id' f t hl hde hs hd
    have hk := h.registered id' f t hl hde hs hd
    have hne : id' ≠ id := by
      rintro rfl
      rw [hn] at hk
      cases hk
    simp only [createFeed, Map.lookup_insert_if, if_neg hne]
    exact hk
  · intro id' f hf
    simp only [createFeed, Map.lookup_insert_if] at hf
    split at hf
    · exact .inr (by simp [Option.some.inj hf])
    · exact (h.origin id' f hf).imp_right (mem_cons_of_mem _)

/-- A change of one consumer that keeps its topics and memberships behind other labels. -/
theorem Since.modify {e : ℕ} {f : Consumer → Consumer}
    (hd : (f (s.consumers e)).dropped = (s.consumers e).dropped)
    (ht : ∀ l, (e = c → l ∉ labels) →
      (f (s.consumers e)).status.topicToKey l = (s.consumers e).status.topicToKey l)
    (hm : ∀ m ∈ (s.consumers e).memberships, (e = c → m.label ∉ labels) →
      m ∈ (f (s.consumers e)).memberships) : Since s₀ c labels created (s.modifyConsumer e f) := by
  have hdr : ∀ d, ((s.modifyConsumer e f).consumers d).dropped = (s.consumers d).dropped := by
    intro d
    by_cases hde : d = e
    · subst hde
      simpa [modifyConsumer] using hd
    · simp [modifyConsumer, hde]
  refine ⟨h.nextConsumer, h.nextFeed, ?_, ?_, ?_, ?_, h.origin⟩
  · intro d hlt l k hl hne
    refine (h.active d hlt l k hl hne).imp_left fun hk => ?_
    by_cases hde : d = e
    · subst hde
      simpa [modifyConsumer, ht l hne] using hk
    · simpa [modifyConsumer, hde] using hk
  · intro d hlt hdd m hmd hne
    rw [hdr d] at hdd
    have hmo := h.members d hlt hdd m hmd hne
    by_cases hde : d = e
    · subst hde
      simpa [modifyConsumer] using hm m hmo hne
    · simpa [modifyConsumer, hde] using hmo
  · intro g t hs
    rw [hdr]
    exact h.entries g t hs
  · intro id g t
    rw [hdr]
    exact h.registered id g t

theorem Since.join (p : Planned) (f : ℕ) (fresh : Bool) :
    Since s₀ c labels created (s.join call p f fresh) := by
  apply Since.gate
  apply h.modify
  · rfl
  · exact fun _ _ => rfl
  · exact fun _ hm _ => mem_append_left _ hm

theorem Since.enter (f : ℕ) (tp : ConsumerTopic) :
    Since s₀ c labels created
      (s.modifyFeed f fun feed => { feed with consumers := feed.consumers ++ [tp] }) := by
  refine ⟨h.nextConsumer, h.nextFeed, h.active, h.members, ?_, h.registered, h.origin⟩
  intro g t hs hd
  obtain ⟨t', ht', hf⟩ := h.entries g t hs hd
  refine ⟨t', ?_, hf⟩
  by_cases hg : g = f
  · subst hg
    simp [modifyFeed, ht']
  · simpa [modifyFeed, hg] using ht'

theorem Since.detach {m : Membership} (hr : Registered s) (hc : c < s₀.nextConsumer)
    (hot : ∀ m' ∈ (s.consumers c).memberships, m'.key ≠ m.key) :
    Since s₀ c labels created (s.detach c m) := by
  have he : ∀ f t, Stays s₀ c labels f t → (s.consumers t.owner).dropped = false →
      ∃ t' ∈ ((s.detach c m).feeds f).consumers, t'.owner = t.owner ∧ t'.key = t.key := by
    intro f t hs hdr
    obtain ⟨t', ht', ho, hk⟩ := h.entries f t hs hdr
    have hne : t'.owner = c → t'.key ≠ m.key := by
      intro heq
      -- the entry has a membership of its own, which is not the one to be detached
      obtain ⟨m', hm', hm, hla⟩ := hs.member (ho ▸ heq)
      have ha : (s.consumers c).dropped = false := by rwa [← heq, ho]
      rw [hk, ← hm]
      exact hot m' (h.members c hc ha m' hm' fun _ => hla)
    obtain ⟨t'', ht'', ho', hk'⟩ := exists_topic_detach ht' (ho ▸ hdr) hne
    exact ⟨t'', ht'', ho'.trans ho, hk'.trans hk⟩
  refine ⟨?_, h.nextFeed.trans (trims_detach s c m).nextFeed, ?_, ?_, ?_, ?_, ?_⟩
  · rw [nextConsumer_detach]
    exact h.nextConsumer
  · intro d hd l k hl hne
    rw [consumers_detach]
    exact (h.active d hd l k hl hne).imp_right fun hg => (gone_detach s c m d k).mpr hg
  · rw [consumers_detach]
    exact h.members
  · rw [consumers_detach]
    exact he
  · rw [consumers_detach]
    intro id f t hlo hde hs hdr
    refine (lookup_detach hr c m id f).mpr ⟨h.registered id f t hlo hde hs hdr, ?_⟩
    rintro rfl hn
    obtain ⟨t', ht', -⟩ := he m.feed t hs hdr
    obtain ⟨t'', ht'', -⟩ := (same_detach s c m m.feed).symm.exists_topic ht'
    simp [hn] at ht''
  · exact fun id f hf => h.origin id f ((lookup_detach hr c m id f).mp hf).1

theorem Since.dropTopics : Since s₀ c labels created (s.doWork (.dropTopics c labels)) := by
  rw [doWork]
  apply h.modify
  · rfl
  · exact fun l hne => (Status.topicToKey_dropTopics ..).trans (if_neg (hne rfl))
  · exact fun _ hm _ => hm

end

theorem Since.rollback (h : Since s₀ call.consumer call.labels created s) :
    Since s₀ call.consumer call.labels created (s.rollback call) := by
  apply Since.gate
  apply h.modify
  · rfl
  · exact fun _ _ => rfl
  · exact fun m hm hne => mem_filter.mpr ⟨hm, by simpa using hne⟩

/-! ### Until the end of the rollback -/

def Held (s : Hub) (_ : Action) : Prop := s.gate ≠ .free

instance (s : Hub) (a : Action) : Decidable (Held s a) :=
  inferInstanceAs (Decidable (s.gate ≠ .free))

/-- The gate is with a call of `c` for these topics that began in `s₀`. -/
structure InCall (s₀ : Hub) (c : ℕ) (planned : List Planned) (s : Hub) (call : Call) : Prop where
  caller : s.gate.caller = some call
  consumer : call.consumer = c
  topics : call.planned = planned
  since : Since s₀ c (planned.map (·.label)) call.created s

theorem InCall.callStep (h : InCall s₀ c planned s call) (h₀ : Ledger s₀) (hs : Ledger s)
    (hst : CallStep s call s') : s'.gate = .free ∨ ∃ call', InCall s₀ c planned s' call' := by
  obtain ⟨-, rfl, rfl, h⟩ := h
  cases hst with
  | commit => exact .inl rfl
  | subscribe hp | found hp hr hl | settle hp creations =>
    exact .inr ⟨_, rfl, rfl, rfl, h.gate _⟩
  | create ses hp hr hl =>
    exact .inr ⟨_, rfl, rfl, rfl, (h.create h₀ ses hl).gate _⟩
  | join hp => exact .inr ⟨_, rfl, rfl, rfl, h.join _ _ _⟩
  | enter allowed growth hp hc =>
    exact .inr ⟨_, rfl, rfl, rfl, ((h.calm h₀ hs hc).enter _ _).gate _⟩
  | undo hp hc => exact .inr ⟨call, rfl, rfl, rfl, (h.calm h₀ hs hc).rollback⟩

theorem InCall.work {w : Work} {work : List Work} (h : InCall s₀ c planned s call)
    (hc : c < s₀.nextConsumer) (hs : Sound s) (hg : s.gate = .working (w :: work) (some call)) :
    InCall s₀ c planned { s.doWork w with gate := .working work (some call) } call := by
  obtain ⟨-, rfl, rfl, h⟩ := h
  refine ⟨rfl, rfl, rfl, .gate ?_ _⟩
  rcases (hs.undoing _ call hg).pieces w (by simp) with rfl | ⟨m, rfl, ho⟩
  · exact h.dropTopics
  · exact h.detach hs.registered hc ho

theorem InCall.step {a : Action} (h : InCall s₀ c planned s call) (h₀ : Ledger s₀)
    (hc : c < s₀.nextConsumer) (hs : Sound s) (hh : Held s a) (hst : s.step trim a = some s') :
    s'.gate = .free ∨ ∃ call', InCall s₀ c planned s' call' := by
  cases a with
  | plan d topics aliases ses =>
    obtain ⟨req, planned', finished, nextFeed, hp⟩ := plans_of_plan hst
    exact absurd hp.free hh
  | call a =>
    simp only [Hub.step] at hst
    split at hst
    · next call' hg =>
      have hca := h.caller
      rw [hg] at hca
      cases hca
      exact h.callStep h₀ hs.ledger (callStep_of_stepCall hst)
    · cases hst
  | task task =>
    simp only [Hub.step] at hst
    split at hst
    · next hg => exact absurd hg hh
    · cases hst
  | work =>
    simp only [Hub.step] at hst
    split at hst
    · exact .inl (by rw [← Option.some.inj hst])
    · next w work undone hg =>
      have hca := h.caller
      rw [hg] at hca
      obtain rfl : undone = some call := hca
      rw [← Option.some.inj hst]
      exact .inr ⟨call, h.work hc hs hg⟩
    · cases hst
  | event ev =>
    have hcl := calm_stepEvent hs.ledger.patched hst
    exact .inr ⟨call, hcl.gate ▸ h.caller, h.consumer, h.topics, h.since.calm h₀ hs.ledger hcl⟩

/-- From planning on, the gate is with the call until it is free. -/
theorem inCall_of_run {acts : List Action} (h₀ : Ledger s₀) (hc : c < s₀.nextConsumer)
    (hs : Sound s) (h : InCall s₀ c planned s call) (hru : Run (step trim) Held s acts s') :
    Sound s' ∧ (s'.gate = .free ∨ ∃ call', InCall s₀ c planned s' call') := by
  induction hru generalizing call with
  | nil => exact ⟨hs, .inr ⟨call, h⟩⟩
  | cons hh hst hr ih =>
    rcases h.step h₀ hc hs hh hst with hf | ⟨call', h'⟩
    · -- nobody holds the gate any more, so the run ends here
      cases hr with
      | nil => exact ⟨hs.step hst, .inl hf⟩
      | cons hh' _ _ => exact absurd hf hh'
    · exact ih (hs.step hst) h'

/-! ### Results -/

/-- What the end `s` of a rollback shows of the state `s₀` in which its call began: nothing is
left of the call, and every topic that neither its own feed nor the end of its consumer's stream
has ended keeps its key, its membership, its entry and its feed. -/
structure RolledBack (s₀ s : Hub) (call : Call) : Prop where
  inactive : ∀ l ∈ call.labels, (s.consumers call.consumer).status.topicToKey l = none ∧
    l ∉ (s.consumers call.consumer).status.topics
  membership : ∀ m ∈ (s.consumers call.consumer).memberships, m.label ∉ call.labels
  entry : ∀ id f, s.registry.lookup id = some f → ∀ t ∈ (s.feeds f).consumers,
    t.owner = call.consumer → t.key ∉ call.keys
  feed : ∀ id f, s.registry.lookup id = some f → s₀.registry.lookup id = some f
  kept : ∀ d < s₀.nextConsumer, (s.consumers d).dropped = false →
    ∀ l k, (s₀.consumers d).status.topicToKey l = some k → ¬ s.Gone d k →
      (s.consumers d).status.topicToKey l = some k ∧
      ∀ m ∈ (s₀.consumers d).memberships, m.label = l → m.key = k →
        m ∈ (s.consumers d).memberships ∧
        ∀ t ∈ (s₀.feeds m.feed).consumers, t.owner = d → t.key = k →
          (∃ t' ∈ (s.feeds m.feed).consumers, t'.owner = d ∧ t'.key = k) ∧
          ∀ id, s₀.registry.lookup id = some m.feed → (s₀.feeds m.feed).isDead = false →
            s.registry.lookup id = some m.feed

theorem rolledBack_of_undo (hs : Sound s) (hg : s.gate = .working [] (some call))
    (h : Since s₀ call.consumer call.labels call.created s)
    (hi : ∀ l ∈ call.labels, (s₀.consumers call.consumer).status.topicToKey l = none) :
    RolledBack s₀ s call := by
  have hu := hs.undoing [] call hg
  have hn := hu.inactive.resolve_left not_mem_nil
  refine ⟨?_, hu.members, ?_, ?_, ?_⟩
  · intro l hl
    refine ⟨hn l hl, ?_⟩
    rw [(hs.ledger.coherent _ hu.allocated).topics, hn l hl]
    simp
  · intro id f _ t ht ho hk
    obtain ⟨m, hm, -⟩ := hu.listed f t ht ho hk
    cases hm
  · intro id f hf
    refine (h.origin id f hf).resolve_right fun hc => ?_
    obtain ⟨m, hm, -⟩ := hu.anchored f hc ⟨id, hf⟩
    cases hm
  · intro d hd ha l k hl hgo
    have hot : d = call.consumer → l ∉ call.labels := by
      rintro rfl hme
      rw [hi l hme] at hl
      cases hl
    refine ⟨(h.active d hd l k hl hot).resolve_right hgo, ?_⟩
    rintro m hm rfl rfl
    refine ⟨h.members d hd ha m hm hot, ?_⟩
    rintro t ht rfl hk
    have hst : Stays s₀ call.consumer call.labels m.feed t := by
      refine ⟨ht, fun ho => ⟨m, ?_, hk.symm, hot ho⟩⟩
      rw [← ho]
      exact hm
    refine ⟨?_, fun id hlo hde => h.registered id m.feed t hlo hde hst ha⟩
    obtain ⟨t', ht', ho, hk'⟩ := h.entries m.feed t hst ha
    exact ⟨t', ht', ho, hk'.trans hk⟩

/-- The work of a rollback can always go on, and there is only so much of it. -/
theorem rollback_ends (trim : String → String) {work : List Work} {undone : Option Call}
    (h : s.gate = .working work undone) :
    ∃ s', Run (step trim) Held s (replicate work.length .work) s' ∧
      s'.gate = .working [] undone := by
  induction work generalizing s with
  | nil => exact ⟨s, .nil s, h⟩
  | cons w work ih =>
    have hs : s.step trim .work = some { s.doWork w with gate := .working work undone } := by
      simp [step, h]
    obtain ⟨s', hr, hg⟩ := ih (s := { s.doWork w with gate := .working work undone }) rfl
    exact ⟨s', .cons (by simp [Held, h]) hs hr, hg⟩

/-- A call of consumer 1 for `topics`, up to the wait for its created feeds. -/
def addAction (topics : List String) : Action := .plan 1 topics [] (some 7)

def attachNew : List Action :=
  [.call .lookup, .call .join, .call (.enter true false), .call .settle]

/-- Consumer 1 takes rows of `A` and `B`, each with a feed of its own. -/
def twoTopics : List Action :=
  [.event (.newConsumer mktdata [] false false), addAction ["A", "B"]] ++ attachNew ++ attachNew ++
    [.call .lookup, .call .subscribed]

/-- While a third topic is being subscribed, the second one's feed loses an update, and the call
is dropped. -/
def lossAndCancel : List Action :=
  attachNew ++ [.call .lookup, .event (.dataLoss 2), .call .cancel, .work, .work]

/-- The feed of `A` reports nothing and goes on, but after the rollback `A` is not active: the
lost update of `B` has ended the whole stream of rows. -/
theorem rollback_after_data_loss : ∃ s₀ s₁ s call,
    FreeRun (step id) new twoTopics s₀ ∧ s₀.step id (addAction ["C"]) = some s₁ ∧
    Run (step id) Held s₁ lossAndCancel s ∧ s.gate = .working [] (some call) ∧
    (s₀.consumers 1).status.topicToKey "A" = some 0 ∧
    (∃ m ∈ (s₀.consumers 1).memberships, m.label = "A" ∧ m.key = 0 ∧
      (s.feeds m.feed).lifecycle = .pending ∧ (1, 0) ∉ s.ended) ∧
    (s.consumers 1).status.topicToKey "A" = none := by
  have hrun : ((runActions (step id) new twoTopics).bind fun s₀ =>
      (s₀.step id (addAction ["C"])).bind fun s₁ =>
        (runActions (fun u a => if Held u a then u.step id a else none) s₁ lossAndCancel).map
          fun s => (s.gate.caller.isSome && (s.gate == .working [] s.gate.caller) &&
            (s₀.consumers 1).status.topicToKey "A" == some 0 &&
            (s₀.consumers 1).memberships.any (fun m => m.label == "A" && m.key == 0 &&
              (s.feeds m.feed).lifecycle == .pending && !s.ended.contains (1, 0)) &&
            (s.consumers 1).status.topicToKey "A" == none)) = some true := by
    decide +kernel
  obtain ⟨s₀, hfront, hrun⟩ := Option.bind_eq_some_iff.mp hrun
  obtain ⟨s₁, hplan, hrun⟩ := Option.bind_eq_some_iff.mp hrun
  obtain ⟨s, hback, hend⟩ := Option.map_eq_some_iff.mp hrun
  simp only [Bool.and_eq_true, beq_iff_eq, any_eq_true, Bool.not_eq_true',
    contains_eq_mem, decide_eq_false_iff_not] at hend
  obtain ⟨⟨⟨⟨hcaller, hgate⟩, hactive⟩, m, hm, hmember⟩, hnone⟩ := hend
  obtain ⟨call, hcall⟩ := Option.isSome_iff_exists.mp hcaller
  exact ⟨s₀, s₁, s, call, .of_runActions hfront, hplan, .of_checkedActions hback,
    hcall ▸ hgate, hactive, ⟨m, hm, hmember.1.1.1, hmember.1.1.2, hmember.1.2, hmember.2⟩, hnone⟩

/-- A call that adds topics is all or nothing, and the sessions' counters are right throughout. -/
theorem addValidated_all_or_nothing (trim : String → String) :
    (∀ front s, FreeRun (step trim) new front s → (∀ session, s.liveFeeds session =
        Map.tally (fun f => (s.feeds f).session) s.registry session) ∧ s.retired.Nodup) ∧
    (∀ s work call, s.gate = .working work (some call) →
      ∃ s', Run (step trim) Held s (List.replicate work.length .work) s' ∧
        s'.gate = .working [] (some call)) ∧
    ∀ front c topics aliases session s₀ s₁ back s call, FreeRun (step trim) new front s₀ →
      s₀.step trim (.plan c topics aliases session) = some s₁ →
      Run (step trim) Held s₁ back s → s.gate = .working [] (some call) →
      call.consumer = c ∧ RolledBack s₀ s call ∧
        ∃ requested, validateTopicAliases trim topics aliases = .ok requested ∧
          call.labels = (requested.filter fun r =>
            ((s₀.consumers c).status.topicToKey r.2).isNone).map (·.2) := by
  refine ⟨?_, fun s work call h => rollback_ends trim h, ?_⟩
  · intro front s hrun
    have hregistered := (sound_of_run hrun).registered
    exact ⟨hregistered.live, hregistered.once⟩
  · intro front c topics aliases session s₀ s₁ back s call hfront hplan hrun hgate
    have h₀ := sound_of_run hfront
    obtain ⟨requested, planned, finished, nextFeed, hplans⟩ := plans_of_plan hplan
    have hcaller : s₁.gate.caller = some ⟨c, planned, session, planned, .lookup, [], []⟩ := by
      rw [hplans.state]
      rfl
    have hin : InCall s₀ c planned s₁ ⟨c, planned, session, planned, .lookup, [], []⟩ :=
      ⟨hcaller, rfl, rfl, hplans.since h₀.registered⟩
    obtain ⟨hs, hend⟩ :=
      inCall_of_run h₀.ledger hplans.allocated (h₀.step hplan) hin hrun
    obtain ⟨call', h⟩ := hend.resolve_left (by simp [hgate])
    have hcall := h.caller
    rw [hgate] at hcall
    cases hcall
    obtain ⟨-, rfl, rfl, hsince⟩ := h
    refine ⟨rfl, rolledBack_of_undo hs hgate hsince ?_, requested, hplans.valid, hplans.labels⟩
    intro l hl
    obtain ⟨p, hp, rfl⟩ := mem_map.mp hl
    exact hplans.inactive hp

/-- The upstream subscription of a third topic fails while the second one's feed ends: the first
topic keeps everything. -/
def failedSubscription : List Action :=
  attachNew ++ [.call .lookup, .event (.error 2), .call .subscribeFailed, .work, .work]

theorem addValidated_all_or_nothing_third : ∃ s₀ s₁ s call,
    FreeRun (step id) new twoTopics s₀ ∧ s₀.step id (addAction ["A", "C"]) = some s₁ ∧
    Run (step id) Held s₁ failedSubscription s ∧ s.gate = .working [] (some call) ∧
    call.labels = ["C"] ∧ RolledBack s₀ s call ∧ ¬ s.Gone 1 0 ∧
    (s.consumers 1).status.topicToKey "A" = some 0 := by
  have hrun : ((runActions (step id) new twoTopics).bind fun s₀ =>
      (s₀.step id (addAction ["A", "C"])).bind fun s₁ =>
        (runActions (fun u a => if Held u a then u.step id a else none) s₁ failedSubscription).map
          fun s => (s.gate.caller.isSome && (s.gate == .working [] s.gate.caller) &&
            s.gate.caller.all (fun call => call.labels == ["C"]) &&
            !s.ended.contains (1, 0) && !s.lost.contains 1 &&
            (s.consumers 1).status.topicToKey "A" == some 0)) = some true := by
    decide +kernel
  obtain ⟨s₀, hfront, hrun⟩ := Option.bind_eq_some_iff.mp hrun
  obtain ⟨s₁, hplan, hrun⟩ := Option.bind_eq_some_iff.mp hrun
  obtain ⟨s, hback, hend⟩ := Option.map_eq_some_iff.mp hrun
  simp only [Bool.and_eq_true, beq_iff_eq, Bool.not_eq_true', contains_eq_mem,
    decide_eq_false_iff_not] at hend
  obtain ⟨⟨⟨⟨⟨hcaller, hgate⟩, hlabels⟩, hended⟩, hlost⟩, hactive⟩ := hend
  obtain ⟨call, hcall⟩ := Option.isSome_iff_exists.mp hcaller
  rw [hcall] at hgate hlabels
  have hend := (addValidated_all_or_nothing id).2.2 twoTopics 1 ["A", "C"] [] (some 7) s₀ s₁
    failedSubscription s call (.of_runActions hfront) hplan (.of_checkedActions hback) hgate
  exact ⟨s₀, s₁, s, call, .of_runActions hfront, hplan, .of_checkedActions hback, hgate,
    by simpa using hlabels, hend.2.1, fun hgone => hgone.elim hended hlost, hactive⟩

/-- A feed in the registry bears its key, was never retired and keeps its session in use; entries
of feeds belong to consumers, and a consumer's active labels and keys to one another. -/
theorem registry_of_run {acts : List Action} (h : FreeRun (step trim) new acts s) :
    (∀ id f, s.registry.lookup id = some f → (s.feeds f).identity = id ∧ f ∉ s.retired ∧
      0 < s.liveFeeds (s.feeds f).session) ∧
    (∀ f, ∀ topic ∈ (s.feeds f).consumers,
      topic.owner < s.nextConsumer ∧ topic.key < (s.consumers topic.owner).nextKey) ∧
    ∀ c < s.nextConsumer, (s.consumers c).status.Coherent ∧
      ((s.consumers c).memberships.map (·.key)).Nodup := by
  obtain ⟨hregistered, hledger, -, -⟩ := sound_of_run h
  refine ⟨fun id f hf => ⟨hregistered.identity id f hf, ?_, ?_⟩, hledger.topic_lt,
    fun c hc => ⟨hledger.coherent c hc, hledger.member_nodup c hc⟩⟩
  · exact fun hretired => hregistered.retired_out f hretired id hf
  · rw [hregistered.live, Map.tally_erase _ _ hf, if_pos rfl]
    exact Nat.succ_pos _

theorem registry_of_run_two : ∃ s, FreeRun (step id) new twoTopics s ∧
    s.registry.lookup ⟨mktdata, "B", [], 0⟩ = some 2 ∧ (s.feeds 2).identity.topic = "B" := by
  exact Run.exists_imp (fun _ hrun hend =>
      ⟨hend, congrArg FeedKey.topic ((registry_of_run hrun).1 _ _ hend).1⟩)
    ⟨_, FreeRun.of_runActions rfl, rfl⟩

end Hub

end Xbbg.SharedSubscriptions
