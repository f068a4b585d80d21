import Xbbg.Verification.SharedSubscriptions.Events

/-! The registry and the counters of its sessions: in every reachable state a session's
`live_feeds` is the number of the registry's feeds on it, and no feed retires twice. -/

namespace Xbbg.SharedSubscriptions.Hub

open Function List Library Option

variable {s s' s'' : Hub}

/-! ### Changes that leave the registry alone -/

structure SameRegistry (s s' : Hub) : Prop where
  registry : s'.registry = s.registry
  liveFeeds : s'.liveFeeds = s.liveFeeds
  retired : s'.retired = s.retired
  nextFeed : s.nextFeed ≤ s'.nextFeed
  identity : ∀ f, (s'.feeds f).identity = (s.feeds f).identity
  session : ∀ f, (s'.feeds f).session = (s.feeds f).session

theorem SameRegistry.refl (s : Hub) : SameRegistry s s :=
  ⟨rfl, rfl, rfl, le_rfl, fun _ => rfl, fun _ => rfl⟩

theorem Calm.sameRegistry (h : Calm s s') : SameRegistry s s' :=
  ⟨h.registry, h.liveFeeds, h.retired, h.nextFeed.ge, fun f => (h.feeds f).identity,
    fun f => (h.feeds f).session⟩

theorem sameRegistry_consumers (s : Hub) (f : ℕ) (topics : List ConsumerTopic) :
    SameRegistry s (s.modifyFeed f fun feed => { feed with consumers := topics }) := by
  refine ⟨rfl, rfl, rfl, le_rfl, ?_, ?_⟩ <;>
  · intro g
    by_cases hg : g = f
    · subst hg
      simp [modifyFeed]
    · simp [modifyFeed, hg]

/-! ### The invariant -/

/-- The registry holds numbered feeds under their identities, a session's counter counts them,
and what has retired is out of it for good. -/
structure Registered (s : Hub) : Prop where
  identity : ∀ id f, s.registry.lookup id = some f → (s.feeds f).identity = id
  below : ∀ id f, s.registry.lookup id = some f → f < s.nextFeed
  live : ∀ session,
    s.liveFeeds session = Map.tally (fun f => (s.feeds f).session) s.registry session
  retired_below : ∀ f ∈ s.retired, f < s.nextFeed
  retired_out : ∀ f ∈ s.retired, ∀ id, s.registry.lookup id ≠ some f
  once : s.retired.Nodup

theorem registered_new : Registered new where
  identity := fun id f h => by simp [new] at h
  below := fun id f h => by simp [new] at h
  live := fun _ => rfl
  retired_below := fun _ h => by simp [new] at h
  retired_out := fun _ h => by simp [new] at h
  once := nodup_nil

theorem Registered.same (h : Registered s) (hs : SameRegistry s s') : Registered s' where
  identity := by
    intro id f hf
    rw [hs.identity]
    exact h.identity id f (hs.registry ▸ hf)
  below := fun id f hf => (h.below id f (hs.registry ▸ hf)).trans_le hs.nextFeed
  live := by
    intro ses
    rw [hs.liveFeeds, hs.registry, h.live]
    exact Map.tally_congr fun e _ => (hs.session _).symm
  retired_below := fun f hf => (h.retired_below f (hs.retired ▸ hf)).trans_le hs.nextFeed
  retired_out := fun f hf id => hs.registry ▸ h.retired_out f (hs.retired ▸ hf) id
  once := hs.retired ▸ h.once

theorem lookup_of_entry {m : Map FeedKey ℕ} {e : Sigma fun _ : FeedKey => ℕ}
    (h : e ∈ m.entries) : m.lookup e.1 = some e.2 :=
  AList.mem_lookup_iff.mpr h

/-! ### Retirement -/

theorem retire_eq_self {f : ℕ} (h : s.registry.lookup (s.feeds f).identity ≠ some f) :
    s.retire f = s := by
  simp [retire, h]

section

variable {f : ℕ} (h : s.registry.lookup (s.feeds f).identity = some f)
include h

theorem registry_retire : (s.retire f).registry = s.registry.erase (s.feeds f).identity := by
  simp [retire, h]

theorem liveFeeds_retire : (s.retire f).liveFeeds =
    update s.liveFeeds (s.feeds f).session (s.liveFeeds (s.feeds f).session - 1) := by
  simp [retire, h]

theorem retired_retire : (s.retire f).retired = f :: s.retired := by
  simp [retire, h]

end

@[simp] theorem nextFeed_retire (s : Hub) (f : ℕ) : (s.retire f).nextFeed = s.nextFeed := by
  simp only [retire]
  split <;> rfl

@[simp] theorem consumers_retire (s : Hub) (f : ℕ) : (s.retire f).consumers = s.consumers := by
  simp only [retire]
  split <;> rfl

theorem same_retire (s : Hub) (f g : ℕ) : (s.feeds g).Same ((s.retire f).feeds g) := by
  simp only [retire]
  split
  · by_cases hg : g = f
    · subst hg
      simpa [modifyFeed] using ⟨rfl, rfl, rfl⟩
    · simpa [modifyFeed, hg] using Feed.Same.refl _
  · exact .refl _

theorem mem_retired_retire {f g : ℕ} (hg : g ∈ (s.retire f).retired) :
    g ∈ s.retired ∨ g = f ∧ s.registry.lookup (s.feeds f).identity = some f := by
  by_cases hf : s.registry.lookup (s.feeds f).identity = some f
  · rw [retired_retire hf] at hg
    rcases mem_cons.mp hg with rfl | ho
    · exact .inr ⟨rfl, hf⟩
    · exact .inl ho
  · rw [retire_eq_self hf] at hg
    exact .inl hg

theorem sameRegistry_modifyConsumer (s : Hub) (c : ℕ) (change : Consumer → Consumer) :
    SameRegistry s (s.modifyConsumer c change) :=
  { SameRegistry.refl s with }

section

variable (h : Registered s)
include h

theorem lookup_retire (f : ℕ) (id : FeedKey) (g : ℕ) :
    (s.retire f).registry.lookup id = some g ↔ s.registry.lookup id = some g ∧ g ≠ f := by
  by_cases hf : s.registry.lookup (s.feeds f).identity = some f
  · rw [registry_retire hf]
    by_cases hid : id = (s.feeds f).identity
    · subst hid
      rw [AList.lookup_erase, hf]
      simp [eq_comm]
    · rw [AList.lookup_erase_ne hid]
      refine ⟨fun hg => ⟨hg, ?_⟩, fun hg => hg.1⟩
      rintro rfl
      exact hid (h.identity id g hg).symm
  · rw [retire_eq_self hf]
    refine ⟨fun hg => ⟨hg, ?_⟩, fun hg => hg.1⟩
    rintro rfl
    exact hf (h.identity id g hg ▸ hg)

theorem Registered.live_retire (f session : ℕ) : (s.retire f).liveFeeds session =
      Map.tally (fun g => (s.feeds g).session) (s.retire f).registry session := by
  by_cases hf : s.registry.lookup (s.feeds f).identity = some f
  · rw [registry_retire hf, liveFeeds_retire hf]
    have hc := Map.tally_erase (fun g => (s.feeds g).session) session hf
    have hl := h.live session
    by_cases hs : session = (s.feeds f).session
    · subst hs
      rw [if_pos rfl] at hc
      rw [update_self]
      omega
    · rw [if_neg (Ne.symm hs)] at hc
      rw [update_of_ne hs]
      omega
  · rw [retire_eq_self hf]
    exact h.live session

theorem Registered.retire (f : ℕ) : Registered (s.retire f) where
  identity := by
    intro id g hg
    rw [(same_retire s f g).identity]
    exact h.identity id g ((lookup_retire h f id g).mp hg).1
  below := by
    intro id g hg
    rw [nextFeed_retire]
    exact h.below id g ((lookup_retire h f id g).mp hg).1
  live := by
    intro ses
    rw [h.live_retire]
    exact Map.tally_congr fun e _ => (same_retire s f _).session.symm
  retired_below := by
    intro g hg
    rw [nextFeed_retire]
    rcases mem_retired_retire hg with ho | ⟨rfl, hf⟩
    · exact h.retired_below g ho
    · exact h.below _ g hf
  retired_out := by
    intro g hg id hl
    obtain ⟨hl, hne⟩ := (lookup_retire h f id g).mp hl
    rcases mem_retired_retire hg with ho | ⟨rfl, -⟩
    · exact h.retired_out g ho id hl
    · exact hne rfl
  once := by
    by_cases hf : s.registry.lookup (s.feeds f).identity = some f
    · rw [retired_retire hf]
      exact nodup_cons.mpr ⟨fun hm => h.retired_out f hm _ hf, h.once⟩
    · rw [retire_eq_self hf]
      exact h.once

theorem Registered.createFeed {id : FeedKey} (session : ℕ) (hn : s.registry.lookup id = none) :
    Registered (s.createFeed id session) := by
  have ho : ∀ id' f, s.registry.lookup id' = some f → f ≠ s.nextFeed :=
    fun id' f hf => (h.below id' f hf).ne
  constructor
  · intro id' f hf
    simp only [Hub.createFeed, Map.lookup_insert_if] at hf ⊢
    split at hf
    · next hid =>
      cases hf
      simp [hid]
    · rw [update_of_ne (ho id' f hf)]
      exact h.identity id' f hf
  · intro id' f hf
    simp only [Hub.createFeed, Map.lookup_insert_if] at hf ⊢
    split at hf
    · cases hf
      exact Nat.lt_succ_self _
    · exact (h.below id' f hf).trans (Nat.lt_succ_self _)
  · intro session'
    simp only [Hub.createFeed]
    rw [Map.tally_insert _ _ _ hn, update_self]
    have hr : Map.tally (fun f => (update s.feeds s.nextFeed
        ⟨id, session, .pending, []⟩ f).session) s.registry session' = s.liveFeeds session' := by
      rw [h.live session']
      apply Map.tally_congr
      intro entry he
      rw [update_of_ne (ho entry.1 entry.2 (lookup_of_entry he))]
    rw [hr, update_apply]
    by_cases hs : session' = session
    · simp [hs]
    · simp [hs, Ne.symm hs]
  · exact fun f hf => (h.retired_below f hf).trans (Nat.lt_succ_self _)
  · intro f hf id'
    simp only [Hub.createFeed, Map.lookup_insert_if]
    split
    · intro heq
      exact (h.retired_below f hf).ne (some.inj heq).symm
    · exact h.retired_out f hf id'
  · exact h.once

/-! ### Preservation -/

theorem Registered.calm (hc : Calm s s') : Registered s' :=
  h.same hc.sameRegistry

theorem Registered.detach (c : ℕ) (m : Membership) : Registered (s.detach c m) := by
  have hs := h.same (sameRegistry_consumers s m.feed (s.detached c m))
  unfold Hub.detach
  dsimp only
  split
  · exact hs.retire m.feed
  · exact hs

theorem Registered.sweep (f : ℕ) : Registered (s.sweep f) := by
  unfold Hub.sweep
  extract_lets feed gone topics s₁ s₂
  have h₁ : Registered s₁ := h.calm (calm_foldl calm_clearActive s _)
  have h₂ : Registered s₂ := h₁.same (sameRegistry_consumers s₁ f topics)
  split
  · exact h₂.retire f
  · exact h₂

theorem Registered.doWork (work : Work) : Registered (s.doWork work) := by
  cases work with
  | detach c m => exact h.detach c m
  | sweep f => exact h.sweep f
  | dropTopics c labels =>
    simp only [Hub.doWork]
    exact h.same (sameRegistry_modifyConsumer s c _)
  | clearActive c => exact h.calm (calm_clearActive s c)
  | closeStream c => exact h.calm (calm_closeStream s c)

theorem Registered.gate (gate : Gate) : Registered { s with gate := gate } :=
  h.same { SameRegistry.refl s with }

theorem Registered.rollback (call : Call) : Registered (s.rollback call) :=
  (h.same (sameRegistry_modifyConsumer s call.consumer _)).gate _

end

/-! ### The sections of a call -/

/-- What a call does in one section: go on, commit, or give up and roll back. -/
inductive CallStep (s : Hub) (call : Call) : Hub → Prop where
  | commit : CallStep s call { s with gate := .free }
  | subscribe (hphase : call.phase = .lookup) :
      CallStep s call { s with gate := .adding { call with phase := .subscribing } }
  | found {p : Planned} {rest : List Planned} {f : ℕ} (hphase : call.phase = .lookup)
      (hrest : call.rest = p :: rest) (hlookup : s.registry.lookup p.identity = some f) :
      CallStep s call
        { s with gate := .adding { call with rest := rest, phase := .join p f false } }
  | create {p : Planned} {rest : List Planned} (session : ℕ) (hphase : call.phase = .lookup)
      (hrest : call.rest = p :: rest) (hlookup : s.registry.lookup p.identity = none) :
      CallStep s call { s.createFeed p.identity session with
        gate := .adding { call with
          rest := rest
          phase := .join p s.nextFeed true
          created := s.nextFeed :: call.created } }
  | join {p : Planned} {f : ℕ} {created : Bool} (hphase : call.phase = .join p f created) :
      CallStep s call (s.join call p f created)
  | enter {p : Planned} {f : ℕ} {created : Bool} (allowed growth : Bool) {s₁ : Hub}
      (hphase : call.phase = .enter p f created) (hcalm : Calm s s₁) :
      CallStep s call { s₁.modifyFeed f fun feed =>
          { feed with consumers := feed.consumers ++ [⟨call.consumer, p.key, allowed⟩] } with
        gate := .adding { call with phase := .settle f created growth } }
  | settle {f : ℕ} {created growth : Bool} (hphase : call.phase = .settle f created growth)
      (creations : List ℕ) : CallStep s call
        { s with gate := .adding { call with phase := .lookup, creations := creations } }
  | undo {s₁ : Hub} (hphase : ∀ p f, call.phase ≠ .join p f true) (hcalm : Calm s s₁) :
      CallStep s call (s₁.rollback call)

variable {call : Call}

theorem callStep_lookupFeed (hp : call.phase = .lookup)
    (h : s.lookupFeed call = some s') : CallStep s call s' := by
  unfold lookupFeed at h
  split at h
  · split at h
    · rw [← some.inj h]
      exact .commit
    · rw [← some.inj h]
      exact .subscribe hp
  · next p rest hr =>
    split at h
    · next f hl =>
      rw [← some.inj h]
      exact .found hp hr hl
    · next hl =>
      obtain ⟨ses, -, rfl⟩ := map_eq_some_iff.mp h
      exact .create ses hp hr hl

theorem callStep_enter {p : Planned} {f : ℕ} {created : Bool}
    (hp : call.phase = .enter p f created) (allowed growth : Bool) :
    CallStep s call (s.enter call p f created allowed growth) := by
  unfold enter
  split
  · exact .undo (by simp [hp]) (.refl s)
  · cases allowed with
    | true => exact .enter true growth hp (.refl s)
    | false => exact .enter false growth hp (calm_failTopic s _ _)

theorem callStep_of_stepCall {a : CallAction} (h : s.stepCall call a = some s') :
    CallStep s call s' := by
  unfold stepCall at h
  split at h
  · next hp => exact callStep_lookupFeed hp h
  · next hp =>
    rw [← some.inj h]
    exact .undo (by simp [hp]) (.refl s)
  · next hp =>
    rw [← some.inj h]
    exact .join hp
  · next hp =>
    rw [← some.inj h]
    exact callStep_enter hp _ _
  · next hp =>
    rw [← some.inj h]
    exact .settle hp _
  · next hp =>
    rw [← some.inj h]
    exact .undo (by simp [hp]) (calm_onError s _)
  · rw [← some.inj h]
    exact .commit
  · next hp =>
    rw [← some.inj h]
    exact .undo (by simp [hp]) (calm_foldl calm_onError s _)
  · next hp =>
    rw [← some.inj h]
    exact .undo (by simp [hp]) (.refl s)
  · cases h

theorem Registered.callStep (h : Registered s) (hs : CallStep s call s') :
    Registered s' := by
  cases hs with
  | commit | subscribe | found | settle => exact h.gate _
  | create ses _ _ hl => exact (h.createFeed ses hl).gate _
  | join => exact (h.same (sameRegistry_modifyConsumer s call.consumer _)).gate _
  | enter allowed growth _ hc =>
    exact ((h.calm hc).same (sameRegistry_consumers _ _ _)).gate _
  | undo _ hc => exact (h.calm hc).rollback call

theorem Registered.stepTask (h : Registered s) {task : Task} (hs : s.stepTask task = some s') :
    Registered s' := by
  cases task with
  | remove c labels | unsubscribe c =>
    rw [← some.inj hs]
    exact (h.same (sameRegistry_modifyConsumer s c _)).gate _
  | depart i =>
    obtain ⟨departure, -, rfl⟩ := map_eq_some_iff.mp hs
    exact h.same { SameRegistry.refl s with }
  | cleanup =>
    rw [← some.inj hs]
    exact h.gate _

/-! ### Planning -/

theorem length_feedKeys (c : Consumer) (next : ℕ) (req : List (String × String)) :
    (feedKeys c next req).1.length = req.length := by
  induction req generalizing next with
  | nil => rfl
  | cons r rest ih => simp [feedKeys, ih]

theorem le_feedKeys (c : Consumer) (next : ℕ) (req : List (String × String)) :
    next ≤ (feedKeys c next req).2 := by
  induction req generalizing next with
  | nil => exact le_rfl
  | cons r rest ih =>
    simp only [feedKeys]
    refine le_trans ?_ (ih _)
    split <;> omega

variable {req : List (String × String)} {ks : List FeedKey}

theorem planTopics_eq (next : ℕ) (h : ks.length = req.length) :
    (planTopics next req ks).map (·.label) = req.map (·.2) ∧
      (planTopics next req ks).map (·.key) = range' next req.length := by
  induction req generalizing next ks with
  | nil => simp [planTopics]
  | cons r rest ih =>
    cases ks with
    | nil => simp at h
    | cons key ks =>
      obtain ⟨hl, hk⟩ := ih (next + 1) (by simpa using h)
      simp only [planTopics, map_cons, hl, hk, length_cons, range'_succ, and_self]

structure Plans (trim : String → String) (s : Hub) (c : ℕ) (topics : List String)
    (aliases : List (String × String)) (session : Option ℕ) (requested : List (String × String))
    (planned : List Planned) (finished : List ℕ) (nextFeed : ℕ) (s' : Hub) : Prop where
  free : s.gate = .free
  allocated : c < s.nextConsumer
  alive : (s.consumers c).dropped = false
  valid : validateTopicAliases trim topics aliases = .ok requested
  labels : planned.map (·.label) =
    (requested.filter fun r => ((s.consumers c).status.topicToKey r.2).isNone).map (·.2)
  keys : planned.map (·.key) = List.range' (s.consumers c).nextKey planned.length
  dead : ∀ f ∈ finished, (s.feeds f).isDead = true
  next_le : s.nextFeed ≤ nextFeed
  state : s' = { (finished.foldl retire { s with nextFeed := nextFeed }).modifyConsumer c
      (reserve planned) with gate := .adding ⟨c, planned, session, planned, .lookup, [], []⟩ }

variable {trim : String → String}

theorem plans_of_plan {c : ℕ} {topics : List String}
    {aliases : List (String × String)} {ses : Option ℕ}
    (h : s.plan trim c topics aliases ses = some s') :
    ∃ req planned finished nextFeed,
      Plans trim s c topics aliases ses req planned finished nextFeed s' := by
  simp only [plan, ite_none_left_eq_some] at h
  obtain ⟨hg, h⟩ := h
  simp only [ne_eq, Bool.or_eq_true, decide_eq_true_eq, not_or, not_not, Nat.not_le,
    Bool.not_eq_true] at hg
  cases hv : validateTopicAliases trim topics aliases with
  | error e =>
    rw [hv] at h
    cases h
  | ok req =>
    simp only [hv, ite_none_left_eq_some, some.injEq] at h
    obtain ⟨-, -, hs⟩ := h
    have hl := length_feedKeys (s.consumers c) s.nextFeed
      (req.filter fun r => ((s.consumers c).status.topicToKey r.2).isNone)
    obtain ⟨hla, hke⟩ := planTopics_eq (s.consumers c).nextKey hl
    have hc := congrArg length hla
    simp only [length_map] at hc
    refine ⟨req, _, _, _, ⟨hg.1.1.1.1.1, hg.1.1.1.2, hg.1.1.2, hv, hla,
      ?_, ?_, le_feedKeys _ _ _, hs.symm⟩⟩
    · rw [hc]
      exact hke
    · exact fun f hf => (mem_filter.mp hf).2

theorem Registered.foldl_retire (h : Registered s) (finished : List ℕ) :
    Registered (finished.foldl Hub.retire s) := by
  induction finished generalizing s with
  | nil => exact h
  | cons f rest ih => exact ih (h.retire f)

/-! ### Runs -/

theorem Registered.step {a : Action} (h : Registered s)
    (hpa : s.patches ⊆ s.ended) (hs : s.step trim a = some s') : Registered s' := by
  cases a with
  | plan c topics aliases ses =>
    obtain ⟨req, planned, finished, nextFeed, hp⟩ := plans_of_plan hs
    rw [hp.state]
    have hn : Registered { s with nextFeed := nextFeed } :=
      h.same { SameRegistry.refl s with nextFeed := hp.next_le }
    exact ((hn.foldl_retire finished).same (sameRegistry_modifyConsumer _ c _)).gate _
  | call a =>
    simp only [Hub.step] at hs
    split at hs
    · exact h.callStep (callStep_of_stepCall hs)
    · cases hs
  | task task =>
    simp only [Hub.step] at hs
    split at hs
    · exact h.stepTask hs
    · cases hs
  | work =>
    simp only [Hub.step] at hs
    split at hs
    · rw [← some.inj hs]
      exact h.gate _
    · rw [← some.inj hs]
      exact (h.doWork _).gate _
    · cases hs
  | event ev => exact h.calm (calm_stepEvent hpa hs)

end Xbbg.SharedSubscriptions.Hub
