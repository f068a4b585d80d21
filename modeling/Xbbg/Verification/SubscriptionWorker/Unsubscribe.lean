import Xbbg.Library.Machine
import Xbbg.Model.SubscriptionWorker

/-! Which subscriptions a retiring feed cancels. The stored key carries no generation, so
the answer depends on whether the slab has handed that key to another feed since. -/

namespace Xbbg.SubscriptionWorker

open List Library SubscriptionWorkerState

namespace SubscriptionWorkerState

variable {subListAdd : String → Option BlpError} {registrations : List FeedRegistration}
  {w w' : SubscriptionWorkerState} {keys : List ℕ} {key : ℕ}

/-- The feed that an occupied key was registered for. -/
def owner (w : SubscriptionWorkerState) (key : ℕ) : Option ℕ :=
  (w.subs.get? key).map (·.feed)

theorem registerLoop_ok {res : List ℕ}
    (h : registerLoop subListAdd w registrations keys = (.ok res, w')) :
    ∃ added, res = keys ++ added ∧
      (∀ key st, w.subs.get? key = some st → w'.subs.get? key = some st) ∧
      (∀ key, key ∉ added → w'.subs.get? key = w.subs.get? key) ∧
      ∀ p ∈ (registrations.map (·.feed)).zip added, w'.owner p.2 = some p.1 := by
  induction registrations generalizing w keys with
  | nil =>
    simp only [registerLoop, Prod.mk.injEq, Except.ok.injEq] at h
    obtain ⟨rfl, rfl⟩ := h
    exact ⟨[], by simp, fun _ _ hg => hg, fun _ _ => rfl, by simp⟩
  | cons e rest ih =>
    simp only [registerLoop] at h
    split at h
    · simp at h
    · obtain ⟨added, hr, hk, ho, how⟩ := ih h
      refine ⟨w.subs.vacantKey :: added, by simp [hr], ?_, ?_, ?_⟩
      · intro key st hg
        refine hk key st ?_
        rw [Slab.get?_insert_of_ne]
        · exact hg
        · rintro rfl
          simp [Slab.get?_vacantKey] at hg
      · intro key hke
        obtain ⟨hne, ha⟩ : key ≠ w.subs.vacantKey ∧ key ∉ added := by simpa using hke
        rw [ho key ha, Slab.get?_insert_of_ne _ _ hne]
      · intro p hp
        rcases mem_cons.mp hp with rfl | hp
        · simp [owner, hk _ _ (Slab.get?_insert_self w.subs _)]
        · exact how p hp

theorem registerLoop_error {error : BlpError}
    (h : registerLoop subListAdd w registrations keys = (.error error, w')) :
    ∀ key state, w'.subs.get? key = some state → key ∉ keys ∧ w.subs.get? key = some state := by
  induction registrations generalizing w keys with
  | nil => simp [registerLoop] at h
  | cons entry rest ih =>
    intro key state hg
    simp only [registerLoop] at h
    split at h
    · obtain ⟨-, rfl⟩ := Prod.mk.inj h
      simp only [Slab.get?_foldl_remove, Slab.get?_remove, Slab.get?_insert] at hg
      split at hg
      · simp at hg
      · rename_i hk
        split at hg
        · simp at hg
        · exact ⟨hk, hg⟩
    · obtain ⟨hk, hf⟩ := ih h key state hg
      obtain ⟨hk, hne⟩ : key ∉ keys ∧ key ≠ w.subs.vacantKey := by simpa using hk
      rw [Slab.get?_insert_of_ne _ _ hne] at hf
      exact ⟨hk, hf⟩

theorem registerSubscriptions_ok
    (h : w.registerSubscriptions registrations subListAdd = (.ok keys, w')) :
    (∀ key, key ∉ keys → w'.owner key = w.owner key) ∧
      ∀ p ∈ (registrations.map (·.feed)).zip keys, w'.owner p.2 = some p.1 := by
  unfold registerSubscriptions at h
  split at h
  · simp at h
  · split at h
    · simp at h
    · obtain ⟨added, rfl, -, ho, how⟩ := registerLoop_ok h
      refine ⟨?_, by simpa using how⟩
      intro key hk
      rw [owner, ho key hk, owner]

theorem registerSubscriptions_error {error : BlpError}
    (h : w.registerSubscriptions registrations subListAdd = (.error error, w')) :
    ∀ key feed, w'.owner key = some feed → w.owner key = some feed := by
  have hg : ∀ key state, w'.subs.get? key = some state → w.subs.get? key = some state := by
    unfold registerSubscriptions at h
    split at h
    · obtain ⟨-, rfl⟩ := Prod.mk.inj h
      exact fun _ _ hg => hg
    · split at h
      · rename_i w'' hl
        obtain ⟨-, rfl⟩ := Prod.mk.inj h
        obtain ⟨added, ha, -, ho, -⟩ := registerLoop_ok hl
        obtain rfl : added = [] := by simpa using ha.symm
        intro key state hg
        rw [← ho key (by simp), hg]
      · intro key state hg
        exact (registerLoop_error h key state hg).2
  intro key feed how
  obtain ⟨state, hs, rfl⟩ := Option.map_eq_some_iff.mp how
  simp [owner, hg key state hs]

theorem owner_buildUnsubscribeList (w : SubscriptionWorkerState) (keys : List ℕ)
    (unsubListAdd : ℕ → Bool) (key : ℕ) :
    (w.buildUnsubscribeList keys unsubListAdd).2.owner key = w.owner key :=
  w.subs.map_get?_foldl_modify (w.cancellable keys) (f := markClosing) (fun _ => rfl) key

theorem mem_cancellable (h : key ∈ w.cancellable keys) :
    key ∈ keys ∧ ∃ feed, w.owner key = some feed := by
  obtain ⟨hk, hl⟩ := mem_filter.mp h
  obtain ⟨hc, -⟩ : w.subs.contains key = true ∧ key ∉ w.pendingCancel := by
    simpa using hl
  obtain ⟨st, hs⟩ := Option.isSome_iff_exists.mp hc
  exact ⟨hk, st.feed, by simp [owner, hs]⟩

variable {feed : ℕ}

theorem owner_collectSubscriptionStatus {kind : EndedBy} {ended : ℕ} {reason : Option String}
    (h : (w.collectSubscriptionStatus kind ended reason).2.owner key = some feed) :
    w.owner key = some feed := by
  have hs : (w.collectSubscriptionStatus kind ended reason).2.subs = w.subs.remove ended := by
    unfold collectSubscriptionStatus
    split
    · rfl
    · split <;> rfl
  rw [owner, hs, Slab.get?_remove] at h
  split at h
  · simp at h
  · exact h

theorem owner_cleanupFailedSubscribe
    (h : (w.cleanupFailedSubscribe keys).owner key = some feed) : w.owner key = some feed := by
  rw [owner, cleanupFailedSubscribe, Slab.get?_foldl_remove] at h
  split at h
  · simp at h
  · exact h

theorem owner_drainForShutdown (h : w.drainForShutdown.owner key = some feed) :
    w.owner key = some feed := by
  rw [owner, drainForShutdown, Slab.get?_foldl_remove] at h
  split at h
  · simp at h
  · exact h

end SubscriptionWorkerState

namespace Hub

variable {h : Hub}

/-- No registered feed still holds a key that this step hands to a new subscription. -/
def KeysUnclaimed (h : Hub) : Action → Prop
  | .register streamClosed subListAdd =>
    ∀ keys, (h.worker.registerSubscriptions (h.registrations streamClosed) subListAdd).1 =
        .ok keys →
      ∀ key ∈ keys, ∀ feed : Feed, h.Registered feed → h.upstreamKey feed.id ≠ some key
  | _ => True

/-- The keys that registered feeds hold, or are about to store, are vacant or their own. -/
structure Owned (h : Hub) : Prop where
  stored : ∀ (feed : Feed) key owner, h.Registered feed → h.upstreamKey feed.id = some key →
    h.worker.owner key = some owner → owner = feed.id
  storing : ∀ p ∈ h.storing, ∀ owner, h.worker.owner p.2 = some owner → owner = p.1
  created : ∀ feed ∈ h.creations, feed.id < h.nextFeed
  storing_lt : ∀ p ∈ h.storing, p.1 < h.nextFeed
  fresh : ∀ id, h.nextFeed ≤ id → h.upstreamKey id = none

theorem owned_new : Hub.new.Owned := by
  constructor <;> simp [Hub.new]

/-- Subscriptions that end keep the invariant. -/
theorem Owned.of_owner (ho : h.Owned) {worker : SubscriptionWorkerState}
    (hw : ∀ key owner, worker.owner key = some owner → h.worker.owner key = some owner) :
    { h with worker := worker }.Owned :=
  ⟨fun feed key owner hr hk how =>
      ho.stored feed key owner hr hk (hw key owner how),
    fun p hp owner how => ho.storing p hp owner (hw p.2 owner how),
    ho.created, ho.storing_lt, ho.fresh⟩

variable {t : Hub}

theorem Owned.create (ho : h.Owned) {identity : FeedKey}
    (hs : h.step (.create identity) = some t) : t.Owned := by
  simp only [step] at hs
  split at hs
  · cases hs
    refine ⟨?_, ho.storing, ?_, fun p hp => (ho.storing_lt p hp).trans (Nat.lt_succ_self _),
      fun id hid => ho.fresh id (Nat.le_of_succ_le hid)⟩
    · intro feed key owner hr hk how
      by_cases hide : feed.identity = identity
      · have hid : h.nextFeed = feed.id := by
          simpa [Registered, hide] using hr
        have hfr := ho.fresh feed.id hid.le
        rw [hfr] at hk
        simp at hk
      · refine ho.stored feed key owner ?_ hk how
        simpa [Registered, hide] using hr
    · intro feed hf
      rcases mem_append.mp hf with hf | hf
      · exact (ho.created feed hf).trans (Nat.lt_succ_self _)
      · obtain rfl : feed = ⟨h.nextFeed, identity⟩ := by simpa using hf
        exact Nat.lt_succ_self _
  · simp at hs

theorem Owned.register (how : h.Owned) {streamClosed : ℕ → Bool}
    {subListAdd : String → Option BlpError}
    (hok : h.KeysUnclaimed (.register streamClosed subListAdd))
    (hs : h.step (.register streamClosed subListAdd) = some t) : t.Owned := by
  simp only [step] at hs
  split at hs
  · simp at hs
  · split at hs
    · rename_i keys worker hr
      cases hs
      obtain ⟨hot, ha⟩ := registerSubscriptions_ok hr
      have hfe : (h.registrations streamClosed).map (·.feed) = h.creations.map (·.id) := by
        simp [registrations]
      rw [hfe] at ha
      refine ⟨?_, ?_, by simp, ?_, how.fresh⟩
      · intro feed key owner hre hke ho
        have hu : key ∉ keys := by
          intro hm
          exact hok keys (by rw [hr]) key hm feed hre hke
        rw [hot key hu] at ho
        exact how.stored feed key owner hre hke ho
      · intro p hp owner ho
        rw [ha p hp] at ho
        exact (Option.some.inj ho).symm
      · intro p hp
        obtain ⟨feed, hf, hid⟩ := mem_map.mp (of_mem_zip hp).1
        rw [← hid]
        exact how.created feed hf
    · rename_i e worker hr
      cases hs
      have hk := how.of_owner (registerSubscriptions_error hr)
      exact ⟨hk.stored, hk.storing, by simp, hk.storing_lt, hk.fresh⟩

theorem Owned.store (ho : h.Owned) (hs : h.step .store = some t) : t.Owned := by
  simp only [step] at hs
  split at hs
  · simp at hs
  · rename_i feed key rest hst
    cases hs
    have hh : (feed, key) ∈ h.storing := by simp [hst]
    have hr : ∀ p ∈ rest, p ∈ h.storing := fun p hp => by simp [hst, hp]
    refine ⟨?_, fun p hp => ho.storing p (hr p hp), ho.created,
      fun p hp => ho.storing_lt p (hr p hp), ?_⟩
    · intro holder held owner hre hhe how
      by_cases hid : holder.id = feed
      · obtain rfl : key = held := by simpa [hid] using hhe
        rw [hid]
        exact ho.storing _ hh owner how
      · exact ho.stored holder held owner hre (by simpa [hid] using hhe) how
    · intro id hle
      have hlt : feed < h.nextFeed := ho.storing_lt _ hh
      have hne : id ≠ feed := (hlt.trans_le hle).ne'
      simpa [hne] using ho.fresh id hle

/-- What a retirement does: nothing for a feed that is not registered; otherwise it takes the
feed out of the registry and, in a running session, lists its stored key at most. -/
theorem retire_cases (h : Hub) (feed : Feed) (unsubListAdd : ℕ → Bool) :
    h.retire feed unsubListAdd = ([], h) ∨
    h.Registered feed ∧ (h.retire feed unsubListAdd =
          ([], { h with registry := Function.update h.registry feed.identity none }) ∨
        ∃ key, h.upstreamKey feed.id = some key ∧ h.retire feed unsubListAdd =
            ((h.worker.buildUnsubscribeList [key] unsubListAdd).1, { h with
                registry := Function.update h.registry feed.identity none
                worker := (h.worker.buildUnsubscribeList [key] unsubListAdd).2 })) := by
  by_cases hr : h.Registered feed
  · refine .inr ⟨hr, ?_⟩
    cases hk : h.upstreamKey feed.id with
    | none => exact .inl (by simp [retire, hr, hk])
    | some key =>
      cases hs : h.shutdown with
      | true => exact .inl (by simp [retire, unsubscribe, hr, hk, hs])
      | false =>
        refine .inr ⟨key, rfl, ?_⟩
        simp [retire, unsubscribe, hr, hk, hs]
  · exact .inl (by simp [retire, hr])

theorem Owned.unregister (ho : h.Owned) (identity : FeedKey) :
    { h with registry := Function.update h.registry identity none }.Owned := by
  refine ⟨?_, ho.storing, ho.created, ho.storing_lt, ho.fresh⟩
  intro feed key owner hr hk how
  refine ho.stored feed key owner ?_ hk how
  by_cases hide : feed.identity = identity
  · simp [Registered, hide] at hr
  · simpa [Registered, hide] using hr

theorem Owned.retire (ho : h.Owned) (feed : Feed) (unsubListAdd : ℕ → Bool) :
    (h.retire feed unsubListAdd).2.Owned := by
  rcases h.retire_cases feed unsubListAdd with hr | ⟨-, hr | ⟨key, -, hr⟩⟩
  · rw [hr]
    exact ho
  · rw [hr]
    exact ho.unregister feed.identity
  · rw [hr]
    refine (ho.unregister feed.identity).of_owner ?_
    intro o owner how
    rwa [owner_buildUnsubscribeList] at how

theorem Owned.step {a : Action} (ho : h.Owned) (hok : h.KeysUnclaimed a)
    (hs : h.step a = some t) : t.Owned := by
  cases a with
  | create identity => exact ho.create hs
  | register streamClosed subListAdd => exact ho.register hok hs
  | subscribeFailed =>
    cases hs
    exact ⟨ho.stored, ho.storing, by simp, ho.storing_lt, ho.fresh⟩
  | sdkRejected =>
    simp only [Hub.step] at hs
    split at hs
    · simp at hs
    · cases hs
      have hc : Owned { h with
          worker := h.worker.cleanupFailedSubscribe (h.storing.map (·.2)) } :=
        ho.of_owner fun _ _ => owner_cleanupFailedSubscribe
      have hk := hc.of_owner fun _ _ => owner_drainForShutdown
      exact ⟨hk.stored, by simp, hk.created, by simp, hk.fresh⟩
  | store => exact ho.store hs
  | status kind key reason =>
    cases hs
    exact ho.of_owner fun _ _ => owner_collectSubscriptionStatus
  | retire feed unsubListAdd =>
    cases hs
    exact ho.retire feed unsubListAdd
  | shutdown =>
    cases hs
    have hk := ho.of_owner fun _ _ => owner_drainForShutdown
    exact ⟨hk.stored, hk.storing, hk.created, hk.storing_lt, hk.fresh⟩

/-- Retiring the feed cancels, marks and closes subscriptions registered for it only. -/
structure RetiresOwn (h : Hub) (feed : Feed) (unsubListAdd : ℕ → Bool) : Prop where
  cancelled : ∀ key ∈ (h.retire feed unsubListAdd).1, h.worker.owner key = some feed.id
  marked : ∀ key ∈ (h.retire feed unsubListAdd).2.worker.pendingCancel,
    key ∈ h.worker.pendingCancel ∨ h.worker.owner key = some feed.id
  others : ∀ key, h.worker.owner key ≠ some feed.id →
    (h.retire feed unsubListAdd).2.worker.subs.get? key = h.worker.subs.get? key

theorem Owned.retiresOwn (how : h.Owned) (feed : Feed) (unsubListAdd : ℕ → Bool) :
    h.RetiresOwn feed unsubListAdd := by
  rcases h.retire_cases feed unsubListAdd with hr | ⟨hre, hr | ⟨stored, hs, hr⟩⟩
  · exact ⟨by simp [hr], by simp +contextual [hr], by simp [hr]⟩
  · exact ⟨by simp [hr], by simp +contextual [hr], by simp [hr]⟩
  · have ho : ∀ key ∈ h.worker.cancellable [stored], h.worker.owner key = some feed.id := by
      intro key hk
      obtain ⟨hm, owner, ho⟩ := mem_cancellable hk
      obtain rfl : key = stored := by simpa using hm
      rw [ho, how.stored feed key owner hre hs ho]
    refine ⟨?_, ?_, ?_⟩
    · intro key hk
      rw [hr] at hk
      exact ho key (mem_filter.mp hk).1
    · intro key hk
      rw [hr] at hk
      rcases Finset.mem_union.mp hk with hk | hk
      · exact .inl hk
      · exact .inr (ho key (mem_filter.mp (mem_toFinset.mp hk)).1)
    · intro key hk
      rw [hr]
      exact h.worker.subs.get?_foldl_modify_of_notMem _ fun hm => hk (ho key hm)

/-- If registrations are never given a key that a registered feed still stores, every
retirement cancels subscriptions of its own feed only. -/
theorem retiresOwn_of_run {h : Hub} {actions : List Action}
    (hrun : Run Hub.step KeysUnclaimed Hub.new actions h) (feed : Feed)
    (unsubListAdd : ℕ → Bool) : h.RetiresOwn feed unsubListAdd :=
  (hrun.invariant (fun _ _ _ hown hok hs => hown.step hok hs) owned_new).retiresOwn
    feed unsubListAdd

private def tradesKey : FeedKey := ⟨"//blp/mktdata", "IBM US Equity", [], 0⟩

private def quotesKey : FeedKey := ⟨"//blp/mktdata", "AAPL US Equity", [], 0⟩

/-- Two feeds are registered one after the other, and the first of them is retired. -/
theorem retiresOwn_of_run_two : ∃ h : Hub, Run Hub.step KeysUnclaimed Hub.new
        [.create tradesKey, .register (fun _ => false) (fun _ => none), .store,
          .create quotesKey, .register (fun _ => false) (fun _ => none), .store] h ∧
      h.Registered ⟨0, tradesKey⟩ ∧ h.Registered ⟨1, quotesKey⟩ ∧
      h.upstreamKey 0 = some 0 ∧ h.upstreamKey 1 = some 1 ∧
      (h.retire ⟨0, tradesKey⟩ fun _ => true).1 = [0] ∧
      h.RetiresOwn ⟨0, tradesKey⟩ (fun _ => true) ∧
      (h.retire ⟨0, tradesKey⟩ fun _ => true).2.worker.subs.get? 1 =
        some ⟨1, "AAPL US Equity", false⟩ := by
  have hrun : Run Hub.step KeysUnclaimed Hub.new
      [.create tradesKey, .register (fun _ => false) (fun _ => none), .store,
        .create quotesKey, .register (fun _ => false) (fun _ => none), .store] _ :=
    .cons trivial rfl (.cons (fun _ _ _ _ _ _ => by simp [Hub.new]) rfl (.cons trivial rfl
      (.cons trivial rfl (.cons (by
        -- The second registration is given key 1, and the first feed stores key 0.
        intro keys hkeys key hkey feed _ hstored
        obtain rfl : [1] = keys := Except.ok.inj hkeys
        obtain rfl : key = 1 := by simpa using hkey
        have hfirst : Function.update (fun _ => none) 0 (some 0) feed.id = some 1 := hstored
        simp [Function.update_apply] at hfirst) rfl (.cons trivial rfl (.nil _))))))
  have hretires := retiresOwn_of_run hrun ⟨0, tradesKey⟩ fun _ => true
  exact ⟨_, hrun, by decide, by decide, rfl, rfl, by decide, hretires,
    (hretires.others 1 (by decide)).trans rfl⟩

/-- A subscription fails, a second feed is given the freed key, and the clean-up of the
failed feed cancels the live subscription of the second one. -/
theorem exists_run_retire_cancels_other : ∃ h : Hub, FreeRun Hub.step Hub.new
        [.create tradesKey, .register (fun _ => false) (fun _ => none), .store,
          .status .failure 0 none,
          .create quotesKey, .register (fun _ => false) (fun _ => none), .store] h ∧
      h.worker.subs.get? 0 = some ⟨1, "AAPL US Equity", false⟩ ∧ 0 ∉ h.worker.pendingCancel ∧
      (h.retire ⟨0, tradesKey⟩ fun _ => true).1 = [0] ∧
      0 ∈ (h.retire ⟨0, tradesKey⟩ fun _ => true).2.worker.pendingCancel := by
  exact ⟨_, FreeRun.of_runActions rfl, by decide, by decide, by decide, by decide⟩

end Hub

end Xbbg.SubscriptionWorker
