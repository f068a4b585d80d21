import Xbbg.Verification.Channel.Shared

/-! The overwrite queue: every gap counts the updates that were evicted there, in every
interleaving of its senders and its receiver. -/

namespace Xbbg.Channel

namespace Overwrite

open List Shared

open Library

variable {α : Type*} {s t : Overwrite α}

theorem saturate_saturate_succ (n : ℕ) : saturate (saturate n + 1) = saturate (n + 1) := by
  simp only [saturate]
  omega

theorem saturate_of_lt {n : ℕ} (h : n < 2 ^ 64) : saturate n = n := by
  simp only [saturate]
  omega

def Kept (_ : Overwrite α) (a : Action α) : Prop :=
  a ≠ .shared .dropReceiver

/-! ### One send -/

variable {c : Shared α ℕ} {capacity : ℕ}

/-- What a send does to a channel: a closed one rejects it, and otherwise it evicts one update
if the queue is full and none if it is not. -/
theorem trySendLossy_cases (c : Shared α ℕ) (capacity : ℕ) (u : α) :
    (c.state.acceptsData = false ∨ c.accepting = false) ∧
      trySendLossy c capacity u = (none, c.reject (.ok u)) ∨
    c.state.acceptsData = true ∧ ((c.state.queue = [] ∨ c.state.queue.length ≠ capacity) ∧
        trySendLossy c capacity u = (some 0, c.pushBack u) ∨
      ∃ oldest rest, c.state.queue = oldest :: rest ∧ c.state.queue.length = capacity ∧
        trySendLossy c capacity u = (some 1, { c with
              state :=
                { c.state with queue := rest, pendingGap := saturate (c.state.pendingGap + 1) }
              evicted := c.evicted ++ [oldest] : Shared α ℕ }.pushBack u)) := by
  by_cases hc : c.state.acceptsData = false ∨ c.accepting = false
  · exact .inl ⟨hc, by simp only [trySendLossy, if_pos hc]⟩
  · have ha : c.state.acceptsData = true := by
      simpa using fun hfa => hc (.inl hfa)
    refine .inr ⟨ha, ?_⟩
    cases hq : c.state.queue with
    | nil => exact .inl ⟨.inl rfl, by simp only [trySendLossy, if_neg hc, hq]⟩
    | cons oldest rest =>
      by_cases hf : (oldest :: rest).length = capacity
      · exact .inr ⟨oldest, rest, rfl, hf, by simp only [trySendLossy, if_neg hc, hq, if_pos hf]⟩
      · exact .inl ⟨.inr hf, by simp only [trySendLossy, if_neg hc, hq, if_neg hf]⟩

/-- A send keeps the order, the bound and the wake-ups, and returns what it evicted. -/
theorem trySendLossy_spec (u : α) (hso : c.Sound dropOldest) (hc : c.senderCount ≠ 0)
    (hw : c.Wakes) (hca : 0 < capacity) (hb : c.state.queue.length ≤ capacity) :
    (trySendLossy c capacity u).2.Sound dropOldest ∧ (trySendLossy c capacity u).2.Wakes ∧
      (trySendLossy c capacity u).2.state.queue.length ≤ capacity ∧
      (trySendLossy c capacity u).2.evictions = c.evictions + (trySendLossy c capacity u).1.getD 0 ∧
      (trySendLossy c capacity u).2.receiver = c.receiver := by
  rcases trySendLossy_cases c capacity u with
    ⟨-, hs⟩ | ⟨ha, ⟨hr, hs⟩ | ⟨oldest, rest, hq, hf, hs⟩⟩
  · rw [hs]
    exact ⟨hso.reject _, hw, hb, rfl, rfl⟩
  · rw [hs]
    refine ⟨hso.pushBack u ha hc, wakes_pushBack _ _, ?_, rfl, rfl⟩
    rcases hr with hn | hne
    · simpa [pushBack, hn] using Nat.succ_le_of_lt hca
    · simp only [pushBack, length_append, length_singleton]
      omega
  · rw [hs]
    have hg : saturate (c.state.pendingGap + 1) = dropOldest.count (c.evicted.length + 1) := by
      rw [hso.gap]
      exact saturate_saturate_succ _
    refine ⟨(hso.evict hq hg).pushBack u ha hc, wakes_pushBack _ _, ?_, ?_, rfl⟩
    · rw [hq] at hf
      simp [pushBack, ← hf]
    · simp [evictions, pushBack, Nat.add_assoc]

theorem keepsSealed_trySendLossy {u : α} (hc : c.senderCount ≠ 0) :
    KeepsSealed c (trySendLossy c capacity u).2 := by
  intro hs
  have hcl : c.state.acceptsData = false := hs.resolve_right hc
  rcases trySendLossy_cases c capacity u with ⟨-, hse⟩ | ⟨ha, -⟩
  · rw [hse]
    exact keepsSealed_reject _ hs
  · simp [hcl] at ha

variable {a : Action α}

/-- A step acts on the shared part alone, or it is one of the two sends of an update. -/
theorem step_cases (hok : Kept s a) (hs : s.step a = some t) :
    (∃ c, Effect dropOldest s.shared c ∧ (s.shared.Wakes → c.Wakes) ∧ t = { s with shared := c }) ∨
    ∃ u, s.shared.senderCount ≠ 0 ∧ (t = { s with
        shared := (trySendLossy s.shared s.capacity u).2
        returned := s.returned ++ (trySendLossy s.shared s.capacity u).1.toList } ∨
      a = .send (.ok u) ∧ t = { s with
        shared := (trySendLossy s.shared s.capacity u).2
        unreported := s.unreported + (trySendLossy s.shared s.capacity u).1.getD 0 }) := by
  cases a with
  | shared act =>
    obtain ⟨c, hc, rfl⟩ := Option.map_eq_some_iff.mp hs
    have he := effect_of_step (fun heq => hok (heq ▸ rfl)) hc
    exact .inl ⟨c, he, fun hw => hw.step (by decide) hc, rfl⟩
  | trySendWithEviction u =>
    obtain ⟨hc, hs⟩ := Option.ite_none_left_eq_some.mp hs
    exact .inr ⟨u, hc, .inl (Option.some.inj hs).symm⟩
  | send x =>
    cases x with
    | ok u =>
      obtain ⟨hc, hs⟩ := Option.ite_none_left_eq_some.mp hs
      exact .inr ⟨u, hc, .inr ⟨rfl, (Option.some.inj hs).symm⟩⟩
    | error e =>
      obtain ⟨-, hs⟩ := Option.ite_none_left_eq_some.mp hs
      exact .inl ⟨_, .fail e, fun hw => hw.sendTerminal e, (Option.some.inj hs).symm⟩

/-! ### Whole runs -/

structure Invariant (s : Overwrite α) : Prop where
  sound : s.shared.Sound dropOldest
  wakes : s.shared.Wakes
  bound : s.shared.state.queue.length ≤ s.capacity
  tally : s.returned.sum + s.unreported = s.shared.evictions
  capacity : 0 < s.capacity
  waiting : s.shared.Waiting

theorem invariant_new (hc : 0 < capacity) : (new capacity : Overwrite α).Invariant where
  sound := sound_new
  wakes := by
    intro hp
    simp [new, Shared.new] at hp
  bound := Nat.zero_le _
  tally := rfl
  capacity := hc
  waiting := .inl rfl

theorem waiting_of_effect {c t : Shared α ℕ} (he : Effect dropOldest c t)
    (h : c.Waiting) : t.Waiting := by
  rcases receiver_of_effect he with heq | ⟨-, ht | hw⟩
  · simpa only [Waiting, heq] using h
  · exact .inl ht
  · exact hw

theorem Invariant.step (h : s.Invariant) (hok : Kept s a)
    (hs : s.step a = some t) : t.Invariant := by
  rcases step_cases hok hs with ⟨c, he, hw, rfl⟩ | ⟨u, hco, hsend⟩
  · obtain ⟨hl, hev⟩ := queue_of_effect he
    exact ⟨h.sound.effect he, hw h.wakes, hl.trans h.bound, h.tally.trans hev.symm, h.capacity,
      waiting_of_effect he h.waiting⟩
  · obtain ⟨hso, hw, hb, hev, hr⟩ := trySendLossy_spec u h.sound hco h.wakes h.capacity h.bound
    have ht := h.tally
    have hwa : (trySendLossy s.shared s.capacity u).2.Waiting := by
      simpa only [Waiting, hr] using h.waiting
    rcases hsend with rfl | ⟨-, rfl⟩
    · refine ⟨hso, hw, hb, ?_, h.capacity, hwa⟩
      cases hd : (trySendLossy s.shared s.capacity u).1 <;>
        simp only [hd, Option.getD_none, Option.getD_some, Option.toList_none,
          Option.toList_some, append_nil, sum_append, sum_singleton] at hev ⊢ <;>
        omega
    · refine ⟨hso, hw, hb, ?_, h.capacity, hwa⟩
      simp only
      omega

theorem keepsSealed_step (hok : Kept s a) (hs : s.step a = some t) :
    KeepsSealed s.shared t.shared := by
  rcases step_cases hok hs with ⟨c, he, -, rfl⟩ | ⟨u, hco, rfl | ⟨-, rfl⟩⟩
  · exact keepsSealed_effect he
  · exact keepsSealed_trySendLossy hco
  · exact keepsSealed_trySendLossy hco

theorem sealed_of_run {rest : List (Action α)} (hr : Run step Kept s rest t) (h : s.shared.Sealed) :
    t.shared.accepted = s.shared.accepted ∧ t.shared.failures = s.shared.failures := by
  induction hr with
  | nil => exact ⟨rfl, rfl⟩
  | cons hok hs _ ih =>
    obtain ⟨hse, ha, hf⟩ := keepsSealed_step hok hs h
    obtain ⟨ha', hf'⟩ := ih hse
    exact ⟨ha'.trans ha, hf'.trans hf⟩

/-! ### Draining -/

def OnReceiver (_ : Overwrite α) (a : Action α) : Prop :=
  a = .shared .cancelRecv ∨ a = .shared .tryRecv

theorem exists_drain {unread : List (SubscriptionEvent α)} {s : Overwrite α}
    (hi : s.shared.receiver = .idle) (hu : s.shared.unread dropOldest = unread) :
    ∃ rest t, Run step OnReceiver s rest t ∧ t.shared.received = s.shared.received ++ unread := by
  induction unread generalizing s with
  | nil => exact ⟨[], s, .nil s, by simp⟩
  | cons ev unread ih =>
    obtain ⟨hrc, hr, hre⟩ := received_receive hu .idle
    have hi' : (s.shared.receive dropOldest .idle).receiver = .idle :=
      hre.elim id id
    obtain ⟨rest, t, hru, heq⟩ :=
      ih (s := { s with shared := s.shared.receive dropOldest .idle }) hi' hr
    refine ⟨_, t, .cons (a := .shared .tryRecv) (.inr rfl) ?_ hru, ?_⟩
    · simp [step, Shared.step, hi]
    · rw [heq, hrc, append_assoc, singleton_append]

theorem Invariant.exists_drain (h : s.Invariant) :
    ∃ rest t, Run Overwrite.step OnReceiver s rest t ∧
      t.shared.received = s.shared.received ++ s.shared.unread dropOldest := by
  rcases h.waiting with hi | hc
  · exact Overwrite.exists_drain hi rfl
  · obtain ⟨rest, t, hr, heq⟩ := Overwrite.exists_drain
      (s := { s with shared := { s.shared with receiver := .idle } }) rfl rfl
    exact ⟨_, t, .cons (a := .shared .cancelRecv) (.inl rfl)
      (by simp [Overwrite.step, Shared.step, hc]) hr, heq⟩

/-! ### The gaps -/

def gapOf : SubscriptionEvent α → ℕ
  | .update _ (some gap) => gap.droppedUpdates
  | _ => 0

theorem gapOf_deliveredEvent {p : List α × α} (h : p.1.length < 2 ^ 64) :
    gapOf (deliveredEvent dropOldest p) = p.1.length := by
  simp only [deliveredEvent, dropOldest, saturate_of_lt h]
  split
  · rename_i hz
    simp [gapOf, hz]
  · rfl

/-- Below saturation the gaps that were delivered and the pending one add up to the
evictions. -/
theorem Invariant.gaps (h : s.Invariant) (hd : ∀ p ∈ s.shared.delivered, p.1.length < 2 ^ 64)
    (he : s.shared.evicted.length < 2 ^ 64) :
    (s.shared.received.map gapOf).sum + s.shared.state.pendingGap = s.shared.evictions := by
  obtain ⟨errs, hr, -, -⟩ := h.sound.received
  have hpe : s.shared.state.pendingGap = s.shared.evicted.length := by
    rw [h.sound.gap]
    exact saturate_of_lt he
  have hg : (s.shared.delivered.map (deliveredEvent dropOldest)).map gapOf =
      s.shared.delivered.map fun p => p.1.length := by
    rw [map_map]
    exact map_congr_left fun p hp => gapOf_deliveredEvent (hd p hp)
  have her : ((errs.map (SubscriptionEvent.error (α := α))).map gapOf).sum = 0 := by
    clear hr
    induction errs with
    | nil => rfl
    | cons e errs ih => simpa [gapOf] using ih
  rw [hr, map_append, sum_append, hg, her, hpe]
  rfl

/-! ### Every interleaving -/

/-- What holds of an overwrite channel at any time. `delivered` pairs each received update with
the accepted ones that were evicted between it and the one received before. -/
structure Exact (capacity : ℕ) (s : Overwrite α) : Prop where
  subsequence : (s.shared.delivered.map Prod.snd).Sublist s.shared.accepted
  order : s.shared.accepted =
    s.shared.delivered.flatMap (fun p => p.1 ++ [p.2]) ++ s.shared.evicted ++ s.shared.state.queue
  bound : s.shared.state.queue.length ≤ capacity
  events : ∃ errors : List BlpError, s.shared.received =
      s.shared.delivered.map (Shared.deliveredEvent dropOldest) ++ errors.map .error ∧
    s.shared.failures = errors ++ s.shared.state.terminalError.toList ∧
    s.shared.failures.length ≤ 1 ∧ (errors ≠ [] → s.shared.state.queue = [])
  returned : s.returned.sum + s.unreported = s.shared.evictions
  gaps : (∀ p ∈ s.shared.delivered, p.1.length < 2 ^ 64) → s.shared.evicted.length < 2 ^ 64 →
    (s.shared.received.map gapOf).sum + s.shared.state.pendingGap = s.shared.evictions
  wakes : s.shared.Wakes

theorem Invariant.exact (h : s.Invariant) : s.Exact s.capacity := by
  obtain ⟨errs, hr, hf, hd⟩ := h.sound.received
  exact
    { subsequence := h.sound.sublist
      order := h.sound.order
      bound := h.bound
      events := ⟨errs, hr, hf, h.sound.once, fun hne => h.sound.drained (hd.mpr hne)⟩
      returned := h.tally
      gaps := h.gaps
      wakes := h.wakes }

variable {acts : List (Action α)}

theorem invariant_of_run (hc : 0 < capacity)
    (h : Run step Kept (new capacity) acts s) : s.Invariant :=
  h.invariant (fun _ _ _ hi hok hs => hi.step hok hs) (invariant_new hc)

theorem capacity_of_run (h : Run step Kept s acts t) :
    t.capacity = s.capacity := by
  induction h with
  | nil => rfl
  | cons hok hs _ ih =>
    obtain ⟨c, -, -, rfl⟩ | ⟨u, -, rfl | ⟨-, rfl⟩⟩ := step_cases hok hs <;> exact ih

/-- No update was sent by a call that does not return what it evicted. -/
def Reported (actions : List (Action α)) : Prop :=
  ∀ update, Action.send (.ok update) ∉ actions

theorem unreported_of_run (h : Run step Kept s acts t)
    (hr : Reported acts) : t.unreported = s.unreported := by
  induction h with
  | nil => rfl
  | cons hok hs _ ih =>
    have ih := ih fun update hm => hr update (mem_cons_of_mem _ hm)
    obtain ⟨c, -, -, rfl⟩ | ⟨u, -, rfl | ⟨rfl, -⟩⟩ := step_cases hok hs
    · exact ih
    · exact ih
    · exact absurd mem_cons_self (hr u)

/-- In every interleaving of sends, receives, failures, closes and sender drops: received
updates, gaps and errors are exact, sends that all return what they evict account for every gap,
nothing is accepted after a close or a failure, and what is retained can be received. -/
theorem exact_of_run {capacity : ℕ} (hcapacity : 0 < capacity) {actions : List (Action α)}
    {s : Overwrite α} (h : Run step Kept (new capacity) actions s) :
    s.Exact capacity ∧
    (Reported actions → s.returned.sum = s.shared.evictions) ∧
    (∀ rest t, Run step Kept s rest t →
      (s.shared.state.receiverClosed = true ∨ s.shared.failures ≠ []) →
      t.shared.accepted = s.shared.accepted ∧ t.shared.failures = s.shared.failures) ∧
    ∃ rest t, Run step OnReceiver s rest t ∧
      t.shared.received = s.shared.received ++ s.shared.unread dropOldest := by
  have hinv := invariant_of_run hcapacity h
  have hcap : s.capacity = capacity := capacity_of_run h
  refine ⟨hcap ▸ hinv.exact, ?_, ?_, hinv.exists_drain⟩
  · intro hreported
    have hzero : s.unreported = 0 := unreported_of_run h hreported
    simpa [hzero] using hinv.tally
  · intro rest t hrun hdone
    apply sealed_of_run hrun
    rcases hdone with hclosed | hfailed
    · exact .inl (by simp [ChannelState.acceptsData, hclosed])
    · exact sealed_of_failures hinv.sound hfailed

/-- A queue of one evicts twice, receives the third update behind a gap of two and then the
error. -/
theorem exact_of_run_gap : ∃ s : Overwrite ℕ, Run step Kept (new 1)
        [.trySendWithEviction 0, .trySendWithEviction 1, .trySendWithEviction 2,
          .shared (.fail .timeout), .shared .tryRecv, .shared .tryRecv] s ∧
      s.Exact 1 ∧ s.shared.accepted = [0, 1, 2] ∧ s.returned.sum = 2 ∧
      s.shared.received = [.update 2 (some ⟨2⟩), .error .timeout] := by
  exact Run.exists_imp (fun _ hrun hend => ⟨(exact_of_run (by decide) hrun).1, hend⟩)
    ⟨_, .of_runActions (by simp [Kept]) rfl, rfl, rfl, rfl⟩

/-- Evictions of `send` and `try_send` are in the gaps and in no returned value. -/
theorem exists_run_unreported_eviction : ∃ s : Overwrite ℕ,
      Run step Kept (new 1) [.send (.ok 0), .send (.ok 1), .shared .tryRecv] s ∧
      s.shared.received = [.update 1 (some ⟨1⟩)] ∧
      s.returned.sum ≠ (s.shared.received.map gapOf).sum + s.shared.state.pendingGap := by
  refine ⟨_, .of_runActions (by simp [Kept]) rfl, rfl, ?_⟩
  decide

end Overwrite

end Xbbg.Channel
