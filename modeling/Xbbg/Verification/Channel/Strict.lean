import Xbbg.Library.Lists
import Xbbg.Verification.Channel.Shared

/-! The strict queue: permits are conserved and nothing that was accepted is lost, in every
interleaving of its senders and its receiver. -/

namespace Xbbg.Channel

namespace Strict

open List Shared

open Library

variable {α : Type*} {s t : Strict α} {c d : Shared α Unit}
variable {sender : ℕ} {op : SendOp α} {item : Except BlpError α} {a : Shared.Action}

def Kept (_ : Strict α) (a : Action α) : Prop :=
  a ≠ .shared .dropReceiver

/-! ### Permits -/

/-- The permit that a receive has not given back yet. -/
def owed (receiver : Receiver) : ℕ :=
  if receiver = .returning then 1 else 0

def held (senders : List (SendOp α)) : ℕ :=
  senders.countP SendOp.holdsPermit

theorem owed_of_waiting (h : c.Waiting) : owed c.receiver = 0 := by
  rcases h with heq | heq | heq <;> simp [owed, heq]

/-- A receive turns the place of a queued update into an owed permit. -/
theorem owed_of_effect (he : Shared.Effect semaphore c d) :
    d.state.queue.length + owed d.receiver = c.state.queue.length + owed c.receiver := by
  cases he with
  | fail e =>
    have hs := sameUpdates_sendTerminal (c := c) e
    rw [hs.queue, hs.receiver]
  | close =>
    have hs := sameUpdates_close (c := c)
    rw [hs.queue, hs.receiver]
  | receive hw hem =>
    rw [owed_of_waiting hw]
    unfold Shared.receive
    split
    · rename_i hq
      simp [hq, owed, semaphore]
    · split
      · simp [owed]
      · split
        · simp [owed]
        · rcases hem with rfl | rfl <;> simp [owed]
  | threads _ _ _ _ _ _ receiver _ hr =>
    rcases hr with rfl | ⟨hw, hn⟩
    · rfl
    · rw [owed_of_waiting hw]
      rcases hn with rfl | rfl <;> simp [owed]

theorem held_set (next : SendOp α) (hg : s.senders[sender]? = some op) :
    held (s.senders.set sender next) + op.holdsPermit.toNat =
      held s.senders + next.holdsPermit.toNat := by
  obtain ⟨front, back, hs, -, hm⟩ := exists_split_of_getElem? hg
  rw [set_eq_modify, hm, hs]
  cases hop : op.holdsPermit <;> cases hn : next.holdsPermit <;>
    simp [held, hop, hn] <;> omega

theorem held_eraseIdx (hg : s.senders[sender]? = some op) :
    held (s.senders.eraseIdx sender) + op.holdsPermit.toNat = held s.senders := by
  obtain ⟨front, back, hs, he, -⟩ := exists_split_of_getElem? hg
  rw [he, hs]
  cases hop : op.holdsPermit
  · simp [held, hop]
  · simp [held, hop]
    omega

/-! ### One step -/

/-- A send that ends without its permit changes nothing but its result. -/
structure Quiet (c d : Shared α Unit) : Prop where
  sound : c.Sound semaphore → d.Sound semaphore
  wakes : c.Wakes → d.Wakes
  same : Shared.SameUpdates c d
  keepsSealed : Shared.KeepsSealed c d

theorem quiet_refl : Quiet c c :=
  ⟨id, id, ⟨rfl, rfl, rfl, rfl, rfl⟩, keepsSealed_of_same id id rfl⟩

theorem quiet_reject (item : Except BlpError α) : Quiet c (c.reject item) :=
  ⟨(·.reject item), id, ⟨rfl, rfl, rfl, rfl, rfl⟩, keepsSealed_reject item⟩

theorem quiet_full (u : α) : Quiet c { c with sent := c.sent ++ [.full u] } := by
  refine ⟨(·.full u), id, ⟨rfl, rfl, rfl, rfl, rfl⟩, fun h => ⟨h, ?_, ?_⟩⟩
  · simp [Shared.accepted, filterMap_cons, Sent.update?]
  · simp [Shared.failures, filterMap_cons, Sent.error?]

theorem quiet_sendTerminal (e : BlpError) : Quiet c (c.sendTerminal e) :=
  ⟨(·.sendTerminal e), (·.sendTerminal e), sameUpdates_sendTerminal e, keepsSealed_sendTerminal e⟩

inductive Stepped (s : Strict α) : Strict α → Prop where
  | shared {act : Shared.Action} {d : Shared α Unit} (slotsClosed : Bool) (hok : Shared.Kept act)
      (hd : s.shared.step semaphore act = some d)
      (hl : act = .dropSender → s.shared.senderCount = 1 → s.senders = []) :
      Stepped s { s with shared := d, slotsClosed }
  | begin {op : SendOp α} (hc : s.shared.senderCount ≠ 0) (hop : op.holdsPermit = false) :
      Stepped s { s with senders := s.senders ++ [op] }
  | reject (item : Except BlpError α) : Stepped s { s with shared := s.shared.reject item }
  | finish {i : ℕ} {op : SendOp α} {d : Shared α Unit} (hg : s.senders[i]? = some op)
      (hop : op.holdsPermit = false) (hq : Quiet s.shared d) : Stepped s (s.finish i d)
  | hold {i n : ℕ} {op : SendOp α} {u : α} (hg : s.senders[i]? = some op)
      (hop : op.holdsPermit = false) (hp : s.permits = n + 1) :
      Stepped s { s with permits := n, senders := s.senders.set i (.holding u) }
  | push {i : ℕ} {u : α} (hg : s.senders[i]? = some (.holding u))
      (ha : s.shared.state.acceptsData = true) : Stepped s (s.finish i (s.shared.pushBack u))
  | refuse {i : ℕ} {u : α} (hg : s.senders[i]? = some (.holding u)) : Stepped s { s with
      shared := s.shared.reject (.ok u), senders := s.senders.set i .releasing }
  | release {i : ℕ} (hg : s.senders[i]? = some .releasing) : Stepped s { s with
      permits := s.permits + 1, senders := s.senders.eraseIdx i }
  | addPermit (hr : s.shared.receiver = .returning) : Stepped s { s with
      shared := { s.shared with receiver := .idle }, permits := s.permits + 1 }

theorem stepped_shared (hok : Shared.Kept a) (hs : s.step (.shared a) = some t) : Stepped s t := by
  cases a with
  | dropSender =>
    obtain ⟨hl, hs⟩ := Option.ite_none_left_eq_some.mp hs
    obtain ⟨d, hd, rfl⟩ := Option.map_eq_some_iff.mp hs
    exact .shared _ hok hd fun _ ho => by simpa [ho] using hl
  | closeSlots =>
    obtain ⟨d, hd, rfl⟩ := Option.map_eq_some_iff.mp hs
    exact .shared true hok hd (by simp)
  | fail | close =>
    cases hs
    exact .shared _ hok rfl (by simp)
  | cloneSender | finishDrop | notifyOne | recv | poll | wake | cancelRecv | tryRecv
    | dropReceiver =>
    obtain ⟨d, hd, rfl⟩ := Option.map_eq_some_iff.mp hs
    exact .shared _ hok hd (by simp)

theorem stepped_begin (hop : op.holdsPermit = false) (hs : s.begin item op = some t) :
    Stepped s t := by
  obtain ⟨hc, hs⟩ := Option.ite_none_left_eq_some.mp hs
  split at hs <;> cases hs
  · exact .begin hc hop
  · exact .reject item

theorem stepped_acquire (hs : s.acquire sender = some t) : Stepped s t := by
  unfold Strict.acquire at hs
  split at hs
  · rename_i u hg
    split at hs
    · cases hs
      exact .finish hg rfl (quiet_reject _)
    · split at hs
      · simp at hs
      · rename_i n hp
        cases hs
        exact .hold hg rfl hp
  · simp at hs

theorem stepped_tryAcquire (hs : s.tryAcquire sender = some t) : Stepped s t := by
  unfold Strict.tryAcquire at hs
  split at hs
  · rename_i u hg
    split at hs
    · cases hs
      exact .finish hg rfl (quiet_reject _)
    · split at hs
      · split at hs
        · cases hs
          exact .finish hg rfl (quiet_full u)
        · cases hs
          exact .finish hg rfl (quiet_reject _)
      · rename_i n hp
        cases hs
        exact .hold hg rfl hp
  · simp at hs

theorem stepped_push (hs : s.push sender = some t) : Stepped s t := by
  unfold Strict.push at hs
  split at hs
  · rename_i u hg
    split at hs
    · rename_i ha
      cases hs
      exact .push hg ha
    · cases hs
      exact .refuse hg
  · simp at hs

theorem stepped_of_step {a : Action α} (hok : Kept s a) (hs : s.step a = some t) :
    Stepped s t := by
  cases a with
  | shared act => exact stepped_shared (fun heq => hok (heq ▸ rfl)) hs
  | send item | trySend item => cases item <;> exact stepped_begin rfl hs
  | acquire sender => exact stepped_acquire hs
  | tryAcquire sender => exact stepped_tryAcquire hs
  | push sender => exact stepped_push hs
  | release sender =>
    simp only [step] at hs
    split at hs <;> cases hs
    rename_i hg
    exact .release hg
  | sendTerminal sender =>
    simp only [step] at hs
    split at hs <;> cases hs
    rename_i e hg
    exact .finish hg rfl (quiet_sendTerminal e)
  | cancelSend sender =>
    simp only [step] at hs
    split at hs <;> cases hs
    rename_i u hg
    exact .finish hg rfl quiet_refl
  | addPermit =>
    obtain ⟨hr, hs⟩ := Option.ite_none_right_eq_some.mp hs
    cases hs
    exact .addPermit hr

/-! ### The invariant -/

/-- A send borrows its sender. -/
def Borrowed (s : Strict α) : Prop :=
  s.senders ≠ [] → s.shared.senderCount ≠ 0

/-- `permits` says that the capacity is free, held by a sender, used by a queued update or owed
by the receiver. -/
structure Invariant (s : Strict α) : Prop where
  sound : s.shared.Sound semaphore
  wakes : s.shared.Wakes
  permits : s.permits + held s.senders + s.shared.state.queue.length + owed s.shared.receiver =
    s.capacity
  borrowed : s.Borrowed
  kept : s.shared.receiver ≠ .dropped
  evicted : s.shared.evicted = [] ∧ ∀ p ∈ s.shared.delivered, p.1 = []

theorem invariant_new (cap : ℕ) : (new cap : Strict α).Invariant where
  sound := Shared.sound_new
  wakes := by
    intro hp
    simp [new, Shared.new] at hp
  permits := rfl
  borrowed := fun h => absurd rfl h
  kept := by simp [new, Shared.new]
  evicted := ⟨rfl, by simp [new, Shared.new]⟩

theorem senderCount_of_get (h : s.Invariant) (hg : s.senders[sender]? = some op) :
    s.shared.senderCount ≠ 0 :=
  h.borrowed (ne_nil_of_mem (mem_of_getElem? hg))

theorem evicted_of_effect (he : Shared.Effect semaphore c d)
    (h : c.evicted = [] ∧ ∀ p ∈ c.delivered, p.1 = []) :
    d.evicted = [] ∧ ∀ p ∈ d.delivered, p.1 = [] := by
  cases he with
  | fail e =>
    have hs := sameUpdates_sendTerminal (c := c) e
    rwa [hs.evicted, hs.delivered]
  | close =>
    have hs := sameUpdates_close (c := c)
    rwa [hs.evicted, hs.delivered]
  | receive _ _ =>
    unfold Shared.receive
    split
    · refine ⟨rfl, ?_⟩
      intro p hp
      rcases mem_snoc.mp hp with hp | rfl
      · exact h.2 p hp
      · exact h.1
    · split
      · exact h
      · split <;> exact h
  | threads => exact h

theorem kept_of_effect (he : Shared.Effect semaphore c d) (h : c.receiver ≠ .dropped) :
    d.receiver ≠ .dropped := by
  rcases receiver_of_effect he with heq | ⟨-, ht | hw⟩
  · rwa [heq]
  · rw [ht]
    decide
  · rcases hw with heq | heq | heq <;> simp [heq]

theorem Invariant.effect (h : s.Invariant) (he : Shared.Effect semaphore s.shared d)
    (hw : d.Wakes) (hc : s.senders ≠ [] → d.senderCount ≠ 0) (slotsClosed : Bool) :
    { s with shared := d, slotsClosed := slotsClosed }.Invariant := by
  refine ⟨h.sound.effect he, hw, ?_, hc, kept_of_effect he h.kept, evicted_of_effect he h.evicted⟩
  have hp := h.permits
  have ho := owed_of_effect he
  simp only
  omega

/-- A send that ends without its permit: nothing but its result changes. -/
theorem Invariant.finish (h : s.Invariant) (hg : s.senders[sender]? = some op)
    (hop : op.holdsPermit = false) (hq : Quiet s.shared d) : (s.finish sender d).Invariant := by
  have he := held_eraseIdx hg
  have hs := hq.same
  refine ⟨hq.sound h.sound, hq.wakes h.wakes, ?_, ?_, ?_, ?_⟩
  · simpa [Strict.finish, hs.queue, hs.receiver, hop, ← he] using h.permits
  · intro _
    simpa [Strict.finish, hs.senderCount] using senderCount_of_get h hg
  · simpa [Strict.finish, hs.receiver] using h.kept
  · simpa [Strict.finish, hs.evicted, hs.delivered] using h.evicted

theorem Invariant.hold (h : s.Invariant) {n : ℕ} {u : α} (hg : s.senders[sender]? = some op)
    (hop : op.holdsPermit = false) (hp : s.permits = n + 1) :
    { s with permits := n, senders := s.senders.set sender (.holding u) }.Invariant := by
  have hs := held_set (.holding u) hg
  have hb := h.permits
  have hc := senderCount_of_get h hg
  refine ⟨h.sound, h.wakes, ?_, fun _ => hc, h.kept, h.evicted⟩
  rw [hop] at hs
  simp only [SendOp.holdsPermit, Bool.toNat_false, Bool.toNat_true] at hs ⊢
  omega

theorem Invariant.push (h : s.Invariant) {u : α} (hg : s.senders[sender]? = some (.holding u))
    (ha : s.shared.state.acceptsData = true) :
    (s.finish sender (s.shared.pushBack u)).Invariant := by
  have hb := h.permits
  have hc := senderCount_of_get h hg
  have he := held_eraseIdx hg
  refine ⟨h.sound.pushBack u ha hc, wakes_pushBack _ _, ?_, fun _ => hc, h.kept, h.evicted⟩
  simp only [Strict.finish, Shared.pushBack, length_append, length_singleton,
    SendOp.holdsPermit, Bool.toNat_true] at he ⊢
  omega

theorem senderCount_of_step (hl : a = .dropSender → c.senderCount ≠ 1)
    (hs : c.step semaphore a = some d) (hc : c.senderCount ≠ 0) : d.senderCount ≠ 0 := by
  cases a with
  | dropSender =>
    simp only [Shared.step] at hs
    split at hs
    · simp at hs
    · rename_i ho
      exact absurd ho (hl rfl)
    · cases hs
      exact Nat.succ_ne_zero _
  | fail e =>
    cases hs
    rwa [(sameUpdates_sendTerminal e).senderCount]
  | close =>
    cases hs
    rwa [sameUpdates_close.senderCount]
  | poll | tryRecv =>
    obtain ⟨-, hs⟩ := Option.ite_none_right_eq_some.mp hs
    cases hs
    rwa [senderCount_receive]
  | cloneSender =>
    obtain ⟨-, hs⟩ := Option.ite_none_right_eq_some.mp hs
    cases hs
    exact Nat.succ_ne_zero _
  | finishDrop | closeSlots | notifyOne =>
    simp only [Shared.step] at hs
    split at hs
    · simp at hs
    · cases hs
      exact hc
  | recv | wake | cancelRecv | dropReceiver =>
    obtain ⟨-, hs⟩ := Option.ite_none_right_eq_some.mp hs
    cases hs
    exact hc

theorem Invariant.step (h : s.Invariant) {a : Action α} (hok : Kept s a)
    (hs : s.step a = some t) : t.Invariant := by
  have hb := h.permits
  cases stepped_of_step hok hs with
  | shared slotsClosed hk hd hl =>
    refine h.effect (effect_of_step hk hd) (h.wakes.step (by decide) hd) ?_ slotsClosed
    intro hse
    exact senderCount_of_step (fun heq ho => hse (hl heq ho)) hd (h.borrowed hse)
  | begin hc hop =>
    refine ⟨h.sound, h.wakes, ?_, fun _ => hc, h.kept, h.evicted⟩
    simpa [held, hop] using hb
  | reject item => exact ⟨h.sound.reject item, h.wakes, hb, h.borrowed, h.kept, h.evicted⟩
  | finish hg hop hq => exact h.finish hg hop hq
  | hold hg hop hp => exact h.hold hg hop hp
  | push hg ha => exact h.push hg ha
  | refuse hg =>
    have hse := held_set .releasing hg
    have hc := senderCount_of_get h hg
    refine ⟨h.sound.reject _, h.wakes, ?_, fun _ => hc, h.kept, h.evicted⟩
    simp only [Shared.reject, SendOp.holdsPermit, Bool.toNat_true] at hse ⊢
    omega
  | release hg =>
    have he := held_eraseIdx hg
    have hc := senderCount_of_get h hg
    refine ⟨h.sound, h.wakes, ?_, fun _ => hc, h.kept, h.evicted⟩
    simp only [SendOp.holdsPermit, Bool.toNat_true] at he ⊢
    omega
  | addPermit hr =>
    have hso : Shared.Sound semaphore { s.shared with receiver := .idle } :=
      ⟨h.sound.order, h.sound.gap, h.sound.received, h.sound.once, h.sound.drained, h.sound.ended⟩
    refine ⟨hso, fun hp => ?_, ?_, h.borrowed, by simp, h.evicted⟩
    · simp at hp
    · simp only [owed, hr] at hb ⊢
      simp at hb ⊢
      omega

theorem invariant_of_run {cap : ℕ} {acts : List (Action α)}
    (h : Run step Kept (new cap) acts s) : s.Invariant :=
  h.invariant (fun _ _ _ hi hok hs => hi.step hok hs) (invariant_new cap)

theorem capacity_of_run {acts : List (Action α)} (h : Run step Kept s acts t) :
    t.capacity = s.capacity := by
  induction h with
  | nil => rfl
  | cons hok hs _ ih => cases stepped_of_step hok hs <;> exact ih

/-! ### A sealed channel -/

/-- A sender that got its permit before the channel was sealed is rejected under the lock. -/
theorem keepsSealed_step (h : s.Invariant) {a : Action α} (hok : Kept s a)
    (hs : s.step a = some t) : Shared.KeepsSealed s.shared t.shared := by
  cases stepped_of_step hok hs with
  | shared _ hk hd => exact keepsSealed_effect (effect_of_step hk hd)
  | begin | hold | release => exact quiet_refl.keepsSealed
  | reject | refuse => exact keepsSealed_reject _
  | finish _ _ hq => exact hq.keepsSealed
  | push hg ha =>
    intro hse
    simp [Shared.Sealed, ha, senderCount_of_get h hg] at hse
  | addPermit => exact keepsSealed_of_same id id rfl

theorem sealed_of_run (h : s.Invariant) {rest : List (Action α)} (hr : Run step Kept s rest t)
    (hse : s.shared.Sealed) :
    t.shared.accepted = s.shared.accepted ∧ t.shared.failures = s.shared.failures := by
  induction hr with
  | nil => exact ⟨rfl, rfl⟩
  | cons hok hs _ ih =>
    obtain ⟨hn, ha, hf⟩ := keepsSealed_step h hok hs hse
    obtain ⟨ha', hf'⟩ := ih (h.step hok hs) hn
    exact ⟨ha'.trans ha, hf'.trans hf⟩

/-! ### Draining -/

def OnReceiver (_ : Strict α) (a : Action α) : Prop :=
  a = .shared .cancelRecv ∨ a = .shared .tryRecv ∨ a = .addPermit

theorem exists_returned (hr : s.shared.receiver = .idle ∨ s.shared.receiver = .returning) :
    ∃ rest t, Run step OnReceiver s rest t ∧ t.shared.receiver = .idle ∧
      t.shared.received = s.shared.received ∧
      t.shared.unread semaphore = s.shared.unread semaphore := by
  rcases hr with hi | hre
  · exact ⟨[], s, .nil s, hi, rfl, rfl⟩
  · exact ⟨[.addPermit], _, .cons (.inr (.inr rfl)) (if_pos hre) (.nil _), rfl, rfl, rfl⟩

theorem exists_drain {unread : List (SubscriptionEvent α)} {s : Strict α}
    (hi : s.shared.receiver = .idle) (hu : s.shared.unread semaphore = unread) :
    ∃ rest t, Run step OnReceiver s rest t ∧ t.shared.received = s.shared.received ++ unread := by
  induction unread generalizing s with
  | nil => exact ⟨[], s, .nil s, by simp⟩
  | cons ev unread ih =>
    obtain ⟨hr, hre, hrc⟩ := received_receive hu .idle
    obtain ⟨back, u, hb, hi', hr', hu'⟩ :=
      exists_returned (s := { s with shared := s.shared.receive semaphore .idle }) hrc
    obtain ⟨rest, t, hru, heq⟩ := ih hi' (hu'.trans hre)
    refine ⟨_, t, .cons (a := .shared .tryRecv) (.inr (.inl rfl)) ?_ (hb.append hru), ?_⟩
    · simp [step, Shared.step, hi]
    · rw [heq, hr', hr, append_assoc, singleton_append]

theorem Invariant.exists_drain (h : s.Invariant) : ∃ rest t, Run Strict.step OnReceiver s rest t ∧
      t.shared.received = s.shared.received ++ s.shared.unread semaphore := by
  cases hr : s.shared.receiver with
  | idle => exact Strict.exists_drain hr rfl
  | dropped => exact absurd hr h.kept
  | returning =>
    obtain ⟨back, u, hb, hi, hre, hu⟩ := exists_returned (.inr hr)
    obtain ⟨rest, t, hru, heq⟩ := Strict.exists_drain hi hu
    exact ⟨_, t, hb.append hru, heq.trans (by rw [hre])⟩
  | polling | parked =>
    obtain ⟨rest, t, hru, heq⟩ := Strict.exists_drain
      (s := { s with shared := { s.shared with receiver := .idle } }) rfl rfl
    exact ⟨_, t, .cons (a := .shared .cancelRecv) (.inl rfl)
      (by simp [Strict.step, Shared.step, hr]) hru, heq⟩

/-! ### Every interleaving -/

structure Exact (capacity : ℕ) (s : Strict α) : Prop where
  permits : s.permits + held s.senders + s.shared.state.queue.length + owed s.shared.receiver =
    capacity
  events : ∃ (updates : List α) (errors : List BlpError),
    s.shared.received = updates.map (.update · none) ++ errors.map .error ∧
    s.shared.accepted = updates ++ s.shared.state.queue ∧
    s.shared.failures = errors ++ s.shared.state.terminalError.toList ∧
    s.shared.failures.length ≤ 1 ∧ (errors ≠ [] → s.shared.state.queue = [])
  ended : s.shared.ended = true →
    s.shared.state.queue = [] ∧ s.shared.state.terminalError = none ∧ s.shared.Sealed
  wakes : s.shared.Wakes

theorem flatMap_of_nil {blocks : List (List α × α)} (h : ∀ p ∈ blocks, p.1 = []) :
    blocks.flatMap (fun p => p.1 ++ [p.2]) = blocks.map Prod.snd := by
  induction blocks with
  | nil => rfl
  | cons p blocks ih =>
    rw [flatMap_cons, map_cons, h p mem_cons_self, ih fun p' hp' => h p' (mem_cons_of_mem p hp')]
    rfl

theorem Invariant.exact (h : s.Invariant) : s.Exact s.capacity := by
  obtain ⟨errs, hr, hf, hd⟩ := h.sound.received
  refine ⟨h.permits, ⟨s.shared.delivered.map Prod.snd, errs, ?_, ?_, hf, h.sound.once,
    fun hne => h.sound.drained (hd.mpr hne)⟩, h.sound.ended, h.wakes⟩
  · rw [hr, map_map]
    rfl
  · rw [h.sound.order, h.evicted.1, flatMap_of_nil h.evicted.2, append_nil]

/-- In every interleaving of sends, receives, failures, closes, sender clones and drops: permits
are conserved, what is accepted is received in order and once with the error behind it, nothing
is accepted after a failure, a close or the last sender, and what is retained can be received. -/
theorem exact_of_run_strict {capacity : ℕ} {actions : List (Action α)} {s : Strict α}
    (h : Run step Kept (new capacity) actions s) :
    s.Exact capacity ∧
    (∀ rest t, Run step Kept s rest t →
      (s.shared.state.receiverClosed = true ∨ s.shared.failures ≠ [] ∨ s.shared.senderCount = 0) →
      t.shared.accepted = s.shared.accepted ∧ t.shared.failures = s.shared.failures) ∧
    ∃ rest t, Run step OnReceiver s rest t ∧ t.shared.received = s.shared.received ++
        s.shared.state.queue.map (.update · none) ++
        s.shared.state.terminalError.toList.map .error := by
  have hinv := invariant_of_run h
  have hcap : s.capacity = capacity := capacity_of_run h
  refine ⟨hcap ▸ hinv.exact, ?_, ?_⟩
  · intro rest t hrun hdone
    apply sealed_of_run hinv hrun
    rcases hdone with hclosed | hfailed | hcount
    · exact .inl (by simp [ChannelState.acceptsData, hclosed])
    · exact sealed_of_failures hinv.sound hfailed
    · exact .inr hcount
  · obtain ⟨rest, t, hrun, heq⟩ := hinv.exists_drain
    refine ⟨rest, t, hrun, heq.trans ?_⟩
    rw [List.append_assoc]
    cases hqueue : s.shared.state.queue <;> simp [Shared.unread, hqueue, semaphore]

/-- A sender that holds a permit when the channel fails is rejected and gives its permit back;
the update before the failure is received, then the error. -/
theorem exact_of_run_strict_failed : ∃ s : Strict ℕ, Run step Kept (new 2)
        [.trySend (.ok 0), .tryAcquire 0, .push 0, .send (.ok 1), .acquire 0,
          .shared (.fail .timeout), .push 0, .release 0, .shared .tryRecv, .addPermit,
          .shared .tryRecv] s ∧
      s.Exact 2 ∧ s.permits = 2 ∧ s.shared.accepted = [0] ∧
      s.shared.received = [.update 0 none, .error .timeout] := by
  exact Run.exists_imp (fun _ hrun hend => ⟨(exact_of_run_strict hrun).1, hend⟩)
    ⟨_, .of_runActions (by simp [Kept]) rfl, rfl, rfl, rfl⟩

end Strict

end Xbbg.Channel
