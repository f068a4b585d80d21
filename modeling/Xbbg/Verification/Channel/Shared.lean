import Xbbg.Library.Machine
import Xbbg.Model.Channel
import Mathlib.Algebra.GroupWithZero.Nat

/-! What the two kinds of channel share: the order of updates, the one terminal error behind
them, the end of the stream, and the wake-ups of the receiver. -/

namespace Xbbg.Channel

namespace Shared

open List Library Shared Option ChannelState

variable {α γ : Type*} {q : QueueStrategy γ} {c t : Shared α γ}

/-! ### Updates and the terminal error -/

@[simp] theorem accepted_reject (x : Except BlpError α) : (c.reject x).accepted = c.accepted := by
  simp [accepted, reject, filterMap_cons, Sent.update?]

@[simp] theorem failures_reject (x : Except BlpError α) : (c.reject x).failures = c.failures := by
  simp [failures, reject, filterMap_cons, Sent.error?]

@[simp] theorem accepted_pushBack (u : α) : (c.pushBack u).accepted = c.accepted ++ [u] := by
  simp [accepted, pushBack, Sent.update?]

@[simp] theorem failures_pushBack (u : α) : (c.pushBack u).failures = c.failures := by
  simp [failures, pushBack, filterMap_cons, Sent.error?]

/-- The two differ neither in their updates nor in their senders and receiver. -/
structure SameUpdates (c d : Shared α γ) : Prop where
  queue : d.state.queue = c.state.queue
  senderCount : d.senderCount = c.senderCount
  receiver : d.receiver = c.receiver
  evicted : d.evicted = c.evicted
  delivered : d.delivered = c.delivered

theorem sameUpdates_sendTerminal (e : BlpError) : SameUpdates c (c.sendTerminal e) := by
  unfold sendTerminal
  split <;> exact ⟨rfl, rfl, rfl, rfl, rfl⟩

theorem sameUpdates_close : SameUpdates c c.close := by
  unfold close
  split <;> exact ⟨rfl, rfl, rfl, rfl, rfl⟩

/-- No update and no error is accepted any more. -/
def Sealed (c : Shared α γ) : Prop :=
  c.state.acceptsData = false ∨ c.senderCount = 0

/-- The event of an update that was received after a block of evicted ones. -/
def deliveredEvent (q : QueueStrategy γ) (p : List α × α) : SubscriptionEvent α :=
  .update p.2 (q.gap (q.count p.1.length))

/-- Every accepted update was received, evicted before one that was received, evicted since or
is in the queue. The error comes after all of them. -/
structure Sound (q : QueueStrategy γ) (c : Shared α γ) : Prop where
  order : c.accepted = c.delivered.flatMap (fun p => p.1 ++ [p.2]) ++ c.evicted ++ c.state.queue
  gap : c.state.pendingGap = q.count c.evicted.length
  received : ∃ errors : List BlpError,
    c.received = c.delivered.map (deliveredEvent q) ++ errors.map .error ∧
    c.failures = errors ++ c.state.terminalError.toList ∧
    (c.state.terminalDelivered = true ↔ errors ≠ [])
  once : c.failures.length ≤ 1
  drained : c.state.terminalDelivered = true → c.state.queue = []
  ended : c.ended = true → c.state.queue = [] ∧ c.state.terminalError = none ∧ c.Sealed

theorem sound_new : (new q : Shared α γ).Sound q := by
  refine ⟨rfl, rfl, ⟨[], rfl, rfl, ?_⟩, Nat.zero_le _, ?_, ?_⟩
  · simp [new]
  · simp [new]
  · simp [new]

theorem acceptsData_iff (st : ChannelState α γ) : st.acceptsData = true ↔
      st.receiverClosed = false ∧ st.terminalError = none ∧ st.terminalDelivered = false := by
  simp [acceptsData, and_assoc]

section

variable (h : c.Sound q)
include h

theorem sealed_of_failures (hf : c.failures ≠ []) : c.Sealed := by
  obtain ⟨errs, -, heq, hd⟩ := h.received
  apply Or.inl
  by_contra hacc
  obtain ⟨-, hn, hno⟩ := (acceptsData_iff c.state).mp (by simpa using hacc)
  have hni : errs = [] := by
    by_contra hne
    simp [hd.mpr hne] at hno
  simp [hni, hn] at heq
  exact hf heq

theorem Sound.reject (x : Except BlpError α) : (c.reject x).Sound q := by
  refine ⟨?_, h.gap, ?_, ?_, h.drained, h.ended⟩
  · rw [accepted_reject]
    exact h.order
  · rw [failures_reject]
    exact h.received
  · rw [failures_reject]
    exact h.once

theorem Sound.full (u : α) : { c with sent := c.sent ++ [.full u] : Shared α γ }.Sound q := by
  refine ⟨?_, h.gap, ?_, ?_, h.drained, h.ended⟩
  · simpa [accepted, filterMap_cons, Sent.update?] using h.order
  · simpa [failures, filterMap_cons, Sent.error?] using h.received
  · simpa [failures, filterMap_cons, Sent.error?] using h.once

theorem Sound.sendTerminal (e : BlpError) : (c.sendTerminal e).Sound q := by
  unfold Shared.sendTerminal
  split
  · exact h.reject _
  · rename_i ho
    obtain ⟨hc, ha⟩ : c.senderCount ≠ 0 ∧ c.state.acceptsData = true := by
      simpa using ho
    obtain ⟨-, hno, hnt⟩ := (acceptsData_iff c.state).mp ha
    obtain ⟨errs, hr, hf, hd⟩ := h.received
    obtain rfl : errs = [] := by simpa [hnt] using hd
    have hn : c.failures = [] := by simpa [hno] using hf
    have hs : c.failures ++ [e] = [e] := by rw [hn, nil_append]
    refine ⟨?_, h.gap, ⟨[], hr, ?_, hd⟩, ?_, h.drained, ?_⟩
    · simpa [accepted, filterMap_cons, Sent.update?] using h.order
    · simpa [failures, filterMap_cons, Sent.error?] using hs
    · simpa [failures, filterMap_cons, Sent.error?] using hn
    · intro he
      obtain ⟨-, -, hse⟩ := h.ended he
      simp [Sealed, ha, hc] at hse

theorem Sound.close : c.close.Sound q := by
  unfold Shared.close
  split
  · exact h
  · refine ⟨h.order, h.gap, h.received, h.once, h.drained, ?_⟩
    intro he
    obtain ⟨hq, hn, -⟩ := h.ended he
    exact ⟨hq, hn, .inl (by simp [acceptsData])⟩

theorem Sound.pushBack (u : α) (ha : c.state.acceptsData = true) (hc : c.senderCount ≠ 0) :
    (c.pushBack u).Sound q := by
  obtain ⟨-, -, hn⟩ := (acceptsData_iff c.state).mp ha
  refine ⟨?_, h.gap, ?_, ?_, ?_, ?_⟩
  · rw [accepted_pushBack, h.order]
    simp [Shared.pushBack]
  · rw [failures_pushBack]
    exact h.received
  · rw [failures_pushBack]
    exact h.once
  · intro hd
    simp [Shared.pushBack, hn] at hd
  · intro he
    obtain ⟨-, -, hs⟩ := h.ended he
    simp [Sealed, ha, hc] at hs

theorem Sound.evict {oldest : α} {rest : List α} (hq : c.state.queue = oldest :: rest) {gap : γ}
    (hg : gap = q.count (c.evicted.length + 1)) :
    { c with
      state := { c.state with queue := rest, pendingGap := gap }
      evicted := c.evicted ++ [oldest] : Shared α γ }.Sound q := by
  refine ⟨?_, ?_, h.received, h.once, ?_, ?_⟩
  · have ho := h.order
    rw [hq] at ho
    simpa [accepted] using ho
  · simpa using hg
  · intro hd
    simp [h.drained hd] at hq
  · intro he
    simp [(h.ended he).1] at hq

theorem Sound.receive (empty : Receiver) : (c.receive q empty).Sound q := by
  obtain ⟨errs, hr, hf, hde⟩ := h.received
  unfold Shared.receive
  split
  · rename_i u rest hq
    -- An update is received before the error only.
    have hn : c.state.terminalDelivered = false := by
      by_contra hd
      simp [h.drained (by simpa using hd)] at hq
    obtain rfl : errs = [] := by simpa [hn] using hde
    refine ⟨?_, rfl, ⟨[], ?_, hf, hde⟩, h.once, ?_, ?_⟩
    · have ho := h.order
      rw [hq] at ho
      simpa [accepted] using ho
    · simp [hr, deliveredEvent, h.gap]
    · simp [hn]
    · intro he
      simp [(h.ended he).1] at hq
  · rename_i hq
    split
    · rename_i e her
      have hs := h.once
      rw [hf, her] at hs
      obtain rfl : errs = [] := by
        apply length_eq_zero_iff.mp
        simp only [length_append, toList_some, length_singleton] at hs
        omega
      refine ⟨h.order, h.gap, ⟨[e], ?_, ?_, by simp⟩, h.once, fun _ => hq, ?_⟩
      · simpa using hr
      · simpa [failures, her] using hf
      · intro he
        simp [(h.ended he).2.1] at her
    · rename_i hno
      split
      · rename_i hd
        refine ⟨h.order, h.gap, h.received, h.once, h.drained, fun _ => ⟨hq, hno, ?_⟩⟩
        rcases hd with hc | ht | hco
        · exact .inl (by simp [acceptsData, hc])
        · exact .inl (by simp [acceptsData, ht])
        · exact .inr hco
      · exact ⟨h.order, h.gap, h.received, h.once, h.drained, h.ended⟩

end

/-! ### What a step can do -/

def Kept (a : Action) : Prop :=
  a ≠ .dropReceiver

/-- The receiver is in no call, or in one that has not received anything yet. -/
def Waiting (c : Shared α γ) : Prop :=
  c.receiver = .idle ∨ c.receiver = .polling ∨ c.receiver = .parked

/-- A step that does not fail, close or receive changes what the threads outside the lock see
only, and no sender comes back after the last. -/
inductive Effect (q : QueueStrategy γ) (c : Shared α γ) : Shared α γ → Prop where
  | fail (error : BlpError) : Effect q c (c.sendTerminal error)
  | close : Effect q c c.close
  | receive {empty : Receiver} : c.Waiting → empty = .idle ∨ empty = .parked →
      Effect q c (c.receive q empty)
  | threads (accepting ready : Bool) (senderCount closing leaving notifying : ℕ)
      (receiver : Receiver) : (c.senderCount = 0 → senderCount = 0) →
      receiver = c.receiver ∨ c.Waiting ∧ (receiver = .idle ∨ receiver = .polling) →
      Effect q c
        { c with
          accepting := accepting
          ready := ready
          senderCount := senderCount
          closing := closing
          leaving := leaving
          notifying := notifying
          receiver := receiver }

theorem effect_of_step {a : Action} (hok : Kept a) (hs : c.step q a = some t) :
    Effect q c t := by
  cases a with
  | fail e =>
    cases hs
    exact .fail e
  | close =>
    cases hs
    exact .close
  | poll =>
    obtain ⟨hp, hs⟩ := ite_none_right_eq_some.mp hs
    cases hs
    exact .receive (.inr (.inl hp)) (.inr rfl)
  | tryRecv =>
    obtain ⟨hi, hs⟩ := ite_none_right_eq_some.mp hs
    cases hs
    exact .receive (.inl hi) (.inl rfl)
  | dropReceiver => exact absurd rfl hok
  | cloneSender =>
    obtain ⟨hpo, hs⟩ := ite_none_right_eq_some.mp hs
    cases hs
    exact .threads _ _ _ _ _ _ _ (by omega) (.inl rfl)
  | dropSender =>
    simp only [step] at hs
    split at hs
    · simp at hs
    · cases hs
      exact .threads _ _ _ _ _ _ _ (fun _ => rfl) (.inl rfl)
    · cases hs
      exact .threads _ _ _ _ _ _ _ (by omega) (.inl rfl)
  | finishDrop | closeSlots | notifyOne =>
    simp only [step] at hs
    split at hs
    · simp at hs
    · cases hs
      exact .threads _ _ _ _ _ _ _ id (.inl rfl)
  | recv =>
    obtain ⟨hi, hs⟩ := ite_none_right_eq_some.mp hs
    cases hs
    exact .threads _ _ _ _ _ _ _ id (.inr ⟨.inl hi, .inr rfl⟩)
  | wake =>
    obtain ⟨hpa, hs⟩ := ite_none_right_eq_some.mp hs
    cases hs
    exact .threads _ _ _ _ _ _ _ id (.inr ⟨.inr (.inr hpa.1), .inr rfl⟩)
  | cancelRecv =>
    obtain ⟨hw, hs⟩ := ite_none_right_eq_some.mp hs
    cases hs
    exact .threads _ _ _ _ _ _ _ id (.inr ⟨.inr hw, .inl rfl⟩)

theorem Sound.effect (h : c.Sound q) (he : Effect q c t) : t.Sound q := by
  cases he with
  | fail e => exact h.sendTerminal e
  | close => exact h.close
  | receive _ _ => exact h.receive _
  | threads _ _ _ _ _ _ _ hc _ =>
    refine ⟨h.order, h.gap, h.received, h.once, h.drained, ?_⟩
    intro hen
    obtain ⟨hq, hn, hs⟩ := h.ended hen
    exact ⟨hq, hn, hs.imp id hc⟩

/-- The receiver stays where it is, takes an update, or waits before and after. -/
theorem receiver_of_effect (he : Effect q c t) :
    t.receiver = c.receiver ∨ c.Waiting ∧ (t.receiver = q.taken ∨ t.Waiting) := by
  cases he with
  | fail e => exact .inl (sameUpdates_sendTerminal e).receiver
  | close => exact .inl sameUpdates_close.receiver
  | receive hw hem =>
    refine .inr ⟨hw, ?_⟩
    unfold receive
    split
    · exact .inl rfl
    · split
      · exact .inr (.inl rfl)
      · split
        · exact .inr (.inl rfl)
        · exact .inr (hem.imp id .inr)
  | threads _ _ _ _ _ _ _ _ hr =>
    rcases hr with heq | ⟨hw, hn⟩
    · exact .inl heq
    · exact .inr ⟨hw, .inr (hn.imp id .inl)⟩

/-! ### A sealed channel -/

/-- A step of a sealed channel keeps it sealed and accepts nothing. -/
def KeepsSealed (c t : Shared α γ) : Prop :=
  c.Sealed → t.Sealed ∧ t.accepted = c.accepted ∧ t.failures = c.failures

theorem keepsSealed_of_same (hst : c.state.acceptsData = false → t.state.acceptsData = false)
    (hc : c.senderCount = 0 → t.senderCount = 0) (hs : t.sent = c.sent) :
    KeepsSealed c t := by
  intro h
  exact ⟨h.imp hst hc, by simp [accepted, hs], by simp [failures, hs]⟩

theorem keepsSealed_reject (x : Except BlpError α) : KeepsSealed c (c.reject x) := by
  intro h
  exact ⟨h, accepted_reject x, failures_reject x⟩

theorem keepsSealed_sendTerminal (e : BlpError) : KeepsSealed c (c.sendTerminal e) := by
  intro h
  have hg : c.senderCount = 0 ∨ c.state.acceptsData = false := h.symm
  rw [sendTerminal, if_pos hg]
  exact keepsSealed_reject _ h

theorem keepsSealed_close : KeepsSealed c c.close := by
  unfold close
  split
  · exact keepsSealed_of_same id id rfl
  · exact keepsSealed_of_same (by simp [acceptsData]) id rfl

theorem keepsSealed_receive (empty : Receiver) : KeepsSealed c (c.receive q empty) := by
  unfold receive
  split
  · exact keepsSealed_of_same (by simp [acceptsData]) id rfl
  · split
    · exact keepsSealed_of_same (by simp [acceptsData]) id rfl
    · split <;> exact keepsSealed_of_same id id rfl

theorem keepsSealed_effect (he : Effect q c t) : KeepsSealed c t := by
  cases he with
  | fail e => exact keepsSealed_sendTerminal e
  | close => exact keepsSealed_close
  | receive _ _ => exact keepsSealed_receive _
  | threads _ _ _ _ _ _ _ hc _ => exact keepsSealed_of_same id hc rfl

/-! ### Wake-ups -/

/-- A receive would not find the channel empty. -/
def Readable (c : Shared α γ) : Prop :=
  c.state.queue ≠ [] ∨ c.state.terminalError ≠ none ∨ c.state.receiverClosed = true ∨
    c.state.terminalDelivered = true ∨ c.senderCount = 0

/-- A receiver that is parked before something it could read has been woken, or a thread that is
past the lock is going to wake it. -/
def Wakes (c : Shared α γ) : Prop :=
  c.receiver = .parked → c.Readable →
    c.ready = true ∨ 0 < c.notifying ∨ 0 < c.closing ∨ 0 < c.leaving

theorem Wakes.sendTerminal (h : c.Wakes) (e : BlpError) : (c.sendTerminal e).Wakes := by
  unfold Shared.sendTerminal
  split
  · exact h
  · intro _ _
    exact .inr (.inr (.inl (Nat.succ_pos _)))

theorem Wakes.close (h : c.Wakes) : c.close.Wakes := by
  unfold Shared.close
  split
  · exact h
  · intro _ _
    exact .inr (.inr (.inl (Nat.succ_pos _)))

theorem wakes_pushBack (c : Shared α γ) (u : α) : (c.pushBack u).Wakes := by
  intro _ _
  exact .inr (.inl (Nat.succ_pos _))

/-- A receiver parks in front of an empty channel only. -/
theorem wakes_receive (ht : q.taken ≠ .parked) (empty : Receiver) : (c.receive q empty).Wakes := by
  unfold receive
  split
  · intro hp
    exact absurd hp ht
  · rename_i hq
    split
    · intro hp
      simp at hp
    · rename_i hn
      split
      · intro hp
        simp at hp
      · rename_i ho
        intro _ hr
        rcases hr with hne | hne | hd
        · exact absurd hq hne
        · exact absurd hn hne
        · exact absurd hd ho

theorem Wakes.step (h : c.Wakes) (ht : q.taken ≠ .parked) {a : Action}
    (hs : c.step q a = some t) : t.Wakes := by
  cases a with
  | fail e =>
    cases hs
    exact h.sendTerminal e
  | close =>
    cases hs
    exact h.close
  | poll | tryRecv =>
    obtain ⟨-, hs⟩ := ite_none_right_eq_some.mp hs
    cases hs
    exact wakes_receive ht _
  | cloneSender =>
    obtain ⟨hpo, hs⟩ := ite_none_right_eq_some.mp hs
    cases hs
    intro hp hr
    apply h hp
    simpa [Readable, Nat.ne_of_gt hpo] using hr
  | dropSender =>
    simp only [Shared.step] at hs
    split at hs
    · simp at hs
    · cases hs
      intro _ _
      exact .inr (.inr (.inr (Nat.succ_pos _)))
    · rename_i n hc
      cases hs
      intro hp hr
      apply h hp
      simpa [Readable, hc] using hr
  | finishDrop | closeSlots =>
    simp only [Shared.step] at hs
    split at hs
    · simp at hs
    · cases hs
      intro _ _
      exact .inr (.inl (Nat.succ_pos _))
  | notifyOne =>
    simp only [Shared.step] at hs
    split at hs
    · simp at hs
    · cases hs
      intro _ _
      exact .inl rfl
  | recv | wake | cancelRecv | dropReceiver =>
    obtain ⟨-, hs⟩ := ite_none_right_eq_some.mp hs
    cases hs
    intro hp
    simp at hp

/-! ### Evictions -/

def evictions (c : Shared α γ) : ℕ :=
  (c.delivered.map fun p => p.1.length).sum + c.evicted.length

/-- What a receive counts as evicted before its update it takes from the pending ones. -/
theorem evictions_receive (empty : Receiver) : (c.receive q empty).evictions = c.evictions := by
  unfold receive
  split
  · simp [evictions]
  · split
    · rfl
    · split <;> rfl

theorem length_queue_receive_le (empty : Receiver) :
    (c.receive q empty).state.queue.length ≤ c.state.queue.length := by
  unfold receive
  split
  · rename_i hq
    simp [hq]
  · split
    · exact le_rfl
    · split <;> exact le_rfl

theorem SameUpdates.evictions (h : SameUpdates c t) : t.evictions = c.evictions := by
  rw [Shared.evictions, Shared.evictions, h.delivered, h.evicted]

theorem queue_of_effect (he : Effect q c t) :
    t.state.queue.length ≤ c.state.queue.length ∧ t.evictions = c.evictions := by
  cases he with
  | fail e =>
    have hs := sameUpdates_sendTerminal (c := c) e
    exact ⟨hs.queue ▸ le_rfl, hs.evictions⟩
  | close =>
    have hs := sameUpdates_close (c := c)
    exact ⟨hs.queue ▸ le_rfl, hs.evictions⟩
  | receive _ _ => exact ⟨length_queue_receive_le _, evictions_receive _⟩
  | threads => exact ⟨le_rfl, rfl⟩

theorem senderCount_receive (empty : Receiver) :
    (c.receive q empty).senderCount = c.senderCount := by
  unfold receive
  split
  · rfl
  · split
    · rfl
    · split <;> rfl

theorem Sound.sublist (h : c.Sound q) : (c.delivered.map Prod.snd).Sublist c.accepted := by
  have hb : ∀ l : List (List α × α),
      (l.map Prod.snd).Sublist (l.flatMap fun p => p.1 ++ [p.2]) := by
    intro l
    induction l with
    | nil => exact .slnil
    | cons p l ih =>
      rw [map_cons, flatMap_cons, append_assoc]
      exact (ih.cons_cons p.2).trans (sublist_append_right p.1 _)
  rw [h.order, append_assoc]
  exact (hb c.delivered).trans (sublist_append_left _ _)

/-! ### Draining -/

def unread (q : QueueStrategy γ) (c : Shared α γ) : List (SubscriptionEvent α) :=
  (match c.state.queue with
    | [] => []
    | update :: rest =>
      .update update (q.gap c.state.pendingGap) ::
        rest.map fun next => .update next (q.gap (q.count 0))) ++
    c.state.terminalError.toList.map .error

theorem received_receive {ev : SubscriptionEvent α} {rest : List (SubscriptionEvent α)}
    (hu : c.unread q = ev :: rest) (empty : Receiver) :
    (c.receive q empty).received = c.received ++ [ev] ∧ (c.receive q empty).unread q = rest ∧
      ((c.receive q empty).receiver = .idle ∨ (c.receive q empty).receiver = q.taken) := by
  unfold receive
  split
  · rename_i u others hq
    simp only [unread, hq, cons_append, cons.injEq] at hu
    obtain ⟨rfl, rfl⟩ := hu
    refine ⟨rfl, ?_, .inr rfl⟩
    cases others <;> simp [unread]
  · rename_i hq
    split
    · rename_i e he
      simp only [unread, hq, he, nil_append, toList_some, map_cons,
        map_nil, cons.injEq] at hu
      obtain ⟨rfl, rfl⟩ := hu
      exact ⟨rfl, by simp [unread, hq], .inl rfl⟩
    · rename_i hn
      simp [unread, hq, hn] at hu

end Shared

end Xbbg.Channel
