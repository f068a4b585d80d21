import Xbbg.Library.Machine
import Xbbg.Library.Spool
import Xbbg.Verification.Deliveries.Batches

/-! A consumer's pending events and its channel are one stream that is read by transactions:
every step of a consumer is a step of that stream. -/

namespace Xbbg.Deliveries

open List Library Channel SubscriptionConsumer DeliveryDrainTransaction

/-! ### Leases -/

/-- What a lease shows and what it would put back are the events that it has taken. -/
structure Lease.Fits (lease : Lease) : Prop where
  restored : lease.receipt.restored = lease.taken
  fresh : lease.exported = none → lease.receipt.Fresh
  exported : ∀ delivery, lease.exported = some delivery →
    delivery.Sound ∧ delivery.events = lease.taken

/-- The same for a drain, by the error that the cleanup has met: it fails with the error of the
stream, if it took one, and otherwise with that of the cleanup. -/
structure DrainLease.Fits (lease : DrainLease) (cleanup : Option BlpAsyncError) : Prop where
  restored : lease.transaction.restored = lease.taken
  queue : queued lease.transaction.source.receiver = []
  kept : lease.transaction.restoreFailure.2.cleanupError = cleanup
  delivered : lease.exported = none → lease.transaction.failure = none → cleanup = none ∧
    (∀ delivery ∈ lease.transaction.deliveries, delivery.Sound) ∧
      lease.transaction.deliveries.flatMap SubscriptionDelivery.events = lease.taken
  failed : ∀ failure, lease.transaction.failure = some failure →
    (∃ error, failure.error = .blp error ∧ .error error ∈ lease.taken) ∨
      (∀ error, .error error ∉ lease.taken) ∧ cleanup = some failure.error
  exported : ∀ deliveries, lease.exported = some deliveries → cleanup = none ∧
    (∀ delivery ∈ deliveries, delivery.Sound) ∧
      deliveries.flatMap SubscriptionDelivery.events = lease.taken

/-- What was handed out is what was taken, except that a drain which met an error hands out that
error only. -/
def Commit.Faithful (cleanup : Option BlpAsyncError) (commit : Commit) : Prop :=
  match commit.published with
  | .delivery delivery => delivery.Sound ∧ delivery.events = commit.taken
  | .error error => commit.taken = [.error error]
  | .drained deliveries => cleanup = none ∧ (∀ delivery ∈ deliveries, delivery.Sound) ∧
      deliveries.flatMap SubscriptionDelivery.events = commit.taken
  | .drainFailed error =>
    (∃ native, error = .blp native ∧ .error native ∈ commit.taken) ∨
      (∀ native, .error native ∉ commit.taken) ∧ cleanup = some error

theorem error_notMem_events {d : SubscriptionDelivery} (e : BlpError) : .error e ∉ d.events := by
  unfold SubscriptionDelivery.events
  split <;> simp

/-- A cleanup error is reported when the drain has met no error of the stream. -/
theorem DeliveryDrainTransaction.Fits.lease {tx : DeliveryDrainTransaction}
    {taken : List Event} (h : tx.Fits taken) (hq : queued tx.source.receiver = []) :
    DrainLease.Fits ⟨tx.takeCleanupError, none, taken⟩ tx.source.cleanupError := by
  unfold takeCleanupError
  split
  · rename_i e hf hc
    have hr := h.restored
    rw [DeliveryDrainTransaction.restored, hf] at hr
    rw [hc]
    refine ⟨?_, hq, ?_, by simp, ?_, by simp⟩
    · rw [← hr]
      cases e <;> rfl
    · cases e <;> rfl
    · intro _ hfailure
      cases hfailure
      refine .inr ⟨fun native hm => ?_, rfl⟩
      rw [← h.delivered hf] at hm
      obtain ⟨d, -, hin⟩ := mem_flatMap.mp hm
      exact error_notMem_events native hin
  · rename_i hno
    refine ⟨h.restored, hq, ?_, fun _ hn => ⟨?_, h.sound, h.delivered hn⟩, ?_, by simp⟩
    · cases hf : tx.failure with
      | none => simp [restoreFailure, hf]
      | some failure =>
        obtain ⟨e, i, rfl, -⟩ := h.failed failure hf
        simp [restoreFailure, hf]
    · exact Option.eq_none_iff_forall_ne_some.mpr fun e he => hno e hn he
    · intro failure hf
      obtain ⟨e, i, rfl, hm, -⟩ := h.failed failure hf
      exact .inl ⟨e, rfl, hm⟩

namespace SubscriptionConsumer

/-! ### The stream of a consumer -/

@[simp] theorem queued_none : queued none = [] := rfl

/-- The events that a lease or a drain has taken. -/
def outstanding (s : SubscriptionConsumer) : List Event :=
  s.reading.elim [] Lease.taken ++
    match s.operation with
    | some (.drained lease) => lease.taken
    | _ => []

def spool (s : SubscriptionConsumer) : Spool Event where
  accepted := s.accepted
  done := s.commits.flatMap Commit.taken
  held := s.outstanding
  waiting := s.pending ++ queued s.rx

/-- What each action is for the stream. -/
def move : Action → Spool.Move Event
  | .accept event => .accept event
  | .nextDelivery _ | .finishClose => .take
  | .commitLease | .commitDrain => .commit
  | .dropLease | .dropDrain => .rollback
  | _ => .stay

/-- A close that is asked to discard what is unread is not a drain. -/
def Drains (_ : SubscriptionConsumer) (a : Action) : Prop :=
  a ≠ .startClose false

/-- The cleanup error that the next drain meets, which a committed drain leaves behind. -/
def meet (met : Option BlpAsyncError) : Action → Option BlpAsyncError
  | .cleanupFailed error => met.or (some error)
  | .commitDrain => none
  | _ => met

def cleanupHeld (recovery : DeliveryDrainRecovery) : Option BlpAsyncError :=
  (recovery.source.bind ClosedDeliverySource.cleanupError).or recovery.cleanupError

theorem cleanupError_closedSource (s : SubscriptionConsumer) :
    s.closedSource.cleanupError = cleanupHeld s.recovery := by
  unfold closedSource cleanupHeld
  cases s.recovery.source <;> rfl

structure Invariant (s : SubscriptionConsumer) (met : Option BlpAsyncError) : Prop where
  batcher : s.batcher.rows = []
  sound : s.spool.Sound
  lease : ∀ lease, s.reading = some lease → lease.Fits
  drained : ∀ lease, s.operation = some (.drained lease) →
    lease.Fits met ∧ s.rx = none ∧ s.recovery = ⟨none, none⟩
  cleanup : (∀ lease, s.operation ≠ some (.drained lease)) → cleanupHeld s.recovery = met
  closing : ∀ drain, s.operation = some (.closing drain) → drain = true
  exclusive : s.reading = none ∨ s.operation = none
  closed : s.operation ≠ none → s.closed = true
  recovery : ∀ source, s.recovery.source = some source → queued source.receiver = [] ∧ s.rx = none

variable {s t : SubscriptionConsumer} {met : Option BlpAsyncError}

theorem invariant_new (batchLimit : ℕ) : (new batchLimit).Invariant none where
  batcher := rfl
  sound := rfl
  lease := by simp [new]
  drained := by simp [new]
  cleanup _ := rfl
  closing := by simp [new]
  exclusive := .inl rfl
  closed := by simp [new]
  recovery := by simp [new]

/-- A step of the consumer is a step of its stream, keeps the invariant and commits nothing but what
is faithful. -/
def Follows (met : Option BlpAsyncError) (s : SubscriptionConsumer) (a : Action)
    (t : SubscriptionConsumer) : Prop :=
  (∀ commit ∈ t.commits, commit ∈ s.commits ∨ commit.Faithful met) ∧
    Spool.Step s.spool (move a) t.spool ∧ t.Invariant (meet met a)

theorem follows_stay (hs : t.spool = s.spool) {a : Action} (hm : move a = .stay)
    (hc : t.commits = s.commits) (h : t.Invariant (meet met a)) : Follows met s a t := by
  refine ⟨fun _ hmem => .inl (hc ▸ hmem), ?_, h⟩
  rw [hm, hs]
  exact .stay

theorem receiver_drop (tx : DeliveryDrainTransaction) (pending : List Event) :
    (tx.drop pending).2.receiver = tx.source.receiver := by
  unfold DeliveryDrainTransaction.drop DeliveryDrainTransaction.restoreFailure
  simp only
  split <;> rfl

section

variable (h : s.Invariant met)
include h

theorem follows_accept {ev : Event} (hs : s.accept ev = some t) : Follows met s (.accept ev) t := by
  unfold accept at hs
  split at hs
  · rename_i q hrx
    split at hs
    · simp at hs
    · cases hs
      have hst : Spool.Step s.spool (.accept ev) _ := .accept ev
      have hsp : spool
          { s with
            rx := some ⟨q ++ [ev], true⟩
            accepted := s.accepted ++ [ev] } =
          { s.spool with
            accepted := s.spool.accepted ++ [ev]
            waiting := s.spool.waiting ++ [ev] } := by
        simp [spool, outstanding, queued, hrx]
      refine ⟨fun _ => .inl, hsp ▸ hst, h.batcher, hsp ▸ h.sound.step hst, h.lease, ?_, h.cleanup,
        h.closing, h.exclusive, h.closed, ?_⟩
      · intro lease hl
        simp [(h.drained lease hl).2.1] at hrx
      · intro src hso
        simp [(h.recovery src hso).2] at hrx
  · simp at hs

theorem follows_nextDelivery {lim : ℕ} (hs : s.nextDelivery lim = some t) :
    Follows met s (.nextDelivery lim) t := by
  unfold nextDelivery at hs
  split at hs
  · rename_i rx hop hre hrx
    obtain ⟨⟨a, rest, rx'⟩, hpop, hs⟩ := Option.bind_eq_some_iff.mp hs
    obtain ⟨r, pending', rx'', batcher', hr, hro, hf, hsr⟩ :=
      readReadyDelivery_spec h.batcher a rest rx' lim
    simp only [hr, Option.map_some, Option.some.injEq] at hs
    have ho : s.operation = none := by
      by_contra hsome
      simp [h.closed hsome] at hop
    have ha := (popEvent_eq_some hpop).trans hsr
    -- The ghost prefix is what the receipt would put back.
    have ht : (s.pending ++ queued s.rx).take
        ((s.pending ++ queued s.rx).length - (pending' ++ queued rx'').length) = r.restored := by
      rw [ha, length_append, Nat.add_sub_cancel, take_left]
    rw [ht] at hs
    subst hs
    have hst : Spool.Step s.spool .take
        { s.spool with held := r.restored, waiting := pending' ++ queued rx'' } :=
      .take (by simp [spool, outstanding, hre, ho]) ha
    have hsp : spool
        { s with
          rx := rx''
          pending := pending'
          batcher := batcher'
          reading := some ⟨r, none, r.restored⟩ } =
        { s.spool with held := r.restored, waiting := pending' ++ queued rx'' } := by
      simp [spool, outstanding, ho]
    refine ⟨fun _ => .inl, hsp ▸ hst, hro, hsp ▸ h.sound.step hst, ?_, ?_, h.cleanup, h.closing,
      .inr ho, h.closed, ?_⟩
    · intro lease hl
      cases hl
      exact ⟨rfl, fun _ => hf, by simp⟩
    · intro lease hl
      simp [ho] at hl
    · intro src hso
      simp [(h.recovery src hso).2] at hrx
  · simp at hs

theorem follows_prepareSuccess (hs : s.prepareSuccess = some t) :
    Follows met s .prepareSuccess t := by
  unfold prepareSuccess at hs
  split at hs
  · rename_i r taken hr
    have hf := h.lease _ hr
    cases hf.fresh rfl with
    | error e =>
      cases hs
      exact follows_stay rfl rfl rfl h
    | @delivery delivery events hso he =>
      cases hs
      have hsp : spool { s with reading := some ⟨⟨none, events⟩, some delivery, taken⟩ } =
          s.spool := by
        simp [spool, outstanding, hr]
      have ht : events = taken := by
        simpa [RawDeliveryReceipt.restored] using hf.restored
      refine follows_stay hsp rfl rfl ⟨h.batcher, hsp ▸ h.sound, ?_, h.drained, h.cleanup,
        h.closing, .inr (h.exclusive.resolve_left (by simp [hr])), h.closed, h.recovery⟩
      intro lease hl
      cases hl
      refine ⟨by simpa [RawDeliveryReceipt.restored] using ht, by simp, ?_⟩
      intro d hd
      cases hd
      exact ⟨hso, he.trans ht⟩
  · simp at hs

theorem follows_commit {lease : Lease} (hr : s.reading = some lease) (published : Published)
    (hf : (⟨lease.taken, published⟩ : Commit).Faithful met) :
    Follows met s .commitLease
      { s with reading := none, commits := s.commits ++ [⟨lease.taken, published⟩] } := by
  have ho : s.operation = none := h.exclusive.resolve_left (by simp [hr])
  have hs : Spool.Step s.spool .commit _ := .commit
  have hsp : spool
      { s with reading := none, commits := s.commits ++ [⟨lease.taken, published⟩] } =
      { s.spool with done := s.spool.done ++ s.spool.held, held := [] } := by
    simp [spool, outstanding, hr, ho]
  refine ⟨?_, hsp ▸ hs, h.batcher, hsp ▸ h.sound.step hs, by simp, h.drained, h.cleanup, h.closing,
    .inl rfl, h.closed, h.recovery⟩
  intro commit hc
  rcases mem_append.mp hc with hol | hn
  · exact .inl hol
  · exact .inr (mem_singleton.mp hn ▸ hf)

theorem follows_commitLease (hs : s.commitLease = some t) : Follows met s .commitLease t := by
  unfold commitLease at hs
  split at hs
  · rename_i d taken hr
    cases hs
    exact follows_commit h hr (.delivery d) ((h.lease _ hr).exported d rfl)
  · rename_i d events taken hr
    cases hs
    have hf := h.lease _ hr
    have ht : events = taken := by
      simpa [RawDeliveryReceipt.restored] using hf.restored
    cases hf.fresh rfl with
    | delivery hso he =>
      exact follows_commit h hr (.delivery d) ⟨hso, he.trans ht⟩
  · rename_i e events taken hr
    cases hs
    have hf := h.lease _ hr
    cases hf.fresh rfl with
    | error =>
      have ht : taken = [.error e] := by
        simpa [RawDeliveryReceipt.restored] using hf.restored.symm
      exact follows_commit h hr (.error e) ht
  · simp at hs

theorem follows_dropLease (hs : s.dropLease = some t) : Follows met s .dropLease t := by
  obtain ⟨lease, hr, rfl⟩ := Option.map_eq_some_iff.mp hs
  have ho : s.operation = none := h.exclusive.resolve_left (by simp [hr])
  have hst : Spool.Step s.spool .rollback _ := .rollback
  have hsp : spool { s with reading := none, pending := lease.receipt.drop s.pending } =
      { s.spool with held := [], waiting := s.spool.held ++ s.spool.waiting } := by
    simp [spool, outstanding, hr, ho, RawDeliveryReceipt.drop_eq, (h.lease lease hr).restored]
  exact ⟨fun _ => .inl, hsp ▸ hst, h.batcher, hsp ▸ h.sound.step hst, by simp, h.drained, h.cleanup,
    h.closing, .inl rfl, h.closed, h.recovery⟩

theorem follows_signalClose : Follows met s .signalClose { s with closed := true } := by
  exact follows_stay rfl rfl rfl ⟨h.batcher, h.sound, h.lease, h.drained, h.cleanup, h.closing,
    h.exclusive, fun _ => rfl, h.recovery⟩

theorem follows_startClose {drain : Bool} (hok : Drains s (.startClose drain))
    (hs : s.startClose drain = some t) : Follows met s (.startClose drain) t := by
  obtain rfl : drain = true := by
    cases drain
    · exact absurd rfl hok
    · rfl
  unfold startClose at hs
  split at hs
  · rename_i hc ho hr
    cases hs
    have hsp : spool
        { s with operation := some (.closing true), recovery := s.recovery } = s.spool := by
      simp [spool, outstanding, ho]
    exact follows_stay hsp rfl rfl
      ⟨h.batcher, hsp ▸ h.sound, h.lease, by simp, fun _ => h.cleanup (by simp [ho]), by simp,
        .inl hr, fun _ => hc, h.recovery⟩
  · simp at hs

theorem follows_forward (hs : s.forward = some t) : Follows met s .forward t := by
  unfold forward at hs
  split at hs
  · rename_i ev rest isOpen ho hrx
    cases hs
    have hsp : spool { s with rx := some ⟨rest, isOpen⟩, pending := s.pending ++ [ev] } =
        s.spool := by
      simp [spool, outstanding, queued, hrx]
    refine follows_stay hsp rfl rfl ⟨h.batcher, hsp ▸ h.sound, h.lease, ?_, h.cleanup, h.closing,
      h.exclusive, h.closed, ?_⟩
    · intro lease hl
      simp [ho] at hl
    · intro src hso
      simp [(h.recovery src hso).2] at hrx
  · simp at hs

theorem follows_cleanupFailed {e : BlpAsyncError} (hs : s.cleanupFailed e = some t) :
    Follows met s (.cleanupFailed e) t := by
  unfold cleanupFailed at hs
  split at hs
  · rename_i ho
    cases hs
    refine follows_stay rfl rfl rfl ⟨h.batcher, h.sound, h.lease, ?_, fun _ => ?_, h.closing,
      h.exclusive, h.closed, h.recovery⟩
    · intro lease hl
      simp [ho] at hl
    · rw [meet, ← h.cleanup (by simp [ho]), cleanupHeld, cleanupHeld, Option.or_assoc]
  · simp at hs

theorem follows_cancelClose (hs : s.step .cancelClose = some t) : Follows met s .cancelClose t := by
  simp only [step] at hs
  split at hs
  · rename_i drain ho
    cases hs
    have hsp : spool { s with operation := none } = s.spool := by
      simp [spool, outstanding, ho]
    exact follows_stay hsp rfl rfl
      ⟨h.batcher, hsp ▸ h.sound, h.lease, by simp, fun _ => h.cleanup (by simp [ho]), by simp,
        .inr rfl, by simp, h.recovery⟩
  · simp at hs

theorem queued_closedSource : queued s.closedSource.receiver = queued s.rx := by
  unfold closedSource
  cases hs : s.recovery.source with
  | none => cases s.rx <;> rfl
  | some src =>
    obtain ⟨he, hrx⟩ := h.recovery src hs
    rw [hrx]
    exact he

theorem drain_closedSource : ∃ tx batcher, drain s.batchLimit
          (s.pending ++ queued s.closedSource.receiver).length ⟨s.closedSource, [], [], none⟩
          s.pending s.batcher =
        some (tx, [], batcher) ∧
      queued tx.source.receiver = [] ∧ batcher.rows = [] ∧
      tx.source.cleanupError = s.closedSource.cleanupError ∧
      tx.Fits (s.pending ++ queued s.closedSource.receiver) := by
  obtain ⟨tx, batcher, hd, hq, hr, hc, hf⟩ :=
    drain_spec s.batchLimit (fits_start s.closedSource) h.batcher le_rfl
  exact ⟨tx, batcher, hd, hq, hr, hc, hf⟩

theorem follows_finishClose (hs : s.finishClose = some t) : Follows met s .finishClose t := by
  unfold finishClose at hs
  simp only at hs
  split at hs
  · rename_i ho
    obtain ⟨tx, batcher, hd, hq, hro, hc, hf⟩ := drain_closedSource h
    rw [hd] at hs
    cases hs
    have hr : s.reading = none := h.exclusive.resolve_right (by simp [ho])
    have hst : Spool.Step s.spool .take
        { s.spool with held := s.pending ++ queued s.rx, waiting := [] } :=
      .take (by simp [spool, outstanding, hr, ho]) (by simp [spool])
    have hsp : spool
        { s with
          rx := none
          pending := []
          batcher := batcher
          recovery := ⟨none, none⟩
          operation := some
            (.drained ⟨tx.takeCleanupError, none, s.pending ++ queued s.closedSource.receiver⟩) } =
        { s.spool with held := s.pending ++ queued s.rx, waiting := [] } := by
      simp [spool, outstanding, hr, queued_closedSource h]
    refine ⟨fun _ => .inl, hsp ▸ hst, hro, hsp ▸ h.sound.step hst, h.lease, ?_, by simp, by simp,
      .inl hr, fun _ => h.closed (by simp [ho]), by simp⟩
    intro lease hl
    obtain rfl : DrainLease.mk tx.takeCleanupError none _ = lease := by
      simpa using hl
    have hlease := hf.lease hq
    rw [hc, cleanupError_closedSource, h.cleanup (by simp [ho])] at hlease
    exact ⟨hlease, rfl, rfl⟩
  · rename_i ho
    exact absurd (h.closing false ho) (by decide)
  · simp at hs

theorem follows_prepareDrainSuccess (hs : s.prepareDrainSuccess = some t) :
    Follows met s .prepareDrainSuccess t := by
  unfold prepareDrainSuccess at hs
  split at hs
  · rename_i tx taken ho
    split at hs
    · cases hs
      exact follows_stay rfl rfl rfl h
    · rename_i hfa
      cases hs
      obtain ⟨hf, hrx⟩ := h.drained _ ho
      have hsp : spool
          { s with
            operation := some
              (.drained ⟨{ tx with deliveries := [] }, some tx.deliveries, taken⟩) } =
          s.spool := by
        simp [spool, outstanding, ho]
      refine follows_stay hsp rfl rfl ⟨h.batcher, hsp ▸ h.sound, h.lease, ?_, by simp, by simp,
        .inl (h.exclusive.resolve_right (by simp [ho])),
        fun _ => h.closed (by simp [ho]), h.recovery⟩
      intro lease hl
      obtain rfl : DrainLease.mk { tx with deliveries := [] }
          (some tx.deliveries) taken = lease := by simpa using hl
      refine ⟨⟨hf.restored, hf.queue, hf.kept, by simp, hf.failed, ?_⟩, hrx⟩
      intro deliveries hd
      cases hd
      exact hf.delivered rfl hfa
  · simp at hs

theorem follows_commitAll {lease : DrainLease} (ho : s.operation = some (.drained lease))
    (published : Published) (hf : (⟨lease.taken, published⟩ : Commit).Faithful met) :
    Follows met s .commitDrain
      { s with operation := none, commits := s.commits ++ [⟨lease.taken, published⟩] } := by
  have hr : s.reading = none := h.exclusive.resolve_right (by simp [ho])
  have hs : Spool.Step s.spool .commit _ := .commit
  have hsp : spool
      { s with operation := none, commits := s.commits ++ [⟨lease.taken, published⟩] } =
      { s.spool with done := s.spool.done ++ s.spool.held, held := [] } := by
    simp [spool, outstanding, hr, ho]
  refine ⟨?_, hsp ▸ hs, h.batcher, hsp ▸ h.sound.step hs, h.lease, by simp, ?_, by simp, .inr rfl,
    by simp, h.recovery⟩
  · intro commit hc
    rcases mem_append.mp hc with hol | hn
    · exact .inl hol
    · exact .inr (mem_singleton.mp hn ▸ hf)
  · intro _
    rw [(h.drained lease ho).2.2]
    rfl

theorem follows_commitDrain (hs : s.commitDrain = some t) : Follows met s .commitDrain t := by
  unfold commitDrain at hs
  split at hs
  · rename_i tx deliveries taken ho
    cases hs
    exact follows_commitAll h ho (.drained deliveries) ((h.drained _ ho).1.exported deliveries rfl)
  · rename_i tx taken ho
    have hfi := (h.drained _ ho).1
    split at hs
    · rename_i failure hf
      cases hs
      exact follows_commitAll h ho (.drainFailed failure.error) (hfi.failed failure hf)
    · rename_i hf
      cases hs
      exact follows_commitAll h ho (.drained tx.deliveries) (hfi.delivered rfl hf)
  · simp at hs

theorem follows_dropDrain (hs : s.dropDrain = some t) : Follows met s .dropDrain t := by
  unfold dropDrain at hs
  split at hs
  · rename_i tx exported taken ho
    cases hs
    obtain ⟨hf, hrx, hempty⟩ := h.drained _ ho
    have hr : s.reading = none := h.exclusive.resolve_right (by simp [ho])
    have hre : tx.restored = taken := hf.restored
    have hst : Spool.Step s.spool .rollback _ := .rollback
    have hsp : spool
        { s with
          operation := none
          pending := (tx.drop s.pending).1
          recovery := { s.recovery with source := some (tx.drop s.pending).2 } } =
        { s.spool with held := [], waiting := s.spool.held ++ s.spool.waiting } := by
      simp [spool, outstanding, hr, ho, drop_fst, hre]
    refine ⟨fun _ => .inl, hsp ▸ hst, h.batcher, hsp ▸ h.sound.step hst, h.lease, by simp,
      fun _ => ?_, by simp, .inr rfl, by simp, ?_⟩
    · rw [cleanupHeld, hempty]
      exact Option.or_none.trans hf.kept
    · intro src hso
      cases hso
      exact ⟨(congrArg queued (receiver_drop tx s.pending)).trans hf.queue, hrx⟩
  · simp at hs

theorem follows_step {a : Action} (hok : Drains s a) (hs : s.step a = some t) :
    Follows met s a t := by
  cases a with
  | accept ev => exact follows_accept h hs
  | nextDelivery lim => exact follows_nextDelivery h hs
  | prepareSuccess => exact follows_prepareSuccess h hs
  | commitLease => exact follows_commitLease h hs
  | dropLease => exact follows_dropLease h hs
  | signalClose =>
    cases hs
    exact follows_signalClose h
  | startClose drain => exact follows_startClose h hok hs
  | forward => exact follows_forward h hs
  | cleanupFailed e => exact follows_cleanupFailed h hs
  | cancelClose => exact follows_cancelClose h hs
  | finishClose => exact follows_finishClose h hs
  | prepareDrainSuccess => exact follows_prepareDrainSuccess h hs
  | commitDrain => exact follows_commitDrain h hs
  | dropDrain => exact follows_dropDrain h hs

end

/-- Every commit is faithful to the cleanup error that was met before it. -/
theorem Invariant.run {acts : List Action} (h : s.Invariant met) (hr : Run step Drains s acts t) :
    t.Invariant (acts.foldl meet met) ∧ ∀ commit ∈ t.commits, commit ∈ s.commits ∨
      ∃ before, before <+: acts ∧ commit.Faithful (before.foldl meet met) := by
  induction hr generalizing met with
  | nil => exact ⟨h, fun _ => .inl⟩
  | @cons s u _ a rest hok hs _ ih =>
    obtain ⟨hc, -, hu⟩ := follows_step h hok hs
    obtain ⟨hi, hl⟩ := ih hu
    refine ⟨hi, fun commit hm => ?_⟩
    rcases hl commit hm with hm | ⟨before, hb, hf⟩
    · exact (hc commit hm).imp_right fun hf => ⟨[], nil_prefix, hf⟩
    · exact .inr ⟨a :: before, (prefix_cons_inj a).mpr hb, hf⟩

/-! ### Every run -/

/-- Reads and drains never fail: one is ready whenever there is an event, and a close that has
come to its end has drained. -/
theorem Invariant.ready (h : s.Invariant met) :
    (∀ lim, s.closed = false → s.reading = none → s.rx ≠ none → s.pending ++ queued s.rx ≠ [] →
      s.step (.nextDelivery lim) ≠ none) ∧
    (∀ drain, s.operation = some (.closing drain) → s.step .finishClose ≠ none) := by
  constructor
  · intro lim hop hre hs hst
    obtain ⟨rx, hrx⟩ := Option.ne_none_iff_exists'.mp hs
    cases hp : popEvent s.pending (some rx) with
    | none => exact absurd (hrx ▸ popEvent_eq_none hp) hst
    | some popped =>
      obtain ⟨a, rest, rx'⟩ := popped
      obtain ⟨r, pending', rx'', batcher', hr, -⟩ :=
        readReadyDelivery_spec h.batcher a rest rx' lim
      simp [step, nextDelivery, hop, hre, hrx, hp, hr]
  · intro drain ho
    obtain rfl := h.closing drain ho
    obtain ⟨tx, batcher, hd, -⟩ := drain_closedSource h
    rw [length_append] at hd
    simp [step, finishClose, ho, hd]

/-- In every sequence of reads, drains, commits, acknowledgements and drops the pending events and
the channel are a transactional FIFO, leases and commits carry exactly the events they took, in
batches of one layout with a gap before the first row only, and a drain that has met the terminal
error, or else an error of the cleanup, hands out that error instead. -/
theorem fifo_of_run {batchLimit : ℕ} {actions : List Action} {s : SubscriptionConsumer}
    (h : Run step Drains (new batchLimit) actions s) :
    s.accepted = s.commits.flatMap Commit.taken ++ (s.outstanding ++ (s.pending ++ queued s.rx)) ∧
    (∀ commit ∈ s.commits, ∃ before, before <+: actions ∧
      commit.Faithful (before.foldl meet none)) ∧
    (∀ lease, s.reading = some lease → lease.Fits) ∧
    (∀ lease, s.operation = some (.drained lease) → lease.Fits (actions.foldl meet none)) ∧
    (∀ a t, Drains s a → s.step a = some t → Spool.Step s.spool (move a) t.spool) ∧
    (∀ a t, a = .dropLease ∨ a = .dropDrain → s.step a = some t → t.spool.stream = s.spool.stream) ∧
    (∀ a t, a = .commitLease ∨ a = .commitDrain → s.step a = some t →
      s.spool.stream = s.outstanding ++ t.spool.stream) ∧
    (∀ limit, s.closed = false → s.reading = none → s.rx ≠ none → s.pending ++ queued s.rx ≠ [] →
      s.step (.nextDelivery limit) ≠ none) ∧
    (∀ drain, s.operation = some (.closing drain) → s.step .finishClose ≠ none) := by
  obtain ⟨hinv, hcommits⟩ := (invariant_new batchLimit).run h
  refine ⟨hinv.sound, fun commit hmem => (hcommits commit hmem).resolve_left not_mem_nil,
    hinv.lease, fun lease hlease => (hinv.drained lease hlease).1,
    fun a t hok hs => (follows_step hinv hok hs).2.1, ?_, ?_, hinv.ready⟩
  · rintro a t (rfl | rfl) hs
    · exact (follows_dropLease hinv hs).2.1.stream_rollback
    · exact (follows_dropDrain hinv hs).2.1.stream_rollback
  · rintro a t (rfl | rfl) hs
    · exact (follows_commitLease hinv hs).2.1.stream_commit
    · exact (follows_commitDrain hinv hs).2.1.stream_commit

def sampleUpdate (timestampUs : ℤ) (layout : FieldLayout) : SubscriptionUpdate :=
  ⟨timestampUs, 1, "TEST Index", layout, []⟩

/-- A read that is dropped, a read that stops before a gap and is committed, and a drain that is
dropped once before it is committed. -/
theorem fifo_of_run_retried : ∃ s : SubscriptionConsumer, Run step Drains (new 4)
        [.accept (.update (sampleUpdate 1 ⟨1, []⟩) none),
          .accept (.update (sampleUpdate 2 ⟨1, []⟩) none),
          .accept (.update (sampleUpdate 3 ⟨1, []⟩) (some ⟨5⟩)), .nextDelivery 8, .dropLease,
          .nextDelivery 8, .prepareSuccess, .commitLease, .signalClose,
          .accept (.update (sampleUpdate 4 ⟨1, []⟩) none), .startClose true, .forward,
          .finishClose, .dropDrain, .startClose true, .finishClose, .commitDrain] s ∧
      s.accepted = s.commits.flatMap Commit.taken ++ (s.outstanding ++ (s.pending ++ queued s.rx)) ∧
      s.commits.map Commit.taken =
        [[.update (sampleUpdate 1 ⟨1, []⟩) none, .update (sampleUpdate 2 ⟨1, []⟩) none],
          [.update (sampleUpdate 3 ⟨1, []⟩) (some ⟨5⟩),
            .update (sampleUpdate 4 ⟨1, []⟩) none]] := by
  exact Run.exists_imp (fun _ hrun hend => ⟨(fifo_of_run hrun).1, hend⟩)
    ⟨_, .of_runActions (by simp [Drains]) rfl, rfl⟩

/-- A drain that meets the terminal error commits to the error alone: the update before it is
consumed and never handed out. -/
theorem exists_run_drained_update_lost : ∃ s : SubscriptionConsumer, Run step Drains (new 4)
        [.accept (.update (sampleUpdate 1 ⟨1, []⟩) none), .accept (.error .timeout), .signalClose,
          .startClose true, .finishClose, .commitDrain] s ∧
      s.accepted = [.update (sampleUpdate 1 ⟨1, []⟩) none, .error .timeout] ∧
      s.spool.stream = [] ∧ s.commits.map Commit.published = [.drainFailed (.blp .timeout)] := by
  exact ⟨_, .of_runActions (by simp [Drains]) rfl, rfl, rfl, rfl⟩

end SubscriptionConsumer

end Xbbg.Deliveries
