import Xbbg.Library.Lists
import Xbbg.Model.Deliveries

/-! One delivery: the batch that is read from the front of the stream, and what is put back when
its receipt or a whole drain is dropped. -/

namespace Xbbg.Deliveries

open List Library Channel SubscriptionConsumer DeliveryDrainTransaction SubscriptionArrowBatcher

/-! ### Layouts -/

def layoutKey (layout : FieldLayout) : ℕ × List (ℕ × FieldKind × String) :=
  (layout.version, layout.fields.map fun field => (field.index, field.kind, field.name))

theorem zip_all_iff (xs ys : List FieldMeta) : (xs.length == ys.length &&
      (xs.zip ys).all fun (left, right) =>
        left.index == right.index && left.kind == right.kind && left.name == right.name) = true ↔
    xs.map (fun f => (f.index, f.kind, f.name)) = ys.map fun f => (f.index, f.kind, f.name) := by
  induction xs generalizing ys with
  | nil => cases ys <;> simp
  | cons x xs ih =>
    cases ys with
    | nil => simp
    | cons y ys =>
      have hr := ih ys
      simp only [Bool.and_eq_true, beq_iff_eq, zip_cons_cons, all_cons,
        length_cons, Nat.add_right_cancel_iff, map_cons, cons.injEq,
        Prod.mk.injEq] at hr ⊢
      rw [← hr]
      tauto

theorem layoutsMatch_iff (cur next : FieldLayout) :
    subscriptionLayoutsMatch cur next = true ↔ layoutKey cur = layoutKey next := by
  rw [subscriptionLayoutsMatch, Bool.and_assoc, Bool.and_eq_true, zip_all_iff, layoutKey,
    layoutKey, Prod.mk.injEq, beq_iff_eq]

/-! ### Deliveries -/

namespace SubscriptionDelivery

/-- The events that a delivery stands for: only its first row can follow a gap. -/
def events (delivery : SubscriptionDelivery) : List Event :=
  match delivery.data.rows with
  | [] => []
  | first :: rest => .update first delivery.gapBefore :: rest.map (.update · none)

/-- A delivery has rows, and all of one layout. -/
structure Sound (delivery : SubscriptionDelivery) : Prop where
  rows : delivery.data.rows ≠ []
  layout : ∀ update ∈ delivery.data.rows,
    subscriptionLayoutsMatch delivery.data.layout update.layout = true

end SubscriptionDelivery

variable {batcher : SubscriptionArrowBatcher}

theorem rows_foldl_append {layout : FieldLayout} {updates : List SubscriptionUpdate}
    (hup : ∀ update ∈ updates, layoutKey update.layout = layoutKey layout) {current : FieldLayout}
    (hc : batcher.layout = some current) (hk : layoutKey current = layoutKey layout) :
    updates.foldl (fun b update => (b.append update).2) batcher =
      { batcher with rows := batcher.rows ++ updates } := by
  induction updates generalizing batcher with
  | nil => simp
  | cons update updates ih =>
    have hm : batcher.matchesLayout update.layout = true := by
      simp only [matchesLayout, hc, Option.any_some]
      rw [layoutsMatch_iff, hk, hup update mem_cons_self]
    have ha : (batcher.append update).2 = { batcher with rows := batcher.rows ++ [update] } := by
      rw [append, if_pos hm]
    have hl : (batcher.append update).2.layout = some current := by rw [ha, hc]
    rw [foldl_cons, ih (fun u hu => hup u (mem_cons_of_mem _ hu)) hl, ha]
    simp

theorem foldl_appendEvent (us : List (SubscriptionUpdate × Option SubscriptionGap))
    (batcher : SubscriptionArrowBatcher) :
    (us.map fun p => SubscriptionEvent.update p.1 p.2).foldl appendEvent batcher =
      (us.map Prod.fst).foldl (fun b u => (b.append u).2) batcher := by
  induction us generalizing batcher with
  | nil => rfl
  | cons p us ih => exact ih _

/-- A batcher without rows makes one batch of updates that all have the layout of the first. -/
theorem flush_foldl_appendEvent (hr : batcher.rows = [])
    (a : SubscriptionUpdate) (gapBefore : Option SubscriptionGap) {rest : List SubscriptionUpdate}
    (hre : ∀ update ∈ rest, layoutKey update.layout = layoutKey a.layout) :
    ∃ l, layoutKey l = layoutKey a.layout ∧
      ((SubscriptionEvent.update a gapBefore :: rest.map (.update · none)).foldl appendEvent
          batcher).flush =
        (some ⟨l, a :: rest⟩, ⟨some l, []⟩) := by
  have hf : ∀ (l : FieldLayout), layoutKey l = layoutKey a.layout →
      (batcher.append a).2 = ⟨some l, [a]⟩ →
      ((SubscriptionEvent.update a gapBefore :: rest.map (.update · none)).foldl appendEvent
          batcher).flush =
        (some ⟨l, a :: rest⟩, ⟨some l, []⟩) := by
    intro l hl ha
    have ht := foldl_appendEvent (rest.map fun u => (u, none)) ⟨some l, [a]⟩
    rw [map_map, map_map] at ht
    rw [foldl_cons, appendEvent, ha]
    refine (congrArg flush ht).trans ?_
    rw [show rest.map (Prod.fst ∘ fun u => (u, (none : Option SubscriptionGap))) = rest by simp
      [Function.comp_def]]
    rw [rows_foldl_append hre rfl hl]
    rfl
  cases hl : batcher.layout with
  | none =>
    refine ⟨a.layout, rfl, hf _ rfl ?_⟩
    simp [append, matchesLayout, hl]
  | some cur =>
    by_cases hm : subscriptionLayoutsMatch cur a.layout = true
    · refine ⟨cur, (layoutsMatch_iff _ _).mp hm, hf _ ((layoutsMatch_iff _ _).mp hm) ?_⟩
      simp [append, matchesLayout, hl, hm, hr]
    · refine ⟨a.layout, rfl, hf _ rfl ?_⟩
      simp [append, matchesLayout, hl, hm]

/-! ### Reading the stream -/

variable {pending : List Event}

theorem popEvent_eq_some {rest : List Event} {rx rx' : Option Receiver} {ev : Event}
    (h : popEvent pending rx = some (ev, rest, rx')) :
    pending ++ queued rx = ev :: (rest ++ queued rx') := by
  unfold popEvent at h
  split at h
  · obtain ⟨rfl, rfl, rfl⟩ : _ ∧ _ ∧ _ := by simpa using h
    rfl
  · obtain ⟨rfl, rfl, rfl⟩ : _ ∧ _ ∧ _ := by simpa using h
    rfl
  · simp at h

theorem popEvent_eq_none {rx : Option Receiver}
    (h : popEvent pending rx = none) : pending ++ queued rx = [] := by
  unfold popEvent at h
  split at h
  · simp at h
  · simp at h
  · rename_i hne
    cases rx with
    | none => rfl
    | some rx =>
      obtain ⟨q, isOpen⟩ := rx
      cases q with
      | nil => rfl
      | cons ev rest => exact absurd rfl (hne ev rest isOpen)

theorem collectReady_spec (a : SubscriptionUpdate) (room : ℕ) (events pending : List Event)
    (rx : Option Receiver) :
    ∃ (us : List SubscriptionUpdate) (pending' : List Event) (rx' : Option Receiver),
      collectReady a room events pending rx = (events ++ us.map (.update · none), pending', rx') ∧
      pending ++ queued rx = us.map (.update · none) ++ (pending' ++ queued rx') ∧
      ∀ update ∈ us, layoutKey update.layout = layoutKey a.layout := by
  induction room generalizing events pending rx with
  | zero => exact ⟨[], pending, rx, by simp [collectReady], rfl, by simp⟩
  | succ room ih =>
    rw [collectReady]
    split
    · exact ⟨[], pending, rx, by simp, rfl, by simp⟩
    · rename_i x rest rx' hp
      have hst := popEvent_eq_some hp
      split
      · rename_i hs
        obtain ⟨update, rfl, hm⟩ : ∃ update, x = .update update none ∧
            subscriptionLayoutsMatch a.layout update.layout = true := by
          unfold sameEpochAndLayout at hs
          split at hs
          · exact ⟨_, rfl, hs⟩
          · simp at hs
        obtain ⟨us, pending', rx'', hc, hr, hl⟩ :=
          ih (events ++ [.update update none]) rest rx'
        refine ⟨update :: us, pending', rx'', ?_, ?_, ?_⟩
        · simp [hc]
        · rw [hst, hr]
          rfl
        · intro u hu
          rcases mem_cons.mp hu with rfl | hu
          · exact ((layoutsMatch_iff _ _).mp hm).symm
          · exact hl u hu
      · exact ⟨[], x :: rest, rx', by simp, hst, by simp⟩

/-! ### Receipts -/

namespace RawDeliveryReceipt

/-- What a drop puts back. -/
def restored (receipt : RawDeliveryReceipt) : List Event :=
  receipt.events ++
    match receipt.value with
    | some (.error error) => [.error error]
    | _ => []

theorem restoreEvents_eq (events pending : List Event) :
    restoreEvents events pending = events ++ pending := by
  rw [restoreEvents, foldl_reverse]
  induction events with
  | nil => rfl
  | cons ev events ih => rw [foldr_cons, ih, cons_append]

theorem drop_eq (r : RawDeliveryReceipt) (pending : List Event) :
    r.drop pending = r.restored ++ pending := by
  obtain ⟨v, events⟩ := r
  rcases v with _ | e | d <;> simp [drop, restored, restoreEvents_eq]

/-- A receipt as it is read: an error, or a sound delivery with the events it was built from. -/
inductive Fresh : RawDeliveryReceipt → Prop where
  | error (error : BlpError) : Fresh ⟨some (.error error), []⟩
  | delivery {delivery : SubscriptionDelivery} {events : List Event} : delivery.Sound →
      delivery.events = events → Fresh ⟨some (.ok delivery), events⟩

theorem Fresh.restored_ne_nil {receipt : RawDeliveryReceipt} (h : receipt.Fresh) :
    receipt.restored ≠ [] := by
  cases h with
  | error error => simp [restored]
  | @delivery delivery events hsound heve =>
    have hr := hsound.rows
    rw [← heve]
    cases hc : delivery.data.rows with
    | nil => exact absurd hc hr
    | cons first rest => simp [restored, SubscriptionDelivery.events, hc]

end RawDeliveryReceipt

open RawDeliveryReceipt

/-- Reading never fails, takes a prefix of the stream and leaves the batcher empty. -/
theorem readReadyDelivery_spec (hr : batcher.rows = [])
    (a : Event) (pending : List Event) (rx : Option Receiver) (lim : ℕ) :
    ∃ r pending' rx' batcher',
      readReadyDelivery batcher a pending rx lim = some (r, pending', rx', batcher') ∧
      batcher'.rows = [] ∧ r.Fresh ∧
      a :: (pending ++ queued rx) = r.restored ++ (pending' ++ queued rx') := by
  cases a with
  | error e =>
    exact ⟨_, _, _, _, rfl, hr, .error e, rfl⟩
  | update update gapBefore =>
    obtain ⟨us, pending', rx', hc, hs, hl⟩ :=
      collectReady_spec update (max lim 1 - 1) [.update update gapBefore] pending rx
    obtain ⟨l, hk, hf⟩ := flush_foldl_appendEvent hr update gapBefore hl
    have hso : (⟨⟨l, update :: us⟩, gapBefore⟩ : SubscriptionDelivery).Sound := by
      refine ⟨cons_ne_nil _ _, ?_⟩
      intro u hu
      rw [layoutsMatch_iff, hk]
      rcases mem_cons.mp hu with rfl | hu
      · rfl
      · exact (hl u hu).symm
    refine ⟨⟨some (.ok ⟨⟨l, update :: us⟩, gapBefore⟩), _⟩, pending', rx',
      ⟨some l, []⟩, ?_, rfl, .delivery hso rfl, ?_⟩
    · simp only [readReadyDelivery, hc, singleton_append, hf, Option.map_some]
      rfl
    · simp [hs, RawDeliveryReceipt.restored, SubscriptionDelivery.events]

/-! ### Drains -/

namespace DeliveryDrainTransaction

/-- The receipts as a drop finds them, with the error of the stream back in its place. -/
def restoredReceipts (receipts : List RawDeliveryReceipt) :
    Option DrainFailure → List RawDeliveryReceipt
  | some ⟨.blp error, .stream index⟩ => receipts.modify index (·.restoreError error)
  | _ => receipts

/-- What a drop of the transaction puts back. -/
def restored (transaction : DeliveryDrainTransaction) : List Event :=
  (restoredReceipts transaction.receipts transaction.failure).flatMap RawDeliveryReceipt.restored

theorem restoreFailure_fst (transaction : DeliveryDrainTransaction) :
    transaction.restoreFailure.1 = restoredReceipts transaction.receipts transaction.failure := by
  unfold restoreFailure restoredReceipts
  split <;> simp_all

theorem drop_fst (transaction : DeliveryDrainTransaction) (pending : List Event) :
    (transaction.drop pending).1 = transaction.restored ++ pending := by
  have hf : ∀ rs : List RawDeliveryReceipt, rs.foldr RawDeliveryReceipt.drop pending =
        rs.flatMap RawDeliveryReceipt.restored ++ pending := by
    intro rs
    induction rs with
    | nil => rfl
    | cons r rs ih =>
      rw [foldr_cons, ih, drop_eq, flatMap_cons, append_assoc]
  rw [restored, ← restoreFailure_fst]
  exact hf _

/-- The failure is an error of the stream that was taken out of one of the receipts. -/
def FailureFits (receipts : List RawDeliveryReceipt) (taken : List Event)
    (failure : DrainFailure) : Prop :=
  ∃ error index, failure = ⟨.blp error, .stream index⟩ ∧ .error error ∈ taken ∧
    index < receipts.length

/-- A transaction that is being filled gives back all events it has taken on a drop, and has them
as deliveries as long as there is no failure. -/
structure Fits (transaction : DeliveryDrainTransaction) (taken : List Event) : Prop where
  restored : transaction.restored = taken
  sound : ∀ delivery ∈ transaction.deliveries, delivery.Sound
  delivered : transaction.failure = none →
    transaction.deliveries.flatMap SubscriptionDelivery.events = taken
  failed : ∀ failure, transaction.failure = some failure →
    FailureFits transaction.receipts taken failure

variable {transaction : DeliveryDrainTransaction} {taken : List Event}

theorem fits_start (src : ClosedDeliverySource) : Fits ⟨src, [], [], none⟩ [] :=
  ⟨rfl, by simp, fun _ => rfl, by simp⟩

theorem Fits.of_source (h : transaction.Fits taken) (src : ClosedDeliverySource) :
    { transaction with source := src }.Fits taken :=
  ⟨h.restored, h.sound, h.delivered, h.failed⟩

variable {rs : List RawDeliveryReceipt}

theorem FailureFits.append {failure : DrainFailure}
    (h : FailureFits rs taken failure) (r : RawDeliveryReceipt) (more : List Event) :
    FailureFits (rs ++ [r]) (taken ++ more) failure := by
  obtain ⟨e, i, heq, hm, hlt⟩ := h
  refine ⟨e, i, heq, mem_append_left _ hm, ?_⟩
  rw [length_append]
  omega

/-- A further receipt does not move the place of the failure. -/
theorem restoredReceipts_append {failure : Option DrainFailure}
    (h : ∀ f, failure = some f → FailureFits rs taken f) (r : RawDeliveryReceipt) :
    restoredReceipts (rs ++ [r]) failure = restoredReceipts rs failure ++ [r] := by
  cases failure with
  | none => rfl
  | some failure =>
    obtain ⟨e, i, rfl, -, hlt⟩ := h failure rfl
    rw [restoredReceipts, restoredReceipts, modify_append_of_lt hlt]

theorem Fits.push (h : transaction.Fits taken) {r : RawDeliveryReceipt} (hfr : r.Fresh) :
    (transaction.push r).Fits (taken ++ r.restored) := by
  have hr := h.restored
  rw [DeliveryDrainTransaction.restored] at hr
  cases hfr with
  | @delivery delivery events hsound heve =>
    refine ⟨?_, ?_, ?_, ?_⟩
    · have ha := restoredReceipts_append h.failed ⟨none, events⟩
      simp [DeliveryDrainTransaction.push, DeliveryDrainTransaction.restored, takeSuccess, ha,
        hr, RawDeliveryReceipt.restored]
    · intro d hd
      rcases mem_append.mp hd with hd | hd
      · exact h.sound d hd
      · exact mem_singleton.mp hd ▸ hsound
    · intro hn
      simp [DeliveryDrainTransaction.push, takeSuccess, h.delivered hn, heve,
        RawDeliveryReceipt.restored]
    · intro failure hf
      exact (h.failed failure hf).append _ _
  | error e =>
    cases hf : transaction.failure with
    | none =>
      have hre : transaction.receipts.flatMap RawDeliveryReceipt.restored = taken := by
        simpa [hf, restoredReceipts] using hr
      refine ⟨?_, ?_, ?_, ?_⟩
      · simp [DeliveryDrainTransaction.push, DeliveryDrainTransaction.restored, takeSuccess,
          takeError, hf, restoredReceipts, modify_append_length, restoreError, hre,
          RawDeliveryReceipt.restored]
      · simpa [DeliveryDrainTransaction.push, takeSuccess, takeError, hf] using h.sound
      · intro hn
        simp [DeliveryDrainTransaction.push, takeSuccess, takeError, hf] at hn
      · intro failure heq
        obtain rfl : ⟨.blp e, .stream transaction.receipts.length⟩ = failure := by
          simpa [DeliveryDrainTransaction.push, takeSuccess, takeError, hf] using heq
        refine ⟨e, _, rfl, ?_, ?_⟩
        · simp [RawDeliveryReceipt.restored]
        · simp [DeliveryDrainTransaction.push, takeSuccess, takeError, hf]
    | some failure =>
      have ha := restoredReceipts_append h.failed ⟨some (.error e), []⟩
      refine ⟨?_, ?_, ?_, ?_⟩
      · rw [hf] at ha hr
        simp [DeliveryDrainTransaction.push, DeliveryDrainTransaction.restored, takeSuccess,
          takeError, hf, ha, hr, RawDeliveryReceipt.restored]
      · simpa [DeliveryDrainTransaction.push, takeSuccess, takeError, hf] using h.sound
      · intro hn
        simp [DeliveryDrainTransaction.push, takeSuccess, takeError, hf] at hn
      · intro failure' heq
        obtain rfl : failure = failure' := by
          simpa [DeliveryDrainTransaction.push, takeSuccess, takeError, hf] using heq
        simpa [DeliveryDrainTransaction.push, takeSuccess, takeError, hf] using
          (h.failed failure hf).append _ _

theorem source_push (transaction : DeliveryDrainTransaction) (r : RawDeliveryReceipt) :
    (transaction.push r).source = transaction.source := by
  unfold push
  split
  · rfl
  · split <;> rfl

theorem drain_spec (lim : ℕ) {fuel : ℕ} (h : transaction.Fits taken) (hr : batcher.rows = [])
    (hf : (pending ++ queued transaction.source.receiver).length ≤ fuel) :
    ∃ tx' batcher', transaction.drain lim fuel pending batcher = some (tx', [], batcher') ∧
      queued tx'.source.receiver = [] ∧ batcher'.rows = [] ∧
      tx'.source.cleanupError = transaction.source.cleanupError ∧
      tx'.Fits (taken ++ (pending ++ queued transaction.source.receiver)) := by
  induction fuel generalizing transaction taken batcher pending with
  | zero =>
    have hn := length_eq_zero_iff.mp (Nat.le_zero.mp hf)
    obtain ⟨rfl, hq⟩ := append_eq_nil_iff.mp hn
    exact ⟨transaction, batcher, rfl, hq, hr, rfl, by simpa [hq] using h⟩
  | succ fuel ih =>
    rw [drain]
    split
    · rename_i hp
      have hn := popEvent_eq_none hp
      obtain ⟨rfl, hq⟩ := append_eq_nil_iff.mp hn
      exact ⟨transaction, batcher, rfl, hq, hr, rfl, by simpa [hq] using h⟩
    · rename_i a rest rx hp
      obtain ⟨r, rest', rx', batcher', hre, hr', hfr, hst⟩ :=
        readReadyDelivery_spec hr a rest rx lim
      have ha := (popEvent_eq_some hp).trans hst
      have hpo : 0 < r.restored.length := length_pos_iff.mpr hfr.restored_ne_nil
      let next := { transaction with source := { transaction.source with receiver := rx' } }
      have hne : (next.push r).Fits _ := (h.of_source _).push hfr
      have hs : (next.push r).source = next.source := source_push next r
      have hl : (rest' ++ queued (next.push r).source.receiver).length ≤ fuel := by
        rw [ha, length_append] at hf
        rw [hs]
        exact (by omega : (rest' ++ queued rx').length ≤ fuel)
      obtain ⟨last, batcher'', hd, hq, hr'', hcl, hfi⟩ := ih hne hr' hl
      have hcl' : (next.push r).source.cleanupError = transaction.source.cleanupError := by
        rw [hs]
      refine ⟨last, batcher'', ?_, hq, hr'', hcl.trans hcl', ?_⟩
      · rw [hre]
        exact hd
      · rw [hs] at hfi
        rw [ha, ← append_assoc]
        exact hfi

end DeliveryDrainTransaction

end Xbbg.Deliveries
