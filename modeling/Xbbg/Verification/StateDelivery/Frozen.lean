import Xbbg.Library.Leases
import Xbbg.Verification.StateDelivery.Terminal

/-! The drain of a frozen stream. The frozen images are work that is leased to receipts; the
steps of the system refine the steps on such leases. -/

namespace Xbbg.StateDelivery

open List Library Receiver Receipt

/-- What a live receipt acknowledges stays acknowledged, and what it publishes stays so. -/
def CoverKeeps (members members' : Table DirtyMember) : Prop :=
  ∀ k member, members.get k = some member → ∃ member', members'.get k = some member' ∧
    (∀ seen, member.acknowledged = some seen →
      ∃ seen', member'.acknowledged = some seen' ∧ seen ≤ seen') ∧
    (member'.invalidated = member.invalidated ∨ member'.invalidated = none)

theorem CoverKeeps.refl (members : Table DirtyMember) : CoverKeeps members members :=
  fun _ member hg => ⟨member, hg, fun seen hs => ⟨seen, hs, le_rfl⟩, .inl rfl⟩

def Covered (images : List FrozenImage) (members : Table DirtyMember) (id : ℕ) : Prop :=
  ∃ image member, images[id]? = some image ∧ members.get image.key = some member ∧
    image.coveredBy member = true

theorem Covered.mono {images : List FrozenImage} {ms ms' : Table DirtyMember} {id : ℕ}
    (h : Covered images ms id) (hk : CoverKeeps ms ms') :
    Covered images ms' id := by
  obtain ⟨im, m, hi, hg, hc⟩ := h
  obtain ⟨m', hg', ha, hin⟩ := hk _ m hg
  refine ⟨im, m', hi, hg', ?_⟩
  simp only [FrozenImage.coveredBy, Bool.and_eq_true, Option.any_eq_true, decide_eq_true_eq] at hc ⊢
  obtain ⟨⟨seen, hs, hle⟩, hmar⟩ := hc
  obtain ⟨seen', hs', hle'⟩ := ha seen hs
  refine ⟨⟨seen', hs', hle.trans hle'⟩, ?_⟩
  rcases hin with heq | heq
  · rw [heq]
    exact hmar
  · rw [heq]
    cases im.invalidated <;> simp

/-- Giving a live receipt back to a stream that is closing removes no member. -/
theorem coverKeeps_finish {st : DirtyState} (hc : st.closing = true)
    {ks : List ReceiptKey} (hn : (ks.map (·.key)).Nodup) (committed : Bool) :
    CoverKeeps st.members (st.finish ks committed).members := by
  intro k m hg
  by_cases hk : k ∈ ks.map (·.key)
  · obtain ⟨e, he, rfl⟩ := mem_map.mp hk
    have hf := DirtyState.finished_finish hn he hg committed
    generalize (st.finish ks committed).members.get e.key = result at hf
    cases hf with
    | removed ho _ _ _ => simp [hc] at ho
    | kept queued =>
      refine ⟨_, rfl, fun seen hs => ?_, ?_⟩
      · cases committed with
        | false => exact ⟨seen, hs, le_rfl⟩
        | true =>
          exact ⟨max seen e.acknowledged, by simp [DirtyState.settleMember, hs], le_max_left _ _⟩
      · cases committed with
        | false => exact .inl rfl
        | true =>
          simp only [DirtyState.settleMember, if_true]
          split
          · exact .inr rfl
          · exact .inl rfl
  · rw [DirtyState.get_finish_of_notMem hk]
    exact CoverKeeps.refl _ k m hg

/-- Ascending images of one recovery epoch. -/
structure Batch (images : List FrozenImage) (ids : List ℕ) : Prop where
  sorted : ids.Pairwise (· < ·)
  epoch : ∃ epoch, ∀ id ∈ ids, ∀ image, images[id]? = some image → image.recoveryEpoch = epoch

theorem batch_nil (images : List FrozenImage) : Batch images [] :=
  ⟨.nil, false, by simp⟩

namespace DirtyState

structure FrozenSelected (images : List FrozenImage) (members : Table DirtyMember)
    (epoch : Option Bool) (queue : List ℕ) (found : FrozenSelection) : Prop where
  selected : found.selected.Sublist queue
  rest : found.queue.Sublist queue
  perm : queue.Perm (found.selected ++ (found.skipped ++ found.queue))
  covered : ∀ id ∈ found.skipped, Covered images members id
  epochs : ∃ same, (∀ before, epoch = some before → same = before) ∧
    ∀ id ∈ found.selected, ∀ image, images[id]? = some image → image.recoveryEpoch = same

theorem frozenSelected_none (images : List FrozenImage) (ms : Table DirtyMember)
    (epoch : Option Bool) (q : List ℕ) :
    FrozenSelected images ms epoch q ⟨[], [], q⟩ := by
  refine ⟨by simp, .refl q, .refl q, by simp, epoch.getD false, ?_, by simp⟩
  rintro before rfl
  rfl

theorem selectFrozen_spec (images : List FrozenImage) (ms : Table DirtyMember) (lim : ℕ)
    (epoch : Option Bool) (q : List ℕ) :
    FrozenSelected images ms epoch q (selectFrozen images ms lim epoch q) := by
  induction q generalizing lim epoch with
  | nil => cases lim <;> exact frozenSelected_none images ms epoch []
  | cons id rest ih =>
    cases lim with
    | zero => exact frozenSelected_none images ms epoch (id :: rest)
    | succ lim =>
      simp only [selectFrozen]
      split
      · exact frozenSelected_none images ms epoch (id :: rest)
      · rename_i im hi
        split
        · rename_i ha
          obtain ⟨m, hg, hc⟩ := Option.any_eq_true _ _ |>.mp ha
          obtain ⟨hs, hr, hp, hsk, he⟩ := ih (lim + 1) epoch
          refine ⟨hs.cons id, hr.cons id, ?_, ?_, he⟩
          · exact (hp.cons id).trans perm_middle.symm
          · intro o ho
            rcases mem_cons.mp ho with rfl | ho
            · exact ⟨im, m, hi, hg, hc⟩
            · exact hsk o ho
        · split
          · exact frozenSelected_none images ms epoch (id :: rest)
          · rename_i hst
            obtain ⟨hs, hr, hp, hsk, same, hb, he⟩ :=
              ih lim (some im.recoveryEpoch)
            have hsa : same = im.recoveryEpoch := hb _ rfl
            refine ⟨hs.cons_cons id, hr.cons id, hp.cons id, hsk, same, ?_, ?_⟩
            · rintro before rfl
              simp only [Option.any_some, Bool.or_eq_true, bne_iff_ne, not_or, ne_eq,
                not_not] at hst
              rw [hsa, hst.2]
            · intro o ho x hf
              rcases mem_cons.mp ho with rfl | ho
              · cases hi.symm.trans hf
                exact hsa.symm
              · exact he o ho x hf

theorem requeueFrozen_spec {images : ℕ} {ids queue : List ℕ} (hq : queue.Pairwise (· < ·))
    (hn : (ids ++ queue).Nodup) (hlt : ∀ id ∈ ids, id < images) :
    (ids.foldl (requeueFrozen images) queue).Pairwise (· < ·) ∧
    (ids.foldl (requeueFrozen images) queue).Perm (ids ++ queue) := by
  induction ids generalizing queue with
  | nil => exact ⟨hq, .refl queue⟩
  | cons id ids ih =>
    obtain ⟨hno, hn'⟩ := nodup_cons.mp hn
    have hne : id ∉ queue := fun hme => hno (mem_append_right _ hme)
    have hi : requeueFrozen images queue id = queue.orderedInsert (· < ·) id := by
      simp [requeueFrozen, hne, hlt id (by simp)]
    have hp := perm_orderedInsert (· < ·) id queue
    have hm : (ids ++ queue.orderedInsert (· < ·) id).Perm (id :: (ids ++ queue)) :=
      (hp.append_left ids).trans perm_middle
    rw [foldl_cons, hi]
    obtain ⟨hs, hp'⟩ := ih (pairwise_lt_orderedInsert hq hne)
      (hm.nodup_iff.mpr hn) fun other ho => hlt other (mem_cons_of_mem _ ho)
    exact ⟨hs, hp'.trans hm⟩

/-- Every first image has a smaller number than every recovery image. -/
def EpochsInOrder (images : List FrozenImage) : Prop :=
  ∀ (i j : ℕ) (first recovery : FrozenImage), images[i]? = some first →
    images[j]? = some recovery → first.recoveryEpoch = false → recovery.recoveryEpoch = true →
    i < j

theorem epochsInOrder_buildImages (snaps : List Snapshot) : EpochsInOrder (buildImages snaps) := by
  have hf : ∀ snap : Snapshot, snap.firstImage.recoveryEpoch = false := by
    intro snap
    unfold Snapshot.firstImage
    split <;> rfl
  have hr : ∀ snap im, Snapshot.recoveryImage snap = some im → im.recoveryEpoch = true := by
    intro snap im him
    unfold Snapshot.recoveryImage at him
    split at him
    · cases him
      rfl
    · simp at him
  intro i j a recovery hi hj hfa ht
  by_contra hle
  -- A first image past the first block, or a recovery image inside it, is impossible.
  by_cases hb : j < snaps.length
  · rw [buildImages, getElem?_append_left (by simpa using hb), getElem?_map] at hj
    obtain ⟨snap, -, rfl⟩ := Option.map_eq_some_iff.mp hj
    simp [hf] at ht
  · rw [buildImages, getElem?_append_right (by simp; omega)] at hi
    obtain ⟨snap, -, him⟩ := mem_filterMap.mp (mem_of_getElem? hi)
    simp [hr snap a him] at hfa

end DirtyState

/-- The frozen images that the receiver has selected and not yet handed out. -/
def Receiver.batch : Receiver → List ℕ
  | .frozenSelected ids => ids
  | _ => []

@[simp] theorem batch_idle : idle.batch = [] :=
  rfl

def Receiver.isLive : Receiver → Bool
  | .reading _ _ | .fallback _ _ _ | .removing _ _ _ | .settling _ _ _ _ _ => true
  | _ => false

namespace System

open DirtyState

variable {ordered : Prop} {s t : System} {receipt : Receipt}

def batches (s : System) : List (List ℕ) :=
  s.receiver.batch :: s.receipts.map (·.frozenIds)

def leases (s : System) : Leases ℕ :=
  ⟨s.dirty.frozenQueue, s.batches.flatten, s.committed.flatMap (·.frozenIds), s.skipped⟩

/-- A freeze is complete, and neither a failure nor the receiver has ended the drain. -/
structure Drains (s : System) : Prop where
  frozen : s.dirty.frozen = true
  freezing : s.dirty.freezing = false
  failure : s.failure = none
  receiverClosed : s.dirty.receiverClosed = false

/-- What holds of the frozen images during the drain. -/
structure Draining (ordered : Prop) (s : System) : Prop where
  accounts : s.leases.Accounts (List.range s.dirty.frozenImages.length)
  covered : ∀ id ∈ s.skipped, Covered s.dirty.frozenImages s.dirty.members id
  batches : ∀ batch ∈ s.batches ++ s.committed.map (·.frozenIds), Batch s.dirty.frozenImages batch
  epochs : DirtyState.EpochsInOrder s.dirty.frozenImages
  inOrder : ordered → s.leases.InOrder

structure Frozen (ordered : Prop) (s : System) : Prop where
  early : s.dirty.frozen = false ∨ s.dirty.freezing = true →
    s.leases.leased = [] ∧ s.leases.finished = [] ∧ s.skipped = []
  live : s.dirty.frozen = true → s.receiver.isLive = false
  drains : s.Drains → s.Draining ordered

theorem frozen_new (ordered : Prop) : System.new.Frozen ordered :=
  ⟨fun _ => by simp [leases, batches, new, batch], by simp [new, DirtyState.new],
    fun h => by simpa [new, DirtyState.new] using h.frozen⟩

theorem Draining.step (h : s.Draining ordered)
    (hi : t.dirty.frozenImages = s.dirty.frozenImages) (hs : Leases.Step s.leases t.leases)
    (hm : CoverKeeps s.dirty.members t.dirty.members)
    (hsk : ∀ id ∈ t.skipped, id ∈ s.skipped ∨ Covered s.dirty.frozenImages s.dirty.members id)
    (hb : ∀ b ∈ t.batches ++ t.committed.map (·.frozenIds), b ∈ s.batches ++
      s.committed.map (·.frozenIds) ∨ Batch s.dirty.frozenImages b)
    (hor : ordered → ∀ b, t.leases.finished = s.leases.finished ++ b → b.Pairwise
      (· < ·) ∧ ∀ id ∈ b, ∀ later ∈ t.leases.queue ++ t.leases.leased, id < later) :
    t.Draining ordered := by
  refine ⟨?_, ?_, ?_, ?_, fun ho => hs.inOrder (h.inOrder ho) (hor ho)⟩
  · rw [hi]
    exact hs.accounts h.accounts
  · intro id hid
    rw [hi]
    rcases hsk id hid with hol | hn
    · exact (h.covered id hol).mono hm
    · exact hn.mono hm
  · intro b hba
    rw [hi]
    exact (hb b hba).elim (h.batches b) id
  · rw [hi]
    exact h.epochs

/-- The drain is where it was, up to empty batches. -/
structure SameDrain (s t : System) : Prop where
  frozen : t.dirty.frozen = s.dirty.frozen
  freezing : t.dirty.freezing = s.dirty.freezing
  frozenImages : t.dirty.frozenImages = s.dirty.frozenImages
  frozenQueue : t.dirty.frozenQueue = s.dirty.frozenQueue
  receiverClosed : t.dirty.receiverClosed = s.dirty.receiverClosed
  failure : t.failure = s.failure
  committed : t.committed = s.committed
  skipped : t.skipped = s.skipped
  leased : t.batches.flatten.Perm s.batches.flatten
  batches : ∀ batch ∈ t.batches, batch = [] ∨ batch ∈ s.batches

theorem SameDrain.of_sameStream (hd : SameStream s.dirty t.dirty)
    (hf : t.failure = s.failure) (hc : t.committed = s.committed)
    (hs : t.skipped = s.skipped) (hb : t.batches = s.batches) : SameDrain s t :=
  ⟨hd.frozen, hd.freezing, hd.frozenImages, hd.frozenQueue,
    hd.receiverClosed, hf, hc, hs, hb ▸ .refl _,
    fun _ hm => .inr (hb ▸ hm)⟩

theorem batches_give (s : System) (receipt : Receipt) :
    (s.give receipt).batches = [] :: (s.receipts.map (·.frozenIds) ++ [receipt.frozenIds]) := by
  simp [System.batches, System.give, batch]

theorem SameDrain.give (hb : receipt.frozenIds = s.receiver.batch)
    (hf : t.dirty.frozen = s.dirty.frozen) (hfr : t.dirty.freezing = s.dirty.freezing)
    (hi : t.dirty.frozenImages = s.dirty.frozenImages)
    (hq : t.dirty.frozenQueue = s.dirty.frozenQueue)
    (hc : t.dirty.receiverClosed = s.dirty.receiverClosed) (hfa : t.failure = s.failure)
    (hco : t.committed = s.committed) (hs : t.skipped = s.skipped)
    (hr : t.receipts = s.receipts) : SameDrain s (t.give receipt) := by
  refine ⟨hf, hfr, hi, hq, hc, hfa, hco, hs, ?_, ?_⟩
  · rw [batches_give, hr, hb]
    simp only [System.batches, flatten_cons, flatten_append, nil_append, flatten_nil, append_nil]
    exact perm_append_comm
  · intro b hm
    rw [batches_give, hr, hb] at hm
    simp only [mem_cons, mem_append, not_mem_nil, or_false] at hm
    simp only [System.batches, mem_cons]
    tauto

theorem batches_perm {i : ℕ} (hg : s.receipts[i]? = some receipt) :
    s.batches.Perm (receipt.frozenIds ::
      (s.receiver.batch :: (s.receipts.eraseIdx i).map (·.frozenIds))) := by
  obtain ⟨front, back, hs, he, -⟩ := exists_split_of_getElem? hg
  rw [batches, he, hs]
  simp only [map_append, map_cons]
  exact (perm_middle.cons s.receiver.batch).trans (.swap _ _ _)

theorem commit_drain (st : DirtyState) (ht : receipt.terminal = false) :
    (receipt.commit st).frozenQueue = st.frozenQueue ∧
    (receipt.commit st).receiverClosed = st.receiverClosed := by
  simp only [commit, ht, Bool.false_eq_true, if_false]
  split
  · have hs := sameStream_finish st receipt.keys true
    exact ⟨hs.frozenQueue, hs.receiverClosed⟩
  · exact ⟨rfl, rfl⟩

theorem drop_drain (st : DirtyState) (ht : receipt.terminal = false) :
    (receipt.drop st).frozenQueue = (st.finishFrozen receipt.frozenIds false).frozenQueue ∧
    (receipt.drop st).receiverClosed = st.receiverClosed := by
  simp only [Receipt.drop, ht, Bool.false_eq_true, if_false]
  split
  · rename_i he
    have hs := sameStream_finish st receipt.keys false
    refine ⟨?_, hs.receiverClosed⟩
    rw [hs.frozenQueue, isEmpty_iff.mp he]
    simp [finishFrozen]
  · unfold finishFrozen
    split <;> exact ⟨rfl, rfl⟩

theorem coverKeeps_giveBack (hb : s.Base) (hd : s.Drains) (hm : receipt ∈ s.receipts)
    (ht : receipt.terminal = false) :
    CoverKeeps s.dirty.members (receipt.commit s.dirty).members ∧
    CoverKeeps s.dirty.members (receipt.drop s.dirty).members := by
  have hc : s.dirty.closing = true := by simp [closing, hd.frozen]
  have hf := coverKeeps_finish hc (hb.nodup_keys hm)
  simp only [Receipt.commit, Receipt.drop, ht, Bool.false_eq_true, if_false]
  split
  · exact ⟨hf true, hf false⟩
  · refine ⟨.refl _, ?_⟩
    unfold finishFrozen
    split <;> exact .refl _

/-- A leased batch that is dropped goes back to its place in the queue. -/
theorem requeue_step {ids rest : List ℕ} (hd : s.Drains) (hf : s.Failing)
    (hb : s.Draining ordered) (hp : s.batches.flatten.Perm (ids ++ rest)) :
    Leases.Step s.leases
      { s.leases with
        queue := (s.dirty.finishFrozen ids false).frozenQueue
        leased := rest } := by
  have ht := hf.unset hd.failure
  simp only [HasTerminal, not_or, Bool.not_eq_true, Option.isSome_eq_false_iff] at ht
  have hq : (s.dirty.finishFrozen ids false).frozenQueue =
      ids.foldl (requeueFrozen s.dirty.frozenImages.length) s.dirty.frozenQueue := by
    simp [finishFrozen, hd.frozen, hd.receiverClosed, ht.1, ht.2.1, ht.2.2]
  have hac := hb.accounts
  have ha := hac.perm
  simp only [leases] at ha
  have hn : (s.dirty.frozenQueue ++ (ids ++ rest)).Nodup := by
    have hs : (s.dirty.frozenQueue ++ s.batches.flatten).Sublist
        (s.dirty.frozenQueue ++ (s.batches.flatten ++
          (s.committed.flatMap (·.frozenIds) ++ s.skipped))) :=
      (sublist_append_left _ _).append_left _
    have := hs.nodup (ha.nodup_iff.mpr nodup_range)
    exact (hp.append_left _).nodup_iff.mp this
  have hlt : ∀ id ∈ ids, id < s.dirty.frozenImages.length := by
    intro id hid
    have hm : id ∈ s.batches.flatten := hp.symm.subset (mem_append_left _ hid)
    refine mem_range.mp (ha.subset ?_)
    exact mem_append_right _ (mem_append_left _ hm)
  have hi : (ids ++ s.dirty.frozenQueue).Nodup := by
    refine perm_append_comm.nodup_iff.mp (Nodup.sublist ?_ hn)
    exact (sublist_append_left _ _).append_left _
  obtain ⟨hso, hr⟩ := requeueFrozen_spec hac.sorted hi hlt
  rw [hq]
  exact .requeue ids hp hso hr

section

variable (h : s.Frozen ordered)
include h

theorem Frozen.of_sameDrain (hs : SameDrain s t)
    (hli : s.dirty.frozen = true → t.receiver.isLive = true → s.receiver.isLive = true)
    (hm : s.Drains → s.receiver.isLive = false → CoverKeeps s.dirty.members t.dirty.members) :
    t.Frozen ordered := by
  have hst : Leases.Step s.leases t.leases := by
    have heq : t.leases = { s.leases with leased := t.batches.flatten } := by
      simp [leases, hs.frozenQueue, hs.committed, hs.skipped]
    rw [heq]
    exact .stay hs.leased
  refine ⟨?_, ?_, ?_⟩
  · intro he
    rw [hs.frozen, hs.freezing] at he
    obtain ⟨hle, hfi, hsk⟩ := h.early he
    refine ⟨?_, by simpa [leases, hs.committed] using hfi, hs.skipped.trans hsk⟩
    have hp := hs.leased
    simp only [leases] at hle ⊢
    rwa [hle, perm_nil] at hp
  · intro hf
    have hf' := hs.frozen ▸ hf
    have := h.live hf'
    by_contra hl
    simp [hli hf' (by simpa using hl)] at this
  · intro hd
    have hd' : s.Drains := ⟨hs.frozen ▸ hd.frozen, hs.freezing ▸ hd.freezing,
      hs.failure ▸ hd.failure, hs.receiverClosed ▸ hd.receiverClosed⟩
    refine (h.drains hd').step hs.frozenImages hst (hm hd' (h.live hd'.frozen)) ?_ ?_ ?_
    · intro id hid
      exact .inl (hs.skipped ▸ hid)
    · intro b hb
      rw [hs.committed] at hb
      rcases mem_append.mp hb with hb | hb
      · rcases hs.batches b hb with rfl | hme
        · exact .inr (batch_nil _)
        · exact .inl (mem_append_left _ hme)
      · exact .inl (mem_append_right _ hb)
    · intro _ b hfi
      have hn : b = [] := by simpa [leases, hs.committed] using hfi
      simp [hn]

theorem Frozen.of_not_drains (hno : ¬t.Drains)
    (he : t.dirty.frozen = false ∨ t.dirty.freezing = true → s.dirty.frozen = false ∨
      s.dirty.freezing = true) (hle : t.batches.flatten ⊆ s.batches.flatten)
    (hc : t.committed = s.committed) (hsk : t.skipped = s.skipped)
    (hli : t.dirty.frozen = true → t.receiver.isLive = true → s.dirty.frozen = true ∧
      s.receiver.isLive = true) : t.Frozen ordered := by
  refine ⟨?_, ?_, fun hd => absurd hd hno⟩
  · intro ht
    obtain ⟨hn, hf, hs⟩ := h.early (he ht)
    simp only [leases] at hn hf ⊢
    rw [hn] at hle
    exact ⟨subset_nil.mp hle, hc ▸ hf, hsk.trans hs⟩
  · intro hfr
    by_contra hl
    obtain ⟨hfr', hl'⟩ := hli hfr (by simpa using hl)
    simp [h.live hfr'] at hl'

theorem Frozen.feedStep {a : FeedAction} (hs : FeedStep s a t) : t.Frozen ordered := by
  cases hs with
  | lock feed _ | advance feed _ | unlock feed | deactivate key | seedSchema ns =>
    exact h.of_sameDrain (.of_sameStream (.refl _) rfl rfl rfl rfl) (fun _ => id) fun _ _ => .refl _
  | register feed label recovering _ =>
    have hr := sameStream_register s.dirty s.nextKey feed (s.feeds feed).revision label
    refine h.of_sameDrain (.of_sameStream ?_ rfl rfl rfl rfl) (fun _ => id) fun hd _ => ?_
    · cases recovering with
      | false => exact hr
      | true => exact hr.trans (sameStream_mark _ _ _ _)
    · have hsa : s.dirty.register s.nextKey feed (s.feeds feed).revision label = s.dirty := by
        simp [register, hd.frozen]
      have hm : s.dirty.mark s.nextKey (s.feeds feed).revision true = s.dirty := by
        simp [mark, rejects, hd.frozen]
      simp only [hsa, hm, ite_self]
      exact .refl _
  | mark key _ _ _ | dataLoss key _ _ _ _ =>
    refine h.of_sameDrain (.of_sameStream (sameStream_mark _ _ _ _) rfl rfl rfl rfl)
      (fun _ => id) fun hd _ => ?_
    simp only [mark, rejects, hd.frozen, Bool.or_true, if_true]
    exact .refl _
  | retire key lastUpdate delayed l _ _ _ =>
    refine h.of_sameDrain (.of_sameStream (sameStream_retire _ _ _) rfl rfl rfl rfl)
      (fun _ => id) fun hd _ => ?_
    simp only [retire, rejects, hd.frozen, Bool.or_true, if_true]
    exact .refl _
  | detach key =>
    refine h.of_sameDrain (.of_sameStream (sameStream_detach _ _) rfl rfl rfl rfl)
      (fun _ => id) fun hd _ => ?_
    simp only [detach, hd.frozen, Bool.true_or, if_true]
    exact .refl _
  | failLate e _ => exact h
  | fail e hc hde hf =>
    refine h.of_not_drains (fun hd => by simpa using hd.failure) ?_ (fun _ => id)
      rfl rfl ?_
    · simp [fail, hc, hde, hf]
    · simp only [fail, hc, hde, hf, Bool.or_self, Bool.false_eq_true, if_false]
      exact fun hfr hl => ⟨hfr, hl⟩
  | closeSource =>
    refine h.of_sameDrain ?_ (fun _ => id) fun hd _ => ?_
    · unfold closeSource
      split <;> exact ⟨rfl, rfl, rfl, rfl, rfl, rfl, rfl, rfl, .refl _, fun _ => .inr⟩
    · simp only [closeSource, hd.frozen, Bool.not_true, Bool.false_and,
        Bool.false_eq_true, if_false]
      exact .refl _

theorem Frozen.of_receiver {receiver : Receiver} (hb : receiver.batch = s.receiver.batch)
    (hl : receiver.isLive = true → s.receiver.isLive = true) :
    { s with receiver := receiver }.Frozen ordered := by
  refine h.of_sameDrain (.of_sameStream (.refl _) rfl rfl rfl ?_) (fun _ => hl) fun _ _ => .refl _
  simp [batches, hb]

theorem Frozen.select (hi : s.receiver = .idle) (hs : Selecting s.dirty)
    (hfr : s.dirty.frozen = true) {x : FrozenSelection}
    (hf : FrozenSelected s.dirty.frozenImages s.dirty.members none s.dirty.frozenQueue x) :
    Frozen ordered
      { s with
        dirty := { s.dirty with frozenQueue := x.queue }
        skipped := s.skipped ++ x.skipped
        receiver := if x.selected = [] then .idle else .frozenSelected x.selected } := by
  have hb : (if x.selected = [] then idle
      else .frozenSelected x.selected).batch = x.selected := by
    split
    · rename_i hn
      simp [hn, batch]
    · rfl
  refine ⟨?_, ?_, ?_⟩
  · simp [hfr, hs.freezing]
  · intro _
    simp only
    split <;> rfl
  · intro hd
    have hbe := h.drains ⟨hfr, hs.freezing, hd.failure, hs.receiverClosed⟩
    refine hbe.step rfl ?_ (.refl _) ?_ ?_ ?_
    · refine .select x.selected x.skipped hf.rest hf.perm ?_
      simp [batches, hb, leases, hi]
    · intro id hid
      exact (mem_append.mp hid).imp_right (hf.covered id)
    · intro b hm
      obtain ⟨epoch, -, he⟩ := hf.epochs
      simp only [batches, hb, cons_append, mem_cons, mem_append] at hm ⊢
      rcases hm with rfl | hm
      · exact .inr ⟨hbe.accounts.sorted.sublist hf.selected, epoch, he⟩
      · exact .inl (.inr hm)
    · intro _ b hfi
      have hn : b = [] := by simpa [leases] using hfi
      simp [hn]

theorem Frozen.publish (hb : s.Base) (hfa : s.Failing) {snaps : List Snapshot}
    (hr : s.receiver = .publishing snaps) :
    Frozen ordered
      { s with
        dirty := s.dirty.publishFrozen (buildImages snaps)
        receiver := .idle } := by
  have hfr := hb.freezing (by simp [hr])
  obtain ⟨hl, hf, hs⟩ := h.early (.inr hfr)
  have hrc : ∀ receipt ∈ s.receipts, receipt.frozenIds = [] := by
    simpa [leases, batches, hr, batch] using hl
  have hc : ∀ receipt ∈ s.committed, receipt.frozenIds = [] := by
    simpa [leases] using hf
  refine ⟨by simp [publishFrozen], fun _ => rfl, fun hd => ?_⟩
  have ht := hfa.unset hd.failure
  simp only [HasTerminal, not_or, Bool.not_eq_true, Option.isSome_eq_false_iff] at ht
  have hq : (s.dirty.publishFrozen (buildImages snaps)).frozenQueue =
      range (buildImages snaps).length := by
    have ho : s.dirty.receiverClosed = false := hd.receiverClosed
    simp [publishFrozen, ho, ht.1, ht.2.2]
  refine ⟨⟨?_, ?_⟩, ?_, ?_, epochsInOrder_buildImages snaps, fun _ => ⟨?_, ?_⟩⟩
  · simp only [leases, hq]
    exact pairwise_lt_range
  · have hn : s.leases.finished = [] := hf
    simp only [leases] at hn
    simp only [leases, hq, hs, hn, batches, batch, append_nil, flatten_cons, nil_append]
    have hma : (s.receipts.map (·.frozenIds)).flatten = [] := by simpa using hrc
    rw [hma, append_nil]
    exact .refl _
  · simp [hs]
  · intro b hm
    have hn : b = [] := by
      simp only [batches, batch, cons_append, mem_cons, mem_append, mem_map] at hm
      rcases hm with rfl | ⟨receipt, hre, rfl⟩ | ⟨receipt, hre, rfl⟩
      · rfl
      · exact hrc receipt hre
      · exact hc receipt hre
    subst hn
    exact batch_nil _
  · have hn : s.leases.finished = [] := hf
    simp only [leases] at hn ⊢
    simp [hn]
  · have hn : s.leases.finished = [] := hf
    simp only [leases] at hn ⊢
    simp [hn]

theorem Frozen.receiverStep {a : ReceiverAction} (hb : s.Base) (hfa : s.Failing)
    (hs : ReceiverStep s a t) : t.Frozen ordered := by
  cases hs with
  | nothing lim _ _ | closedAlready _ _ => exact h
  | terminal lim hi _ _ =>
    exact h.of_sameDrain
      (.give (by simp [hi, batch, ofTerminal]) rfl rfl rfl rfl rfl rfl rfl
        rfl rfl)
      (fun _ hl => by simp [System.give, isLive] at hl) fun _ _ => .refl _
  | frozen lim hi hse _ hf hfo =>
    exact h.select hi hse hf (hfo ▸ selectFrozen_spec _ _ _ _ _)
  | @live lim ms queue table hi _ _ hf _ =>
    refine h.of_not_drains (fun hd => by simpa [hf] using hd.frozen)
      (fun _ => .inl hf) ?_ rfl rfl (by simp [hf])
    have hba : (if ms = [] then idle else .reading ms []).batch = [] := by
      split <;> rfl
    simp [batches, hi, hba]
  | useFinal hr _ | capture row hr _ _ _ | captureMissing hr _
  | fallbackFinal hr _ _ | fallbackNone hr _ | settle hr _ =>
    exact h.of_receiver (by simp [hr, batch]) (by simp [hr, isLive])
  | removeMissing hr =>
    refine h.of_sameDrain (.of_sameStream (sameStream_remove _ _) rfl rfl rfl
        (by simp [batches, hr, batch]))
      (by simp [hr, isLive]) (by simp [hr, isLive])
  | issueNothing hr
  | freezeSkip hr _ | freezeCapture row hr _ _ _ | freezeMissing hr _ =>
    exact h.of_receiver (by simp [hr, batch]) (by simp [isLive])
  | issueLive hr _ | issueFrozen hr =>
    exact h.of_sameDrain (.give (by simp [hr, batch]) rfl rfl rfl rfl rfl rfl rfl rfl rfl)
      (fun _ hl => by simp [giveRows, System.give, isLive] at hl)
      fun _ _ => .refl _
  | prepareClose hi hbe =>
    obtain ⟨-, hf, -, -, rfl⟩ := beginFreeze_spec hbe
    refine h.of_not_drains (fun hd => by simpa using hd.freezing)
      (fun _ => .inl hf) ?_ rfl rfl (by simp [isLive])
    simp [batches, hi, batch]
  | @freezeStore _ _ key image remove _ hr hsto =>
    have hst := sameStream_storeFreeze s.dirty key image
    rw [hsto] at hst
    have hfr := hb.freezing (by simp [hr])
    refine h.of_sameDrain (.of_sameStream hst rfl rfl rfl ?_) ?_
      fun hd _ => by simp [hd.freezing] at hfr
    · cases remove <;> simp [batches, hr, batch]
    · cases remove <;> simp [isLive]
  | freezeRemove hr =>
    have hfr := hb.freezing (by simp [hr])
    refine h.of_sameDrain (.of_sameStream (sameStream_remove _ _) rfl rfl rfl
        (by simp [batches, hr, batch]))
      (by simp [isLive]) fun hd _ => by simp [hd.freezing] at hfr
  | freezeTake hr hfe =>
    have hfr := hb.freezing (by simp [hr])
    obtain ⟨-, rfl⟩ := Prod.mk.inj hfe
    refine h.of_not_drains (fun hd => by simpa [hfr] using hd.freezing)
      (fun _ => .inr hfr) ?_ rfl rfl (by simp [isLive])
    simp [batches, hr, batch]
  | freezePublish hr => exact h.publish hb hfa hr
  | close =>
    refine h.of_not_drains (fun hd => by simpa [close] using hd.receiverClosed)
      id ?_ rfl rfl (by simp [isLive])
    simp [batches, batch]

/-- A receipt over frozen images is committed before every image that stays open. -/
def CommitsInOrder (s : System) : Action → Prop
  | .receipt .commit index => ∀ receipt, s.receipts[index]? = some receipt →
      ∀ id ∈ receipt.frozenIds, ∀ later ∈ s.dirty.frozenQueue ++
        (s.receiver.batch ++ (s.receipts.eraseIdx index).flatMap (·.frozenIds)), id < later
  | _ => True

instance (s : System) : (a : Action) → Decidable (s.CommitsInOrder a)
  | .receipt .commit index => inferInstanceAs (Decidable (∀ receipt ∈ s.receipts[index]?,
      ∀ id ∈ receipt.frozenIds, ∀ later ∈ s.dirty.frozenQueue ++
        (s.receiver.batch ++ (s.receipts.eraseIdx index).flatMap (·.frozenIds)), id < later))
  | .receipt .takeSuccess _ | .receipt .takeError _ | .receipt .restoreError _ | .receipt .drop _
  | .feed _ | .receiver _ => .isTrue trivial

theorem Frozen.of_modify (i : ℕ) {f : Receipt → Receipt} (hf : KeepsRows f) :
    { s with receipts := s.receipts.modify i f }.Frozen ordered := by
  refine h.of_sameDrain (.of_sameStream (.refl _) rfl rfl rfl ?_) (fun _ => id) fun _ _ => .refl _
  cases hg : s.receipts[i]? with
  | none => rw [modify_eq_self (getElem?_eq_none_iff.mp hg)]
  | some receipt =>
    obtain ⟨front, back, hs, -, hm⟩ := exists_split_of_getElem? hg
    simp only [batches, hm, map_append, map_cons, (hf receipt).2.1]
    simp only [hs, map_append, map_cons]

theorem Frozen.giveBack {i : ℕ} (hg : s.receipts[i]? = some receipt)
    (hf : t.dirty.frozen = s.dirty.frozen) (hfr : t.dirty.freezing = s.dirty.freezing)
    (hi : t.dirty.frozenImages = s.dirty.frozenImages)
    (hcl : s.failure = none → t.dirty.receiverClosed = s.dirty.receiverClosed)
    (hfa : t.failure = s.failure) (hr : t.receiver = s.receiver)
    (hre : t.receipts = s.receipts.eraseIdx i)
    (hc : ∀ o ∈ t.committed, o ∈ s.committed ∨ o = receipt) (hs : t.skipped = s.skipped)
    (hme : s.Drains → CoverKeeps s.dirty.members t.dirty.members)
    (hst : s.Drains → s.Draining ordered → s.batches.flatten.Perm (receipt.frozenIds ++
      t.batches.flatten) → Leases.Step s.leases t.leases)
    (hor : ordered → s.Drains → s.Draining ordered → ∀ b, t.leases.finished = s.leases.finished ++
      b → b.Pairwise (· < ·) ∧ ∀ id ∈ b, ∀ later ∈ t.leases.queue ++ t.leases.leased, id
      < later) : t.Frozen ordered := by
  have hp : s.batches.Perm (receipt.frozenIds :: t.batches) := by
    rw [show t.batches = s.receiver.batch :: (s.receipts.eraseIdx i).map (·.frozenIds) by
      simp [batches, hr, hre]]
    exact batches_perm hg
  have hm : receipt.frozenIds ∈ s.batches := hp.symm.subset (mem_cons_self ..)
  have hsu : ∀ b ∈ t.batches, b ∈ s.batches := fun b hb =>
    hp.symm.subset (mem_cons_of_mem _ hb)
  refine ⟨?_, ?_, ?_⟩
  · intro he
    rw [hf, hfr] at he
    obtain ⟨hn, hfi, hsk⟩ := h.early he
    simp only [leases, flatten_eq_nil_iff, flatMap_eq_nil_iff] at hn hfi ⊢
    refine ⟨fun b hb => hn b (hsu b hb), ?_, hs.trans hsk⟩
    intro o hot
    rcases hc o hot with hol | rfl
    · exact hfi o hol
    · exact hn _ hm
  · intro hf'
    rw [hr]
    exact h.live (hf ▸ hf')
  · intro hd
    have hn : s.failure = none := hfa ▸ hd.failure
    have hd' : s.Drains := ⟨hf ▸ hd.frozen, hfr ▸ hd.freezing, hn, hcl hn ▸ hd.receiverClosed⟩
    have hbe := h.drains hd'
    refine hbe.step hi (hst hd' hbe hp.flatten) (hme hd') ?_ ?_ fun ho => hor ho hd' hbe
    · exact fun id hid => .inl (hs ▸ hid)
    · intro b hb
      rcases mem_append.mp hb with hb | hb
      · exact .inl (mem_append_left _ (hsu b hb))
      · obtain ⟨o, hot, rfl⟩ := mem_map.mp hb
        rcases hc o hot with hol | rfl
        · exact .inl (mem_append_right _ (mem_map_of_mem hol))
        · exact .inl (mem_append_left _ hm)

theorem Frozen.receiptStep {i : ℕ} {a : ReceiptAction} (hbs : s.Base) (hfa : s.Failing)
    (hok : ordered → s.CommitsInOrder (.receipt a i)) (hs : ReceiptStep s i a t) :
    t.Frozen ordered := by
  cases hs with
  | takeSuccess _ => exact h.of_modify i keepsRows_takeSuccess
  | takeError _ => exact h.of_modify i keepsRows_takeError
  | restoreError _ => exact h.of_modify i keepsRows_restoreError
  | @commit receipt hget =>
    have hm : receipt ∈ s.receipts := mem_of_getElem? hget
    have ht := hfa.not_terminal hm
    obtain ⟨hf, hfr, hi⟩ := flags_commit s.dirty receipt
    refine h.giveBack hget hf hfr hi (fun hn => (commit_drain s.dirty (ht hn)).2) rfl rfl rfl ?_ rfl
      (fun hd => (coverKeeps_giveBack hbs hd hm (ht hd.failure)).1) ?_ ?_
    · exact fun o hot => mem_snoc.mp hot
    · intro hd _ hp
      have hst := Leases.Step.finish (l := s.leases) receipt.frozenIds hp
      simpa [leases, (commit_drain s.dirty (ht hd.failure)).1] using hst
    · intro ho hd hb b hba
      obtain rfl : b = receipt.frozenIds := by simpa [leases] using hba.symm
      have hme : receipt.frozenIds ∈ s.batches :=
        (batches_perm hget).symm.subset (mem_cons_self ..)
      refine ⟨(hb.batches _ (mem_append_left _ hme)).sorted, ?_⟩
      intro id hid later hla
      refine hok ho receipt hget id hid later ?_
      simpa [leases, batches, (commit_drain s.dirty (ht hd.failure)).1, flatMap_def] using hla
  | @drop receipt hget =>
    have hm : receipt ∈ s.receipts := mem_of_getElem? hget
    have ht := hfa.not_terminal hm
    obtain ⟨hf, hfr, hi⟩ := flags_drop s.dirty receipt
    refine h.giveBack hget hf hfr hi (fun hn => (drop_drain s.dirty (ht hn)).2) rfl rfl rfl
      (fun _ => .inl) rfl (fun hd => (coverKeeps_giveBack hbs hd hm (ht hd.failure)).2) ?_ ?_
    · intro hd hb hp
      have hst := requeue_step hd hfa hb hp
      simpa [leases, (drop_drain s.dirty (ht hd.failure)).1] using hst
    · intro _ _ _ b hba
      have hni : b = [] := by simpa [leases] using hba
      simp [hni]

theorem Frozen.step {a : Action} (hb : s.Base) (hf : s.Failing)
    (hok : ordered → s.CommitsInOrder a) (hs : s.step a = some t) : t.Frozen ordered := by
  cases a with
  | feed a => exact h.feedStep (feedStep_of_step hs)
  | receiver a => exact h.receiverStep hb hf (receiverStep_of_step hs)
  | receipt a i => exact h.receiptStep hb hf hok (receiptStep_of_step hs)

end

theorem frozen_of_run {ok : System → Action → Prop} {acts : List Action}
    (h : Run step ok new acts s) (hok : ∀ s a, ok s a → ordered → CommitsInOrder s a) :
    s.Frozen ordered := by
  have hst : ∀ s a t, s.Base ∧ s.Failing ∧ s.Frozen ordered → ok s a → step s a = some t →
      t.Base ∧ t.Failing ∧ t.Frozen ordered := by
    rintro s a t ⟨hb, hf, hfr⟩ hall hs
    exact ⟨hb.step hs, hf.step hb (terminalStep_of_step hs), hfr.step hb hf (hok s a hall) hs⟩
  exact (h.invariant hst ⟨base_new, failing_new, frozen_new ordered⟩).2.2

/-- Throughout a drain the frozen queue is strictly sorted and every image is queued,
leased, committed or skipped, once. A skipped image is covered by a committed live receipt,
and no committed receipt mixes epochs. When receipts are committed in order, no first image
is committed after a recovery image. -/
theorem drain_of_run {actions : List Action} {s : System} (h : FreeRun step new actions s)
    (hdrains : s.Drains) :
    s.leases.Accounts (List.range s.dirty.frozenImages.length) ∧
    (∀ id ∈ s.skipped, Covered s.dirty.frozenImages s.dirty.members id ∧
      ∃ image, s.dirty.frozenImages[id]? = some image ∧ ∃ receipt ∈ s.committed,
        ∃ entry ∈ receipt.keys, entry.key = image.key ∧ image.revision ≤ entry.acknowledged) ∧
    (∀ receipt ∈ s.committed, ∃ epoch, ∀ id ∈ receipt.frozenIds, ∀ image,
      s.dirty.frozenImages[id]? = some image → image.recoveryEpoch = epoch) ∧
    (Run step CommitsInOrder new actions s → ∀ i j first recovery front back,
      s.dirty.frozenImages[i]? = some first → s.dirty.frozenImages[j]? = some recovery →
      first.recoveryEpoch = false → recovery.recoveryEpoch = true →
      s.leases.finished = front ++ j :: back → i ∉ back) := by
  have hdraining : s.Draining False :=
    (frozen_of_run h fun _ _ _ => False.elim).drains hdrains
  refine ⟨hdraining.accounts, ?_, ?_, ?_⟩
  · intro id hid
    obtain ⟨image, member, himage, hget, hcover⟩ := hdraining.covered id hid
    simp only [FrozenImage.coveredBy, Bool.and_eq_true, Option.any_eq_true,
      decide_eq_true_eq] at hcover
    obtain ⟨⟨seen, hseen, hle⟩, -⟩ := hcover
    obtain ⟨receipt, hreceipt, entry, hentry, hkey, rfl⟩ := acked_of_run h _ member seen hget hseen
    exact ⟨hdraining.covered id hid, image, himage, receipt, hreceipt, entry, hentry, hkey, hle⟩
  · intro receipt hreceipt
    have hmem : receipt.frozenIds ∈ s.batches ++ s.committed.map (·.frozenIds) :=
      mem_append_right _ (mem_map_of_mem hreceipt)
    exact (hdraining.batches _ hmem).epoch
  · intro hrun i j first recovery front back hfirst hrecovery hfalse htrue hsplit
    have hordered : s.Draining True := (frozen_of_run hrun fun _ _ hok _ => hok).drains hdrains
    have hlt := hdraining.epochs i j first recovery hfirst hrecovery hfalse htrue
    exact (hordered.inOrder trivial).not_mem_after hsplit hlt

private def aaplRow : ImageRow := { ibmRow with label := "AAPL US Equity" }

/-- A first topic has a live receipt out while it and a second one, lost and recovered since, are
frozen. The live receipt covers the image of the first topic, and both images of the second are
leased together and committed in order. -/
private def drainInOrder : List Action :=
  [.feed (.lock 0), .feed (.register 0 "AAPL US Equity" false), .feed (.unlock 0),
    .feed (.lock 1), .feed (.register 1 "IBM US Equity" false), .feed (.unlock 1),
    .receiver (.tryRecv 1), .receiver (.capture aaplRow), .receiver .settle, .receiver .issue,
    .feed (.lock 1), .feed (.advance 1), .feed (.dataLoss 1), .feed (.unlock 1),
    .feed (.lock 1), .feed (.advance 1), .feed (.mark 1), .feed (.unlock 1),
    .receiver .prepareClose, .receiver (.freezeCapture ibmRow), .receiver .freezeStore,
    .receiver (.freezeCapture aaplRow), .receiver .freezeStore, .receiver .freezeTake,
    .receiver .freezePublish, .receipt .commit 0, .receiver (.tryRecv 1), .receiver .issue,
    .receiver (.tryRecv 1), .receiver .issue, .receipt .commit 0, .receipt .commit 0]

theorem drain_of_run_recovered : ∃ s : System, Run step CommitsInOrder new drainInOrder s ∧
      s.Drains ∧
      s.dirty.frozenImages.map (fun image => (image.key, image.row.valid, image.recoveryEpoch)) =
        [(1, false, false), (0, true, false), (1, true, true)] ∧
      s.committed.map (·.frozenIds) = [[], [0], [2]] ∧ s.skipped = [1] ∧
      s.leases.Accounts (List.range 3) ∧
      (∃ receipt ∈ s.committed, ∃ entry ∈ receipt.keys, entry.key = 0) ∧
      ∀ front back, s.leases.finished = front ++ 2 :: back → 0 ∉ back := by
  refine Run.exists_imp (Q := fun s => s.Drains ∧ s.dirty.frozenImages.map
      (fun image => (image.key, image.row.valid, image.recoveryEpoch)) =
        [(1, false, false), (0, true, false), (1, true, true)] ∧
      s.committed.map (·.frozenIds) = [[], [0], [2]] ∧ s.skipped = [1]) ?_
    ⟨_, Run.of_checkedActions rfl, ⟨rfl, rfl, rfl, rfl⟩, rfl, rfl, rfl⟩
  rintro s hrun ⟨hdrains, himages, hcommitted, hskipped⟩
  obtain ⟨haccounts, hcovered, -, hinOrder⟩ :=
    drain_of_run (hrun.mono fun _ _ _ => trivial) hdrains
  have hlength : s.dirty.frozenImages.length = 3 := by simpa using congrArg length himages
  have himage (i : ℕ) : s.dirty.frozenImages[i]?.map
      (fun image => (image.key, image.row.valid, image.recoveryEpoch)) = _ :=
    getElem?_map.symm.trans (congrArg (·[i]?) himages)
  obtain ⟨first, hfirst, hfirst'⟩ := Option.map_eq_some_iff.mp (himage 0)
  obtain ⟨covered, hcovered', hkey⟩ := Option.map_eq_some_iff.mp (himage 1)
  obtain ⟨recovery, hrecovery, hrecovery'⟩ := Option.map_eq_some_iff.mp (himage 2)
  simp only [Prod.mk.injEq] at hfirst' hkey hrecovery'
  refine ⟨hdrains, himages, hcommitted, hskipped, hlength ▸ haccounts, ?_, ?_⟩
  · obtain ⟨-, image, hget, receipt, hreceipt, entry, hentry, hsame, -⟩ :=
      hcovered 1 (by simp [hskipped])
    obtain rfl : image = covered := Option.some.inj (hget.symm.trans hcovered')
    exact ⟨receipt, hreceipt, entry, hentry, hsame.trans hkey.1⟩
  · intro front back hsplit
    exact hinOrder hrun 0 2 first recovery front back hfirst hrecovery hfirst'.2.2 hrecovery'.2.2
      hsplit

/-- A loss and the recovery from it are frozen as two images. Both are leased, and the
recovery is committed before the invalidation. -/
theorem exists_run_recovery_first : ∃ s : System, FreeRun step new
        [.feed (.lock 0), .feed (.register 0 "IBM US Equity" false), .feed (.unlock 0),
          .feed (.lock 0), .feed (.advance 0), .feed (.dataLoss 0), .feed (.unlock 0),
          .feed (.lock 0), .feed (.advance 0), .feed (.mark 0), .feed (.unlock 0),
          .receiver .prepareClose, .receiver (.freezeCapture ibmRow), .receiver .freezeStore,
          .receiver .freezeTake, .receiver .freezePublish, .receiver (.tryRecv 1),
          .receiver .issue, .receiver (.tryRecv 1), .receiver .issue, .receipt .commit 1,
          .receipt .commit 0] s ∧
      s.Drains ∧
      s.dirty.frozenImages.map (fun image => (image.key, image.row.valid, image.recoveryEpoch)) =
        [(0, false, false), (0, true, true)] ∧
      s.committed.map (·.frozenIds) = [[1], [0]] := by
  exact ⟨_, FreeRun.of_runActions rfl, ⟨rfl, rfl, rfl, rfl⟩, rfl, rfl⟩

end System

end Xbbg.StateDelivery
