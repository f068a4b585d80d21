import Xbbg.Library.Lists
import Xbbg.Library.Machine
import Xbbg.Verification.StateDelivery.Queue
import Xbbg.Verification.StateDelivery.Steps

/-! Who holds a member. The receiver and the receipts that are out hold disjoint sets of
keys, and a held member stays in flight until its receipt is given back. -/

namespace Xbbg.StateDelivery

open List Library Receipt

variable {members members' : Table DirtyMember} {nextKey : ℕ} {st : DirtyState} {receipt : Receipt}

/-- The live members that the receiver has selected and not yet handed out. -/
@[simp]
def Receiver.keys : Receiver → List ℕ
  | .reading todo built => todo.map (·.key) ++ built.map (·.receipt.key)
  | .fallback member todo built =>
    member.key :: (todo.map (·.key) ++ built.map (·.receipt.key))
  | .removing key todo built => key :: (todo.map (·.key) ++ built.map (·.receipt.key))
  | .settling member _ _ todo built =>
    member.key :: (todo.map (·.key) ++ built.map (·.receipt.key))
  | _ => []

def receiptKeys (receipts : List Receipt) : List ℕ :=
  receipts.flatMap fun receipt => receipt.keys.map (·.key)

def System.holders (s : System) : List ℕ :=
  s.receiver.keys ++ receiptKeys s.receipts

/-- Every key is held once at most, and held members are in flight. -/
structure Held (members : Table DirtyMember) (holders : List ℕ) (nextKey : ℕ) : Prop where
  nodup : holders.Nodup
  inFlight : ∀ k ∈ holders, ∀ member, members.get k = some member → member.inFlight = true
  lt : ∀ k ∈ holders, k < nextKey
  members_lt : ∀ k member, members.get k = some member → k < nextKey

/-- Every member is one from before, in flight and acknowledged as it was. -/
def KeepsProgress (members members' : Table DirtyMember) : Prop :=
  ∀ k member', members'.get k = some member' →
    ∃ member, members.get k = some member ∧ member'.inFlight = member.inFlight ∧
      member'.acknowledged = member.acknowledged

theorem KeepsProgress.refl (members : Table DirtyMember) : KeepsProgress members members :=
  fun _ m hg => ⟨m, hg, rfl, rfl⟩

theorem keepsProgress_empty (members : Table DirtyMember) : KeepsProgress members Table.empty :=
  fun _ _ hg => by simp at hg

theorem KeepsProgress.trans {members'' : Table DirtyMember} (h : KeepsProgress members members')
    (h' : KeepsProgress members' members'') : KeepsProgress members members'' := by
  intro k member'' hg
  obtain ⟨member', hg', hf', ha'⟩ := h' k member'' hg
  obtain ⟨member, hg, hf, ha⟩ := h k member' hg'
  exact ⟨member, hg, hf'.trans hf, ha'.trans ha⟩

theorem keepsProgress_insert {key : ℕ} {old m : DirtyMember}
    (hg : members.get key = some old) (hfl : m.inFlight = old.inFlight)
    (ha : m.acknowledged = old.acknowledged) :
    KeepsProgress members (members.insert key m) := by
  intro k x hf
  rw [Table.get_insert] at hf
  split at hf
  · rename_i hk
    cases hf
    exact ⟨old, hk ▸ hg, hfl, ha⟩
  · exact ⟨x, hf, rfl, rfl⟩

variable (st) (key : ℕ)

theorem keepsProgress_mark (rev : ℕ) (invalidated : Bool) :
    KeepsProgress st.members (st.mark key rev invalidated).members := by
  intro k m' hg
  rw [DirtyState.get_mark] at hg
  split at hg
  · obtain ⟨m, hm, rfl, rfl⟩ := Option.map_eq_some_iff.mp hg
    exact ⟨m, hm, rfl, rfl⟩
  · exact ⟨m', hg, rfl, rfl⟩

theorem keepsProgress_retire (row : ImageRow) :
    KeepsProgress st.members (st.retire key row).members := by
  intro k m' hg
  rw [DirtyState.get_retire] at hg
  split at hg
  · obtain ⟨m, hm, rfl, rfl⟩ := Option.map_eq_some_iff.mp hg
    exact ⟨m, hm, rfl, rfl⟩
  · exact ⟨m', hg, rfl, rfl⟩

theorem keepsProgress_remove : KeepsProgress st.members (st.remove key).members := by
  intro k m' hg
  rw [DirtyState.get_remove] at hg
  split at hg
  · simp at hg
  · exact ⟨m', hg, rfl, rfl⟩

theorem keepsProgress_detach : KeepsProgress st.members (st.detach key).members := by
  unfold DirtyState.detach
  split
  · exact .refl st.members
  · exact keepsProgress_remove st key

theorem keepsProgress_fail (e : BlpError) : KeepsProgress st.members (st.fail e).members := by
  unfold DirtyState.fail
  split
  · exact .refl st.members
  · intro k m' hg
    rw [Table.get_map] at hg
    obtain ⟨m, hm, rfl, rfl⟩ := Option.map_eq_some_iff.mp hg
    exact ⟨m, hm, rfl, rfl⟩

theorem keepsProgress_closeSource : KeepsProgress st.members st.closeSource.members := by
  unfold DirtyState.closeSource
  split
  · exact keepsProgress_empty st.members
  · exact .refl st.members

theorem keepsProgress_storeFreeze (im : Option (ℕ × ImageRow)) :
    KeepsProgress st.members (st.storeFreeze key im).2.members := by
  rcases DirtyState.storeFreeze_eq st key im with heq | ⟨m, captured, hg, -, -, heq⟩
  · rw [heq]
    exact .refl st.members
  · rw [heq]
    exact keepsProgress_insert hg rfl rfl

variable {st} {key}

theorem keepsProgress_takeSnapshots (members : Table DirtyMember) (pending : List PendingMember) :
    KeepsProgress members (DirtyState.takeSnapshots members pending).2 := by
  induction pending generalizing members with
  | nil => exact .refl members
  | cons e rest ih =>
    simp only [DirtyState.takeSnapshots]
    split
    · exact ih members
    · rename_i m hg
      have hf : KeepsProgress members
          (members.insert e.key { m with queued := false, finalImage := none }) :=
        keepsProgress_insert hg rfl rfl
      split
      · exact hf.trans (ih _)
      · exact hf.trans (ih _)

variable {holders : List ℕ}

theorem Held.of_keeps {holders' : List ℕ} (h : Held members holders nextKey)
    (hme : KeepsProgress members members') (hh : holders'.Subperm holders) :
    Held members' holders' nextKey := by
  have hs : holders' ⊆ holders := hh.subset
  refine ⟨?_, ?_, fun k hk => h.lt k (hs hk), ?_⟩
  · obtain ⟨l, hp, hsu⟩ := hh
    exact hp.nodup_iff.mp (hsu.nodup h.nodup)
  · intro k hk m' hg
    obtain ⟨m, hm, hf, -⟩ := hme k m' hg
    rw [hf]
    exact h.inFlight k (hs hk) m hm
  · intro k m' hg
    obtain ⟨m, hm, -⟩ := hme k m' hg
    exact h.members_lt k m hm

theorem Held.register (h : Held st.members holders nextKey) (feed rev : ℕ) (label : String) :
    Held (st.register nextKey feed rev label).members holders (nextKey + 1) := by
  refine ⟨h.nodup, ?_, fun k hk => (h.lt k hk).trans (Nat.lt_succ_self _), ?_⟩
  · intro k hk m hg
    have hne : k ≠ nextKey := (h.lt k hk).ne
    rw [DirtyState.get_register] at hg
    split at hg
    · exact h.inFlight k hk m hg
    · exact h.inFlight k hk m (Option.filter_eq_some_iff.mp hg).1
  · intro k m hg
    rw [DirtyState.get_register] at hg
    split at hg
    · exact (h.members_lt k m hg).trans (Nat.lt_succ_self _)
    · split at hg
      · omega
      · exact (h.members_lt k m (Option.filter_eq_some_iff.mp hg).1).trans (Nat.lt_succ_self _)

theorem Held.select {sel : List SelectedMember}
    (h : Held members holders nextKey) (hs : DirtyState.Selected members sel members') :
    Held members' (sel.map (·.key) ++ holders) nextKey := by
  have hd : ∀ k ∈ sel.map (·.key), k ∉ holders := by
    intro k hk hh
    obtain ⟨e, he, rfl⟩ := mem_map.mp hk
    obtain ⟨m, hg, hi, -⟩ := hs.wasIdle e he
    simp [h.inFlight _ hh m hg] at hi
  have ho : ∀ k m', members'.get k = some m' → (∃ m, members.get k = some m) ∧
        (k ∈ sel.map (·.key) → m'.inFlight = true) := by
    intro k m' hg
    by_cases hk : k ∈ sel.map (·.key)
    · obtain ⟨e, he, rfl⟩ := mem_map.mp hk
      obtain ⟨m, hm, -, -, -, -, haf⟩ := hs.wasIdle e he
      cases hg.symm.trans haf
      exact ⟨⟨m, hm⟩, fun _ => rfl⟩
    · rw [hs.others k hk] at hg
      exact ⟨⟨m', hg⟩, fun hme => absurd hme hk⟩
  refine ⟨?_, ?_, ?_, ?_⟩
  · rw [nodup_append]
    refine ⟨hs.nodup, h.nodup, ?_⟩
    intro a ha b hb
    rintro rfl
    exact hd a ha hb
  · intro k hk m' hg
    rcases mem_append.mp hk with hk | hk
    · exact (ho k m' hg).2 hk
    · rw [hs.others k fun hme => hd k hme hk] at hg
      exact h.inFlight k hk m' hg
  · intro k hk
    rcases mem_append.mp hk with hk | hk
    · obtain ⟨e, he, rfl⟩ := mem_map.mp hk
      obtain ⟨m, hg, -⟩ := hs.wasIdle e he
      exact h.members_lt _ m hg
    · exact h.lt k hk
  · intro k m' hg
    obtain ⟨⟨m, hm⟩, -⟩ := ho k m' hg
    exact h.members_lt k m hm

variable {committed : Bool} {keys : List ReceiptKey}

theorem get_finish_isSome {k : ℕ}
    {member' : DirtyMember} (hg : (st.finish keys committed).members.get k = some member') :
    ∃ member, st.members.get k = some member := by
  unfold DirtyState.finish at hg
  induction keys generalizing st with
  | nil => exact ⟨member', hg⟩
  | cons receipt rest ih =>
    obtain ⟨found, hf⟩ := ih hg
    by_cases hk : k = receipt.key
    · subst hk
      by_contra hnone
      have hn' : st.members.get receipt.key = none := by
        simpa [← Option.ne_none_iff_exists'] using hnone
      simp [DirtyState.finishOne, hn'] at hf
    · rw [DirtyState.get_finishOne_of_ne hk] at hf
      exact ⟨found, hf⟩

theorem Held.finish (h : Held st.members (keys.map (·.key) ++ holders) nextKey) (committed : Bool) :
    Held (st.finish keys committed).members holders nextKey := by
  obtain ⟨-, hn, hd⟩ := nodup_append.mp h.nodup
  refine ⟨hn, ?_, fun k hk => h.lt k (mem_append_right _ hk), ?_⟩
  · intro k hk member' hg
    rw [DirtyState.get_finish_of_notMem fun hme => hd k hme k hk rfl] at hg
    exact h.inFlight k (mem_append_right _ hk) member' hg
  · intro k member' hg
    obtain ⟨member, hm⟩ := get_finish_isSome hg
    exact h.members_lt k member hm

variable {collision : Option String} {frozenIds : List ℕ} {rows : List DeliveredRow}

@[simp] theorem ofRows_keys : (ofRows collision keys frozenIds rows).keys = keys := by
  cases collision <;> rfl

@[simp] theorem ofRows_frozenIds :
    (ofRows collision keys frozenIds rows).frozenIds = frozenIds := by
  cases collision <;> rfl

@[simp] theorem ofRows_terminal : (ofRows collision keys frozenIds rows).terminal = false := by
  cases collision <;> rfl

theorem ofRows_rows_of_isSome (h : collision.isSome = true) :
    (ofRows collision keys frozenIds rows).rows = [] := by
  cases collision with
  | none => simp at h
  | some name => rfl

theorem ofRows_rows_subset : (ofRows collision keys frozenIds rows).rows ⊆ rows := by
  cases collision with
  | none => exact fun _ => id
  | some name => simp [ofRows]

theorem settleImage_key {m : SelectedMember} {rev : ℕ} {row settled : ImageRow}
    {receipt : ReceiptKey} (h : st.settleImage m rev row = (receipt, settled)) :
    receipt.key = m.key := by
  unfold DirtyState.settleImage at h
  simp only at h
  split at h
  all_goals
    obtain ⟨rfl, -⟩ := Prod.mk.inj h
    rfl

theorem receiptKeys_append (front back : List Receipt) :
    receiptKeys (front ++ back) = receiptKeys front ++ receiptKeys back :=
  flatMap_append

/-- Only the result of the receipt changes. -/
def KeepsRows (f : Receipt → Receipt) : Prop :=
  ∀ receipt, (f receipt).keys = receipt.keys ∧ (f receipt).frozenIds = receipt.frozenIds ∧
    (f receipt).rows = receipt.rows ∧ (f receipt).terminal = receipt.terminal

theorem keepsRows_takeSuccess : KeepsRows Receipt.takeSuccess := by
  intro r
  unfold Receipt.takeSuccess
  split <;> exact ⟨rfl, rfl, rfl, rfl⟩

theorem keepsRows_takeError : KeepsRows Receipt.takeError := by
  intro r
  unfold Receipt.takeError
  split <;> exact ⟨rfl, rfl, rfl, rfl⟩

theorem keepsRows_restoreError : KeepsRows Receipt.restoreError := by
  intro r
  unfold Receipt.restoreError
  split <;> exact ⟨rfl, rfl, rfl, rfl⟩

def Receipt.Live (receipt : Receipt) : Prop :=
  receipt.terminal = false ∧ receipt.frozenIds = []

theorem Receipt.Live.commit (h : receipt.Live) (st : DirtyState) :
    receipt.commit st = st.finish receipt.keys true := by
  simp [Receipt.commit, h.1, h.2]

theorem Receipt.Live.drop (h : receipt.Live) (st : DirtyState) :
    receipt.drop st = st.finish receipt.keys false := by
  simp [Receipt.drop, h.1, h.2]

theorem members_commit (st : DirtyState) (h : ¬receipt.Live) :
    (receipt.commit st).members = st.members := by
  unfold commit
  split
  · rfl
  · split
    · simp_all [Live]
    · rfl

theorem members_drop (st : DirtyState) (h : ¬receipt.Live) :
    (receipt.drop st).members = st.members := by
  unfold Receipt.drop
  split
  · cases receipt.error? <;> rfl
  · split
    · simp_all [Live]
    · unfold DirtyState.finishFrozen
      split <;> rfl

theorem flags_commit (st : DirtyState) (receipt : Receipt) :
    (receipt.commit st).frozen = st.frozen ∧ (receipt.commit st).freezing = st.freezing ∧
    (receipt.commit st).frozenImages = st.frozenImages := by
  unfold commit
  split
  · exact ⟨rfl, rfl, rfl⟩
  · split
    · have hs := DirtyState.sameStream_finish st receipt.keys true
      exact ⟨hs.frozen, hs.freezing, hs.frozenImages⟩
    · exact ⟨rfl, rfl, rfl⟩

theorem flags_drop (st : DirtyState) (receipt : Receipt) :
    (receipt.drop st).frozen = st.frozen ∧ (receipt.drop st).freezing = st.freezing ∧
    (receipt.drop st).frozenImages = st.frozenImages := by
  unfold Receipt.drop
  split
  · cases receipt.error? <;> exact ⟨rfl, rfl, rfl⟩
  · split
    · have hs := DirtyState.sameStream_finish st receipt.keys false
      exact ⟨hs.frozen, hs.freezing, hs.frozenImages⟩
    · unfold DirtyState.finishFrozen
      split <;> exact ⟨rfl, rfl, rfl⟩

@[simp]
def Receiver.isFreezing : Receiver → Bool
  | .freezing _ _ | .freezeStoring _ _ _ _ | .freezeRemoving _ _ _ | .publishing _ => true
  | _ => false

namespace System

open DirtyState

variable {s t : System} {receipt : Receipt}

structure Base (s : System) : Prop where
  sound : s.dirty.Sound
  held : Held s.dirty.members s.holders s.nextKey
  freezing : s.receiver.isFreezing = true → s.dirty.freezing = true
  terminalLease : s.receipts.countP (·.terminal) = s.dirty.terminalInFlight.toNat

theorem base_new : System.new.Base :=
  ⟨sound_new, ⟨by simp [holders, new, receiptKeys], by
    simp [holders, new, receiptKeys], by
    simp [holders, new, receiptKeys], by simp [new, DirtyState.new]⟩,
    by simp [new], by simp [new, DirtyState.new]⟩

theorem Base.fresh (h : s.Base) : s.dirty.members.get s.nextKey = none := by
  by_contra hsome
  obtain ⟨m, hg⟩ := Option.ne_none_iff_exists'.mp hsome
  exact (h.held.members_lt _ m hg).false

theorem Base.terminalInFlight (h : s.Base) (hm : receipt ∈ s.receipts)
    (ht : receipt.terminal = true) : s.dirty.terminalInFlight = true := by
  have hp : 0 < s.receipts.countP (·.terminal) :=
    countP_pos_iff.mpr ⟨receipt, hm, ht⟩
  rw [h.terminalLease] at hp
  cases hf : s.dirty.terminalInFlight with
  | false => simp [hf] at hp
  | true => rfl

variable {dirty : DirtyState}

theorem Base.of_members (h : s.Base) (hso : dirty.Sound) (hs : SameStream s.dirty dirty)
    (hk : KeepsProgress s.dirty.members dirty.members) (hd : t.dirty = dirty)
    (hr : t.receiver = s.receiver) (hre : t.receipts = s.receipts)
    (hn : t.nextKey = s.nextKey) : t.Base := by
  refine ⟨hd ▸ hso, ?_, ?_, ?_⟩
  · rw [hd, hn, holders, hr, hre]
    exact h.held.of_keeps hk (Subperm.refl _)
  · rw [hr, hd, hs.freezing]
    exact h.freezing
  · rw [hre, hd, hs.terminalInFlight]
    exact h.terminalLease

theorem Base.feedStep {a : FeedAction} (h : s.Base) (hs : FeedStep s a t) : t.Base := by
  cases hs with
  | lock feed _ | advance feed _ | unlock feed | deactivate key | seedSchema ns =>
    exact h.of_members h.sound (.refl _) (.refl _) rfl rfl rfl rfl
  | register feed label recovering _ =>
    have hr := h.sound.register h.fresh feed (s.feeds feed).revision label
    have hh := h.held.register feed (s.feeds feed).revision label
    have hst := sameStream_register s.dirty s.nextKey feed (s.feeds feed).revision label
    cases recovering with
    | false =>
      exact ⟨hr, hh, fun hf => hst.freezing.trans (h.freezing hf),
        h.terminalLease.trans (by rw [← hst.terminalInFlight]; rfl)⟩
    | true =>
      have hm := hst.trans (sameStream_mark _ s.nextKey (s.feeds feed).revision true)
      exact ⟨hr.mark _ _ _, hh.of_keeps (keepsProgress_mark _ _ _ _) (Subperm.refl _),
        fun hf => hm.freezing.trans (h.freezing hf),
        h.terminalLease.trans (by rw [← hm.terminalInFlight]; rfl)⟩
  | mark key _ _ _ | dataLoss key _ _ _ _ =>
    exact h.of_members (h.sound.mark _ _ _) (sameStream_mark _ _ _ _)
      (keepsProgress_mark _ _ _ _) rfl rfl rfl rfl
  | retire key lastUpdate delayed l _ _ _ =>
    exact h.of_members (h.sound.retire _ _) (sameStream_retire _ _ _)
      (keepsProgress_retire _ _ _) rfl rfl rfl rfl
  | detach key =>
    exact h.of_members (h.sound.detach _) (sameStream_detach _ _)
      (keepsProgress_detach _ _) rfl rfl rfl rfl
  | failLate e _ => exact h
  | fail e hc hd hfl =>
    refine ⟨h.sound.fail e, h.held.of_keeps (keepsProgress_fail s.dirty e) (Subperm.refl _), ?_, ?_⟩
    · simpa [fail, hc, hd, hfl] using h.freezing
    · simpa [fail, hc, hd, hfl] using h.terminalLease
  | closeSource =>
    refine ⟨h.sound.closeSource,
      h.held.of_keeps (keepsProgress_closeSource s.dirty) (Subperm.refl _), ?_, ?_⟩
    · have hsa : s.dirty.closeSource.freezing = s.dirty.freezing := by
        unfold closeSource
        split <;> rfl
      exact fun hf => hsa.trans (h.freezing hf)
    · have hsa : s.dirty.closeSource.terminalInFlight = s.dirty.terminalInFlight := by
        unfold closeSource
        split <;> rfl
      exact h.terminalLease.trans (by rw [hsa])

theorem Base.of_receiver (h : s.Base) {receiver : Receiver}
    (hk : receiver.keys.Perm s.receiver.keys)
    (hfr : receiver.isFreezing = true → s.receiver.isFreezing = true) :
    { s with receiver := receiver }.Base := by
  refine ⟨h.sound, h.held.of_keeps (.refl _) ?_, fun hf => h.freezing (hfr hf), h.terminalLease⟩
  exact (hk.append_right _).subperm

theorem Base.give (h : s.Base) (hk : receipt.keys.map (·.key) = s.receiver.keys)
    (ht : receipt.terminal = false) (collision : Option String) :
    ({ s with collision := collision }.give receipt).Base := by
  refine ⟨h.sound, h.held.of_keeps (.refl _) ?_, by simp [System.give], ?_⟩
  · refine Perm.subperm ?_
    simp only [holders, System.give, Receiver.keys, receiptKeys_append, nil_append]
    have hl : receiptKeys [receipt] = s.receiver.keys := by simp [receiptKeys, hk]
    rw [hl]
    exact perm_append_comm
  · simpa [System.give, ht] using h.terminalLease

theorem Base.receiverStep {a : ReceiverAction} (h : s.Base) (hs : ReceiverStep s a t) : t.Base := by
  cases hs with
  | nothing limit _ _ => exact h
  | @terminal limit error hidle hsel herr =>
    have ht : s.dirty.HasTerminal := .inl (by simp [herr])
    refine ⟨h.sound.terminalTaken ht, ?_, by simp [System.give], ?_⟩
    · refine h.held.of_keeps (.refl _) (Perm.subperm ?_)
      simp [holders, System.give, hidle, receiptKeys, ofTerminal]
    · have hl := h.terminalLease
      rw [hsel.terminalInFlight] at hl
      simpa [System.give, ofTerminal] using hl
  | @frozen limit found hidle hsel hnone hf hfou =>
    refine ⟨h.sound.frozenSelected _, ?_, ?_, h.terminalLease⟩
    · refine h.held.of_keeps (.refl _) (Perm.subperm ?_)
      simp only [holders, hidle]
      split <;> rfl
    · simp only
      split <;> simp
  | @live limit members queue table hidle hsel hnone hf heq =>
    have hse := (selectLive_spec (h.sound.queue hf) heq).2
    refine ⟨h.sound.select hf heq, ?_, ?_, h.terminalLease⟩
    · have hh := h.held.select hse
      refine hh.of_keeps (.refl _) (Perm.subperm ?_)
      by_cases hn : members = []
      · simp [holders, hidle, hn]
      · simp [holders, hidle, hn]
    · simp only
      split <;> simp
  | useFinal hr _ | capture row hr _ _ _ | captureMissing hr _
  | fallbackFinal hr _ _ | fallbackNone hr _ | issueNothing hr =>
    exact h.of_receiver (by simp [hr]) (by simp)
  | @removeMissing key todo built hr =>
    have hst := sameStream_remove s.dirty key
    refine ⟨h.sound.remove key, h.held.of_keeps (keepsProgress_remove s.dirty key) ?_,
      by simp, h.terminalLease⟩
    simp only [holders, hr, Receiver.keys, cons_append]
    exact (sublist_cons_self _ _).subperm
  | @settle member revision row settled todo built receipt hr hset =>
    refine h.of_receiver ?_ (by simp)
    simp only [hr, Receiver.keys, map_append, map_cons, map_nil,
      settleImage_key hset, ← append_assoc]
    exact perm_append_singleton _ _
  | issueLive hr _ | issueFrozen hr => exact h.give (by simp [hr]) (by simp) _
  | closedAlready _ _ => exact h
  | @prepareClose pending dirty hidle hbeg =>
    obtain ⟨-, -, -, -, rfl⟩ := beginFreeze_spec hbeg
    refine ⟨h.sound.beginFreeze, h.held.of_keeps (.refl _) (Perm.subperm ?_), fun _ => rfl,
      h.terminalLease⟩
    simp [holders, hidle]
  | freezeSkip hr _ | freezeCapture row hr _ _ _ | freezeMissing hr _ =>
    exact h.of_receiver (by simp [hr]) (by simp [hr])
  | @freezeStore pending todo key image remove dirty hr hsto =>
    have hfr := h.freezing (by simp [hr])
    have hst := sameStream_storeFreeze s.dirty key image
    have hk := keepsProgress_storeFreeze s.dirty key image
    have hso := h.sound.storeFreeze hfr key image
    rw [hsto] at hst hk hso
    refine ⟨hso, h.held.of_keeps hk (Perm.subperm ?_), fun _ => hst.freezing.trans hfr,
      h.terminalLease.trans (by rw [← hst.terminalInFlight])⟩
    simp only [holders, hr]
    cases remove <;> simp
  | @freezeRemove pending todo key hr =>
    refine ⟨h.sound.remove key,
      h.held.of_keeps (keepsProgress_remove s.dirty key) (Perm.subperm ?_),
      fun _ => h.freezing (by simp [hr]), h.terminalLease⟩
    simp [holders, hr]
  | @freezeTake pending snapshots dirty hr hfree =>
    have hso := h.sound.freeze pending
    have hk := keepsProgress_takeSnapshots s.dirty.members pending
    obtain ⟨-, rfl⟩ := Prod.mk.inj hfree
    refine ⟨hso, h.held.of_keeps hk (Perm.subperm ?_),
      fun _ => h.freezing (by simp [hr]), h.terminalLease⟩
    simp [holders, hr]
  | @freezePublish snapshots hr =>
    refine ⟨sound_publishFrozen _ _, h.held.of_keeps (.refl _) (Perm.subperm ?_),
      by simp, h.terminalLease⟩
    simp [holders, hr]
  | close =>
    refine ⟨sound_close _, h.held.of_keeps (keepsProgress_empty _) ?_, by simp, h.terminalLease⟩
    simp only [holders, Receiver.keys, nil_append]
    exact (sublist_append_right _ _).subperm

theorem Base.modify (h : s.Base) (i : ℕ) {f : Receipt → Receipt} (hf : KeepsRows f) :
    { s with receipts := s.receipts.modify i f }.Base := by
  cases hg : s.receipts[i]? with
  | none =>
    rw [modify_eq_self (getElem?_eq_none_iff.mp hg)]
    exact h
  | some receipt =>
    obtain ⟨front, back, hs, -, hm⟩ := exists_split_of_getElem? hg
    have hh := h.held
    have hl := h.terminalLease
    simp only [holders, hs, receiptKeys, flatMap_append, flatMap_cons] at hh
    simp only [hs, countP_append, countP_cons] at hl
    refine ⟨h.sound, ?_, h.freezing, ?_⟩
    · simpa only [holders, hm, receiptKeys, flatMap_append, flatMap_cons, (hf receipt).1] using hh
    · simpa only [hm, countP_append, countP_cons, (hf receipt).2.2.2] using hl

variable {i : ℕ}

theorem holders_perm (hg : s.receipts[i]? = some receipt) :
    s.holders.Perm (receipt.keys.map (·.key) ++
      (s.receiver.keys ++ receiptKeys (s.receipts.eraseIdx i))) := by
  obtain ⟨front, back, hs, he, -⟩ := exists_split_of_getElem? hg
  rw [holders, he, hs]
  simp only [receiptKeys, flatMap_append, flatMap_cons]
  grind

theorem Base.giveBack (h : s.Base) (hg : s.receipts[i]? = some receipt) {e : Option BlpError}
    (hd : dirty = if receipt.terminal then s.dirty.finishTerminal e else if
      receipt.frozenIds.isEmpty then s.dirty.finish receipt.keys committed else s.dirty.finishFrozen
      receipt.frozenIds committed) :
    dirty.Sound ∧
    Held dirty.members (s.receiver.keys ++ receiptKeys (s.receipts.eraseIdx i)) s.nextKey ∧
    (s.receiver.isFreezing = true → dirty.freezing = true) ∧
    (s.receipts.eraseIdx i).countP (·.terminal) = dirty.terminalInFlight.toNat := by
  have hh := h.held.of_keeps (.refl _) (holders_perm hg).symm.subperm
  have hr := hh.of_keeps (.refl _) (sublist_append_right _ _).subperm
  obtain ⟨front, back, hs, he, -⟩ := exists_split_of_getElem? hg
  have hl := h.terminalLease
  rw [hs, countP_append, countP_cons] at hl
  rw [show (s.receipts.eraseIdx i).countP (·.terminal) =
    front.countP (·.terminal) + back.countP (·.terminal) by rw [he, countP_append]]
  split at hd
  · rename_i ht
    have hm : receipt ∈ s.receipts := by simp [hs]
    have hc : front.countP (·.terminal) + back.countP (·.terminal) = 0 := by
      have := Bool.toNat_le s.dirty.terminalInFlight
      simp only [ht, ↓reduceIte] at hl
      omega
    subst hd
    refine ⟨h.sound.finishTerminal (.inr (.inl (h.terminalInFlight hm ht))) e, ?_, ?_, ?_⟩
    · cases e <;> exact hr
    · cases e <;> exact h.freezing
    · cases e <;> simpa [finishTerminal] using hc
  · rename_i ht
    simp only [ht, Bool.false_eq_true, ↓reduceIte, Nat.add_zero] at hl
    split at hd
    · subst hd
      have hst := sameStream_finish s.dirty receipt.keys committed
      refine ⟨?_, hh.finish committed, fun hf => hst.freezing.trans (h.freezing hf), ?_⟩
      · refine h.sound.finish committed (nodup_append.mp hh.nodup).1 fun k hk => ?_
        exact hh.inFlight k (mem_append_left _ hk)
      · rw [hl, hst.terminalInFlight]
    · subst hd
      refine ⟨h.sound.finishFrozen _ _, ?_, ?_, ?_⟩
      all_goals
        unfold finishFrozen
        split
      · exact hr
      · exact hr
      · exact h.freezing
      · exact h.freezing
      · exact hl
      · exact hl

theorem Base.receiptStep {a : ReceiptAction} (h : s.Base) (hs : ReceiptStep s i a t) :
    t.Base := by
  cases hs with
  | takeSuccess _ => exact h.modify i keepsRows_takeSuccess
  | takeError _ => exact h.modify i keepsRows_takeError
  | restoreError _ => exact h.modify i keepsRows_restoreError
  | commit hg | drop hg =>
    obtain ⟨hso, hh, hf, hl⟩ := h.giveBack hg rfl
    exact ⟨hso, hh, hf, hl⟩

theorem Base.step {a : Action} (h : s.Base) (hs : s.step a = some t) : t.Base :=
  step_invariant Base.feedStep Base.receiverStep Base.receiptStep h hs

variable {acts : List Action}

theorem base_of_run (h : FreeRun step new acts s) : s.Base :=
  h.invariant (fun _ _ _ hb _ hs => hb.step hs) base_new

theorem keys_sublist_holders (s : System) (hm : receipt ∈ s.receipts) :
    (receipt.keys.map (·.key)).Sublist s.holders := by
  refine Sublist.trans ?_ (sublist_append_right _ _)
  rw [receiptKeys, flatMap_def]
  exact sublist_flatten_of_mem (mem_map_of_mem hm)

theorem Base.nodup_keys (h : s.Base) (hm : receipt ∈ s.receipts) :
    (receipt.keys.map (·.key)).Nodup :=
  (s.keys_sublist_holders hm).nodup h.held.nodup

/-- In every reachable open state the queue is in step with the members, and each operation
of the source keeps it so. -/
theorem inStep_of_run {actions : List Action} {s : System} (h : FreeRun step new actions s)
    (hopen : s.dirty.Open) :
    s.dirty.InStep ∧
    (∀ key feed revision label, s.dirty.members.get key = none →
      (s.dirty.register key feed revision label).InStep) ∧
    (∀ key revision invalidated, (s.dirty.mark key revision invalidated).InStep) ∧
    (∀ key row, (s.dirty.retire key row).InStep) ∧
    (∀ key, (s.dirty.detach key).InStep) ∧
    (∀ key, (s.dirty.remove key).InStep) ∧
    (∀ limit, (s.dirty.select limit).2.InStep) ∧
    (∀ receipt ∈ s.receipts, ∀ committed, (s.dirty.finish receipt.keys committed).InStep) := by
  have hbase := base_of_run h
  have hsound := hbase.sound
  refine ⟨hsound.inStep hopen, ?_, ?_, ?_, ?_, ?_, hsound.inStep_select hopen, ?_⟩
  · intro key feed revision label hfresh
    exact (hsound.register hfresh feed revision label).inStep
      (hopen.of_sameStream (sameStream_register _ _ _ _ _))
  · intro key revision invalidated
    exact (hsound.mark key revision invalidated).inStep
      (hopen.of_sameStream (sameStream_mark _ _ _ _))
  · intro key row
    exact (hsound.retire key row).inStep (hopen.of_sameStream (sameStream_retire _ _ _))
  · intro key
    exact (hsound.detach key).inStep (hopen.of_sameStream (sameStream_detach _ _))
  · intro key
    exact (hsound.remove key).inStep (hopen.of_sameStream (sameStream_remove _ _))
  · intro receipt hmem committed
    have hsub := s.keys_sublist_holders hmem
    refine (hsound.finish committed (hbase.nodup_keys hmem) ?_).inStep
      (hopen.of_sameStream (sameStream_finish _ _ _))
    exact fun k hk => hbase.held.inFlight k (hsub.subset hk)

/-- A topic is registered, delivered and marked again while its receipt is out. -/
theorem inStep_of_run_marked : ∃ s : System, FreeRun step new
        [.feed (.lock 0), .feed (.register 0 "IBM US Equity" false), .feed (.unlock 0),
          .receiver (.tryRecv 1), .feed (.lock 0), .feed (.advance 0), .feed (.mark 0)] s ∧
      s.dirty.Open ∧ s.dirty.queue = [] ∧ s.dirty.InStep := by
  exact Run.exists_imp (Q := fun s => s.dirty.Open ∧ s.dirty.queue = [])
    (fun _ hrun hend => ⟨hend.1, hend.2, (inStep_of_run hrun hend.1).1⟩)
    ⟨_, FreeRun.of_runActions rfl, ⟨rfl, rfl, rfl, rfl⟩, rfl⟩

/-- Every acknowledged revision comes from a committed receipt. -/
def Acked (s : System) : Prop :=
  ∀ k member seen, s.dirty.members.get k = some member → member.acknowledged = some seen →
    ∃ receipt ∈ s.committed, ∃ entry ∈ receipt.keys, entry.key = k ∧ entry.acknowledged = seen

theorem Acked.of_keeps (h : s.Acked) (hm : KeepsProgress s.dirty.members t.dirty.members)
    (hc : s.committed ⊆ t.committed) : t.Acked := by
  intro k m' seen hg hs
  obtain ⟨m, hme, -, ha⟩ := hm k m' hg
  obtain ⟨receipt, hr, he⟩ := h k m seen hme (ha ▸ hs)
  exact ⟨receipt, hc hr, he⟩

theorem Acked.register (h : s.Acked) {key feed rev : ℕ} {label : String}
    (hd : t.dirty = s.dirty.register key feed rev label)
    (hc : t.committed = s.committed) : t.Acked := by
  intro k m seen hg hs
  rw [hd, get_register] at hg
  rw [hc]
  split at hg
  · exact h k m seen hg hs
  · split at hg
    · cases hg
      simp at hs
    · exact h k m seen (Option.filter_eq_some_iff.mp hg).1 hs

theorem Acked.finish (h : s.Acked) (hn : (receipt.keys.map (·.key)).Nodup)
    (hme : t.dirty.members = (s.dirty.finish receipt.keys committed).members)
    (ho : s.committed ⊆ t.committed) (hne : committed = true → receipt ∈ t.committed) :
    t.Acked := by
  have hb : ∀ k member seen, s.dirty.members.get k = some member →
      member.acknowledged = some seen → ∃ receipt ∈ t.committed, ∃ entry ∈ receipt.keys,
        entry.key = k ∧ entry.acknowledged = seen := by
    intro k member seen hg hs
    obtain ⟨other, hot, he⟩ := h k member seen hg hs
    exact ⟨other, ho hot, he⟩
  intro k member' seen hg hs
  rw [hme] at hg
  by_cases hk : k ∈ receipt.keys.map (·.key)
  · obtain ⟨member, hm⟩ := get_finish_isSome hg
    obtain ⟨entry, he, rfl⟩ := mem_map.mp hk
    have hf := finished_finish hn he hm committed
    rw [hg] at hf
    cases hf with
    | kept queued =>
      cases committed with
      | false => exact hb _ member seen hm hs
      | true =>
        -- The larger of the two is either the receipt's own revision or an older one.
        have hma : seen = entry.acknowledged ∨ member.acknowledged = some seen := by
          cases ha : member.acknowledged with
          | none => simpa [settleMember, ha, eq_comm] using hs
          | some old =>
            simp only [settleMember, if_true, ha, Option.elim_some, Option.some.injEq] at hs ⊢
            omega
        rcases hma with rfl | ha
        · exact ⟨receipt, hne rfl, entry, he, rfl, rfl⟩
        · exact hb _ member seen hm ha
  · rw [get_finish_of_notMem hk] at hg
    exact hb k member' seen hg hs

theorem Acked.step {a : Action} (hb : s.Base) (h : s.Acked) (hs : s.step a = some t) :
    t.Acked := by
  cases a with
  | feed a =>
    cases feedStep_of_step hs with
    | lock feed _ | advance feed _ | unlock feed | deactivate key | seedSchema names
    | failLate e _ => exact h
    | register feed label recovering _ =>
      have hr : Acked { s with
          dirty := s.dirty.register s.nextKey feed (s.feeds feed).revision label } :=
        h.register rfl rfl
      cases recovering with
      | false => exact hr
      | true => exact hr.of_keeps (keepsProgress_mark _ _ _ _) fun _ => id
    | mark key _ _ _ | dataLoss key _ _ _ _ =>
      exact h.of_keeps (keepsProgress_mark _ _ _ _) fun _ => id
    | retire key lastUpdate delayed l _ _ _ =>
      exact h.of_keeps (keepsProgress_retire _ _ _) fun _ => id
    | detach key => exact h.of_keeps (keepsProgress_detach _ _) fun _ => id
    | fail e _ _ _ => exact h.of_keeps (keepsProgress_fail _ _) fun _ => id
    | closeSource => exact h.of_keeps (keepsProgress_closeSource _) fun _ => id
  | receiver a =>
    cases receiverStep_of_step hs with
    | nothing limit _ _ | closedAlready _ _ | terminal limit _ _ _ | frozen limit _ _ _ _ _
    | useFinal _ _ | capture row _ _ _ _ | captureMissing _ _ | fallbackFinal _ _ _
    | fallbackNone _ _ | settle _ _ | issueNothing _ | issueLive _ _ | issueFrozen _
    | freezeSkip _ _ | freezeCapture row _ _ _ _ | freezeMissing _ _ | freezePublish _ => exact h
    | @live limit members _ _ _ _ _ hfro heq =>
      have hsl := (selectLive_spec (hb.sound.queue hfro) heq).2
      intro k m' seen hg hse
      by_cases hk : k ∈ members.map (·.key)
      · obtain ⟨entry, he, rfl⟩ := mem_map.mp hk
        obtain ⟨m, hmm, -, -, -, -, ha⟩ := hsl.wasIdle entry he
        cases hg.symm.trans ha
        exact h _ m seen hmm hse
      · exact h k m' seen ((hsl.others k hk).symm.trans hg) hse
    | removeMissing _ | freezeRemove _ => exact h.of_keeps (keepsProgress_remove _ _) fun _ => id
    | prepareClose _ hbe =>
      obtain ⟨-, -, -, -, rfl⟩ := beginFreeze_spec hbe
      exact h
    | @freezeStore _ _ key image _ _ _ hsto =>
      have hke := keepsProgress_storeFreeze s.dirty key image
      rw [hsto] at hke
      exact h.of_keeps hke fun _ => id
    | @freezeTake pending _ _ _ hfre =>
      obtain ⟨-, rfl⟩ := Prod.mk.inj hfre
      exact h.of_keeps (keepsProgress_takeSnapshots s.dirty.members pending) fun _ => id
    | close => exact h.of_keeps (keepsProgress_empty _) fun _ => id
  | receipt a i =>
    cases receiptStep_of_step hs with
    | takeSuccess _ | takeError _ | restoreError _ => exact h
    | @commit receipt hg =>
      have hme : receipt ∈ s.receipts := mem_of_getElem? hg
      have ho : s.committed ⊆ s.committed ++ [receipt] := subset_append_left _ _
      by_cases hl : receipt.Live
      · have hm := congrArg members (hl.commit s.dirty)
        exact h.finish (hb.nodup_keys hme) hm ho (by simp)
      · exact h.of_keeps (members_commit s.dirty hl ▸ .refl _) ho
    | @drop receipt hg =>
      have hme : receipt ∈ s.receipts := mem_of_getElem? hg
      by_cases hl : receipt.Live
      · have hm := congrArg members (hl.drop s.dirty)
        exact h.finish (hb.nodup_keys hme) hm (fun _ => id) (by simp)
      · exact h.of_keeps (members_drop s.dirty hl ▸ .refl _) fun _ => id

theorem acked_of_run (h : FreeRun step new acts s) : s.Acked := by
  have hst : ∀ s a t, s.Base ∧ s.Acked → True → step s a = some t → t.Base ∧ t.Acked := by
    rintro s a t ⟨hb, ha⟩ _ hs
    exact ⟨hb.step hs, ha.step hb hs⟩
  exact (h.invariant hst ⟨base_new, by simp [Acked, new, DirtyState.new]⟩).2

/-- The receiver and the receipts hold disjoint keys of members in flight, a terminal receipt is
out while the state says so, and every acknowledged revision was committed. A live receipt that is
given back releases its members and leaves those that still owe a delivery in the queue. -/
theorem leases_of_run (h : FreeRun step new acts s) :
    Held s.dirty.members s.holders s.nextKey ∧ s.Acked ∧
    s.receipts.countP (·.terminal) = s.dirty.terminalInFlight.toNat ∧
    ∀ a i receipt t, a = .commit ∨ a = .drop → s.receipts[i]? = some receipt → receipt.Live →
      s.dirty.Open → s.step (.receipt a i) = some t →
      ∀ entry ∈ receipt.keys, ∀ member, t.dirty.members.get entry.key = some member →
        member.inFlight = false ∧ (owes member = true → entry.key ∈ t.dirty.queue) := by
  have hbase := base_of_run h
  refine ⟨hbase.held, acked_of_run h, hbase.terminalLease, ?_⟩
  intro a i receipt t ha hreceipt hlive hopen hstep entry hentry member hmember
  obtain ⟨committed, hdirty⟩ : ∃ committed, t.dirty = s.dirty.finish receipt.keys committed := by
    cases receiptStep_of_step hstep with
    | commit hg =>
      cases hreceipt.symm.trans hg
      exact ⟨true, hlive.commit s.dirty⟩
    | drop hg =>
      cases hreceipt.symm.trans hg
      exact ⟨false, hlive.drop s.dirty⟩
    | _ => simp at ha
  have hsound := (hbase.step hstep).sound
  rw [hdirty] at hsound hmember ⊢
  have hqueue := hsound.inStep (hopen.of_sameStream (sameStream_finish _ _ _))
  obtain ⟨old, hold⟩ := get_finish_isSome hmember
  have hend := finished_finish (hbase.nodup_keys (mem_of_getElem? hreceipt)) hentry hold committed
  rw [hmember] at hend
  cases hend with
  | kept queued =>
    have hidle := settleMember_inFlight old entry committed
    refine ⟨hidle, fun howes => (hqueue.1.mem_iff _).mpr ⟨_, hmember, ?_⟩⟩
    exact (hqueue.2 _ _ hmember howes).resolve_right (by simp [hidle])

def ibmRow : ImageRow :=
  ⟨"IBM US Equity", none, true, none, true, ⟨1, []⟩, none⟩

/-- One receipt is committed, a second one is out, and the topic has changed again since. -/
private def secondOut : List Action :=
  [.feed (.lock 0), .feed (.register 0 "IBM US Equity" false), .feed (.unlock 0),
    .receiver (.tryRecv 1), .receiver (.capture ibmRow), .receiver .settle, .receiver .issue,
    .receipt .commit 0, .feed (.lock 0), .feed (.advance 0), .feed (.mark 0), .feed (.unlock 0),
    .receiver (.tryRecv 1), .receiver (.capture ibmRow), .receiver .settle, .receiver .issue,
    .feed (.lock 0), .feed (.advance 0), .feed (.mark 0), .feed (.unlock 0)]

/-- Whether the second receipt is committed or dropped, the topic is queued again; after a failure
a terminal receipt is out beside it. -/
theorem leases_of_run_second : ∃ s u : System, FreeRun step new secondOut s ∧
      s.holders = [0] ∧ s.committed.length = 1 ∧ s.Acked ∧
      (∀ a, a = .commit ∨ a = .drop → ∃ t, s.step (.receipt a 0) = some t ∧ 0 ∈ t.dirty.queue) ∧
      FreeRun step new
        (secondOut ++ [.feed (.fail (.internal "session lost")), .receiver (.tryRecv 1)]) u ∧
      u.receipts.length = 2 ∧ u.receipts.countP (·.terminal) = 1 := by
  have hlive : ∃ s, FreeRun step new secondOut s ∧ s.holders = [0] ∧ s.committed.length = 1 ∧
      ∃ receipt, s.receipts[0]? = some receipt ∧ receipt.Live ∧ s.dirty.Open ∧
        ∀ a, a = .commit ∨ a = .drop → ∃ t, s.step (.receipt a 0) = some t ∧
          ∃ entry ∈ receipt.keys, entry.key = 0 ∧
            ∃ member, t.dirty.members.get 0 = some member ∧ owes member = true := by
    refine ⟨_, FreeRun.of_runActions rfl, rfl, rfl, _, rfl, ⟨rfl, rfl⟩, ⟨rfl, rfl, rfl, rfl⟩, ?_⟩
    rintro a (rfl | rfl)
    · exact ⟨_, rfl, _, mem_cons_self, rfl, _, rfl, rfl⟩
    · exact ⟨_, rfl, _, mem_cons_self, rfl, _, rfl, rfl⟩
  have hfailed : ∃ u, FreeRun step new
      (secondOut ++ [.feed (.fail (.internal "session lost")), .receiver (.tryRecv 1)]) u ∧
        u.receipts.length = 2 ∧ u.dirty.terminalInFlight = true :=
    ⟨_, FreeRun.of_runActions rfl, rfl, rfl⟩
  obtain ⟨s, hrun, hholders, hcommitted, receipt, hreceipt, hlive, hopen, hback⟩ := hlive
  obtain ⟨u, hterminal, hlength, hout⟩ := hfailed
  obtain ⟨-, hacked, -, hgiven⟩ := leases_of_run hrun
  refine ⟨s, u, hrun, hholders, hcommitted, hacked, fun a ha => ?_, hterminal, hlength, ?_⟩
  · obtain ⟨t, hstep, entry, hentry, hkey, member, hmember, howes⟩ := hback a ha
    refine ⟨t, hstep, hkey ▸ ?_⟩
    exact (hgiven a 0 receipt t ha hreceipt hlive hopen hstep entry hentry member
      (hkey.symm ▸ hmember)).2 howes
  · rw [(leases_of_run hterminal).2.2.1, hout]
    rfl

end System

end Xbbg.StateDelivery
