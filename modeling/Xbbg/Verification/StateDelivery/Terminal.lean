import Xbbg.Verification.StateDelivery.Receipts

/-! The terminal error of a stream: pending, leased to one receipt, or delivered. The steps
of the system are first reduced to what they do to the error and to the receipts. -/

namespace Xbbg.StateDelivery

open List Library Receipt Receiver

/-- The receiver is inside `try_recv`, past its selection. -/
def Receiver.inTryRecv : Receiver → Bool
  | .reading _ _ | .fallback _ _ _ | .removing _ _ _ | .settling _ _ _ _ _
  | .frozenSelected _ => true
  | _ => false

@[simp] theorem inTryRecv_idle : idle.inTryRecv = false :=
  rfl

/-- The receipt holds the error, or its holder has taken it out. -/
def Receipt.Carries (receipt : Receipt) (error : BlpError) : Prop :=
  receipt.result = some (.error error) ∧ receipt.taken = none ∨
  receipt.result = none ∧ receipt.taken = some error

theorem Receipt.error?_of_carries {r : Receipt} {error x : BlpError}
    (h : r.Carries error) (hf : r.error? = some x) : x = error := by
  rcases h with ⟨hr, -⟩ | ⟨hr, -⟩
  · simpa [error?, hr] using hf.symm
  · simp [error?, hr] at hf

/-- A change of the result that stays within the receipt. -/
structure KeepsError (f : Receipt → Receipt) : Prop where
  terminal : ∀ receipt, (f receipt).terminal = receipt.terminal
  carries : ∀ receipt error, receipt.Carries error → (f receipt).Carries error

theorem keepsError_takeSuccess : KeepsError takeSuccess := by
  refine ⟨fun r => (keepsRows_takeSuccess r).2.2.2, ?_⟩
  rintro r error (⟨hr, ht⟩ | ⟨hr, ht⟩)
  · exact .inl (by simp [takeSuccess, hr, ht])
  · exact .inr (by simp [takeSuccess, hr, ht])

theorem keepsError_takeError : KeepsError takeError := by
  refine ⟨fun r => (keepsRows_takeError r).2.2.2, ?_⟩
  rintro r error (⟨hr, ht⟩ | ⟨hr, ht⟩)
  · exact .inr (by simp [takeError, hr])
  · exact .inr (by simp [takeError, hr, ht])

theorem keepsError_restoreError : KeepsError restoreError := by
  refine ⟨fun r => (keepsRows_restoreError r).2.2.2, ?_⟩
  rintro r error (⟨hr, ht⟩ | ⟨hr, ht⟩)
  · exact .inl (by simp [restoreError, hr, ht])
  · exact .inl (by simp [restoreError, ht])

namespace DirtyState

structure SameTerminal (st st' : DirtyState) : Prop where
  terminal : st'.terminal = st.terminal
  inFlight : st'.terminalInFlight = st.terminalInFlight
  delivered : st'.terminalDelivered = st.terminalDelivered
  receiverClosed : st'.receiverClosed = st.receiverClosed

theorem SameTerminal.refl (st : DirtyState) : SameTerminal st st :=
  ⟨rfl, rfl, rfl, rfl⟩

theorem SameStream.sameTerminal {st st' : DirtyState} (h : SameStream st st') :
    SameTerminal st st' :=
  ⟨h.terminal, h.terminalInFlight, h.terminalDelivered, h.receiverClosed⟩

theorem sameTerminal_closeSource (st : DirtyState) : SameTerminal st st.closeSource := by
  unfold closeSource
  split <;> exact ⟨rfl, rfl, rfl, rfl⟩

theorem sameTerminal_finishFrozen (st : DirtyState) (ids : List ℕ) (committed : Bool) :
    SameTerminal st (st.finishFrozen ids committed) := by
  unfold finishFrozen
  split <;> exact ⟨rfl, rfl, rfl, rfl⟩

end DirtyState

namespace System

open DirtyState

variable {s t : System} {error : BlpError} {st : DirtyState}

inductive TerminalStep (s t : System) : Prop where
  | quiet : DirtyState.SameTerminal s.dirty t.dirty → t.failure = s.failure →
      t.issued = s.issued → t.receipts = s.receipts →
      (t.receiver.inTryRecv = true →
        s.receiver.inTryRecv = true ∨ Selecting s.dirty ∧ s.dirty.terminal = none) →
      TerminalStep s t
  | fail (error : BlpError) : s.dirty.receiverClosed = false →
      s.dirty.terminalDelivered = false → s.dirty.terminalInFlight = false →
      t = { s with
        dirty := s.dirty.fail error
        owed := fun _ => none
        failure := some (s.failure.getD error) } →
      TerminalStep s t
  | take (error : BlpError) : s.receiver = .idle → Selecting s.dirty →
      s.dirty.terminal = some error →
      t = { s with
        dirty := { s.dirty with terminal := none, terminalInFlight := true } }.give
          (.ofTerminal error) →
      TerminalStep s t
  | issue (receipt : Receipt) (collision : Option String) : receipt.terminal = false →
      s.receiver.inTryRecv = true → t = { s with collision := collision }.give receipt →
      TerminalStep s t
  | modify (f : Receipt → Receipt) (index : ℕ) : KeepsError f →
      t = { s with receipts := s.receipts.modify index f } → TerminalStep s t
  | giveBack {receipt : Receipt} (index : ℕ) : s.receipts[index]? = some receipt →
      receipt.terminal = false → DirtyState.SameTerminal s.dirty t.dirty →
      t.failure = s.failure → t.issued = s.issued → t.receipts = s.receipts.eraseIdx index →
      t.receiver = s.receiver → TerminalStep s t
  | settle {receipt : Receipt} (index : ℕ) (error : Option BlpError) :
      s.receipts[index]? = some receipt → receipt.terminal = true →
      error = none ∨ error = receipt.error? → t.dirty = s.dirty.finishTerminal error →
      t.failure = s.failure → t.issued = s.issued → t.receipts = s.receipts.eraseIdx index →
      t.receiver = s.receiver → TerminalStep s t
  | close : t = { s with dirty := s.dirty.close, owed := fun _ => none, receiver := .idle } →
      TerminalStep s t

theorem terminalStep_of_feedStep {a : FeedAction} (h : FeedStep s a t) : TerminalStep s t := by
  cases h with
  | lock feed _ | advance feed _ | unlock feed | deactivate key | seedSchema names
  | failLate error _ => exact .quiet (.refl _) rfl rfl rfl .inl
  | register feed label recovering _ =>
    have hr := sameStream_register s.dirty s.nextKey feed (s.feeds feed).revision label
    refine .quiet ?_ rfl rfl rfl .inl
    cases recovering with
    | false => exact hr.sameTerminal
    | true => exact (hr.trans (sameStream_mark _ _ _ _)).sameTerminal
  | mark key _ _ _ | dataLoss key _ _ _ _ =>
    exact .quiet (sameStream_mark _ _ _ _).sameTerminal rfl rfl rfl .inl
  | retire key lastUpdate delayed l _ _ _ =>
    exact .quiet (sameStream_retire _ _ _).sameTerminal rfl rfl rfl .inl
  | detach key =>
    exact .quiet (sameStream_detach _ _).sameTerminal rfl rfl rfl .inl
  | fail error hc hd hf => exact .fail error hc hd hf rfl
  | closeSource => exact .quiet (sameTerminal_closeSource _) rfl rfl rfl .inl

theorem terminalStep_of_receiverStep {a : ReceiverAction} (h : ReceiverStep s a t) :
    TerminalStep s t := by
  cases h with
  | nothing lim _ _ | closedAlready _ _ => exact .quiet (.refl _) rfl rfl rfl .inl
  | terminal lim hi hs he => exact .take _ hi hs he rfl
  | frozen lim _ hs hn _ _ | live lim _ hs hn _ _ =>
    exact .quiet ⟨rfl, rfl, rfl, rfl⟩ rfl rfl rfl fun _ => .inr ⟨hs, hn⟩
  | useFinal hr _ | capture row hr _ _ _ | captureMissing hr _
  | fallbackFinal hr _ _ | fallbackNone hr _ | settle hr _ =>
    exact .quiet (.refl _) rfl rfl rfl fun _ => .inl (by simp [hr, inTryRecv])
  | removeMissing hr =>
    exact .quiet (sameStream_remove _ _).sameTerminal rfl rfl rfl
      fun _ => .inl (by simp [hr, inTryRecv])
  | issueNothing _ | freezeSkip _ _ | freezeCapture row _ _ _ _ | freezeMissing _ _ =>
    exact .quiet (.refl _) rfl rfl rfl (by simp [inTryRecv])
  | issueLive hr _ | issueFrozen hr =>
    exact .issue _ _ (by simp) (by simp [hr, inTryRecv]) rfl
  | prepareClose _ hb =>
    obtain ⟨-, -, -, -, rfl⟩ := beginFreeze_spec hb
    exact .quiet ⟨rfl, rfl, rfl, rfl⟩ rfl rfl rfl (by simp [inTryRecv])
  | @freezeStore _ _ key image remove _ _ hsto =>
    have hst := sameStream_storeFreeze s.dirty key image
    rw [hsto] at hst
    refine .quiet hst.sameTerminal rfl rfl rfl ?_
    cases remove <;> simp [inTryRecv]
  | freezeRemove _ =>
    exact .quiet (sameStream_remove _ _).sameTerminal rfl rfl rfl (by simp [inTryRecv])
  | freezeTake _ hf =>
    obtain ⟨-, rfl⟩ := Prod.mk.inj hf
    exact .quiet ⟨rfl, rfl, rfl, rfl⟩ rfl rfl rfl (by simp [inTryRecv])
  | freezePublish _ => exact .quiet ⟨rfl, rfl, rfl, rfl⟩ rfl rfl rfl (by simp [inTryRecv])
  | close => exact .close rfl

theorem terminalStep_of_receiptStep {i : ℕ} {a : ReceiptAction} (h : ReceiptStep s i a t) :
    TerminalStep s t := by
  cases h with
  | takeSuccess _ => exact .modify _ i keepsError_takeSuccess rfl
  | takeError _ => exact .modify _ i keepsError_takeError rfl
  | restoreError _ => exact .modify _ i keepsError_restoreError rfl
  | @commit r hget =>
    cases ht : r.terminal with
    | true =>
      exact .settle i none hget ht (.inl rfl) (by simp [commit, ht])
        rfl rfl rfl rfl
    | false =>
      refine .giveBack i hget ht ?_ rfl rfl rfl rfl
      simp only [commit, ht, Bool.false_eq_true, ↓reduceIte]
      split
      · exact (sameStream_finish _ _ _).sameTerminal
      · exact sameTerminal_finishFrozen _ _ _
  | @drop r hget =>
    cases ht : r.terminal with
    | true =>
      exact .settle i r.error? hget ht (.inr rfl) (by simp [Receipt.drop, ht]) rfl rfl rfl rfl
    | false =>
      refine .giveBack i hget ht ?_ rfl rfl rfl rfl
      simp only [Receipt.drop, ht, Bool.false_eq_true, ↓reduceIte]
      split
      · exact (sameStream_finish _ _ _).sameTerminal
      · exact sameTerminal_finishFrozen _ _ _

theorem terminalStep_of_step {a : Action} (h : s.step a = some t) : TerminalStep s t := by
  cases a with
  | feed a => exact terminalStep_of_feedStep (feedStep_of_step h)
  | receiver a => exact terminalStep_of_receiverStep (receiverStep_of_step h)
  | receipt a i => exact terminalStep_of_receiptStep (receiptStep_of_step h)

/-- The error is waiting, leased to a receipt, or delivered. -/
inductive Phase (error : BlpError) (st : DirtyState) : Prop where
  | pending : st.terminal = some error → st.terminalInFlight = false →
      st.terminalDelivered = false → Phase error st
  | leased : st.terminal = none → st.terminalInFlight = true → st.terminalDelivered = false →
      Phase error st
  | delivered : st.terminal = none → st.terminalInFlight = false →
      st.terminalDelivered = true → Phase error st

theorem Phase.of_sameTerminal {st' : DirtyState} (h : Phase error st)
    (hs : SameTerminal st st') : Phase error st' := by
  cases h with
  | pending ht hi hw =>
    exact .pending (hs.terminal.trans ht) (hs.inFlight.trans hi) (hs.delivered.trans hw)
  | leased ht hl hw =>
    exact .leased (hs.terminal.trans ht) (hs.inFlight.trans hl) (hs.delivered.trans hw)
  | delivered ht hi hd =>
    exact .delivered (hs.terminal.trans ht) (hs.inFlight.trans hi) (hs.delivered.trans hd)

/-- Where the first accepted failure is. -/
structure Failing (s : System) : Prop where
  unset : s.failure = none → ¬s.dirty.HasTerminal
  phase : ∀ error, s.failure = some error → s.dirty.receiverClosed = false → Phase error s.dirty
  carries : ∀ receipt ∈ s.receipts, receipt.terminal = true →
    ∃ error, s.failure = some error ∧ receipt.Carries error

theorem failing_new : System.new.Failing :=
  ⟨by simp [new, DirtyState.new, DirtyState.HasTerminal], by simp [new], by simp [new]⟩

theorem Failing.not_terminal (h : s.Failing) {receipt : Receipt} (hm : receipt ∈ s.receipts)
    (hf : s.failure = none) : receipt.terminal = false := by
  by_contra ht
  obtain ⟨error, he, -⟩ := h.carries receipt hm (by simpa using ht)
  simp [hf] at he

theorem Failing.of_sameTerminal (h : s.Failing) (hd : SameTerminal s.dirty t.dirty)
    (hf : t.failure = s.failure)
    (hc : ∀ r ∈ t.receipts, r.terminal = true → ∃ error, s.failure = some error ∧
      r.Carries error) : t.Failing := by
  refine ⟨?_, ?_, ?_⟩
  · intro hn
    have := h.unset (hf ▸ hn)
    rwa [HasTerminal, hd.terminal, hd.inFlight, hd.delivered]
  · intro error he hcl
    exact (h.phase error (hf ▸ he) (hd.receiverClosed ▸ hcl)).of_sameTerminal hd
  · rw [hf]
    exact hc

theorem Failing.fail (h : s.Failing) (hc : s.dirty.receiverClosed = false)
    (hd : s.dirty.terminalDelivered = false) (hf : s.dirty.terminalInFlight = false) :
    Failing
      { s with
        dirty := s.dirty.fail error
        owed := fun _ => none
        failure := some (s.failure.getD error) } := by
  have ht : s.dirty.terminal.getD error = s.failure.getD error := by
    cases hfa : s.failure with
    | none =>
      have hn := h.unset hfa
      simp only [HasTerminal, not_or, Bool.not_eq_true, Option.isSome_eq_false_iff,
        Option.isNone_iff_eq_none] at hn
      simp [hn.1]
    | some first =>
      cases h.phase first hfa hc with
      | pending hp _ _ => simp [hp]
      | leased _ hl _ => simp [hf] at hl
      | delivered _ _ hdo => simp [hd] at hdo
  refine ⟨by simp, ?_, ?_⟩
  · intro found hfo _
    have hfi : s.failure.getD error = found := by simpa using hfo
    rw [fail_eq hc hd hf]
    exact .pending (by simp [ht, hfi]) hf hd
  · intro receipt hm hr
    obtain ⟨first, hfi, hca⟩ := h.carries receipt hm hr
    exact ⟨first, by simp [hfi], hca⟩

theorem Failing.settle (hb : s.Base) (h : s.Failing) {receipt : Receipt} {index : ℕ}
    {error : Option BlpError} (hg : s.receipts[index]? = some receipt)
    (ht : receipt.terminal = true) (he : error = none ∨ error = receipt.error?)
    (hd : t.dirty = s.dirty.finishTerminal error) (hf : t.failure = s.failure)
    (hr : t.receipts = s.receipts.eraseIdx index) : t.Failing := by
  have hm : receipt ∈ s.receipts := mem_of_getElem? hg
  have hfl := hb.terminalInFlight hm ht
  obtain ⟨first, hfi, hc⟩ := h.carries receipt hm ht
  refine ⟨by simp [hf, hfi], ?_, ?_⟩
  · intro found hfo hcl
    obtain rfl : first = found := by simpa [hf, hfi] using hfo
    have ho : s.dirty.receiverClosed = false := by
      rw [hd] at hcl
      cases error <;> exact hcl
    cases h.phase first hfi ho with
    | pending _ hi _ | delivered _ hi _ => simp [hfl] at hi
    | leased hn _ hp =>
      rw [hd]
      cases error with
      | none => exact .delivered hn rfl rfl
      | some held =>
        have hh : receipt.error? = some held := by simpa [eq_comm] using he
        obtain rfl := error?_of_carries hc hh
        exact .pending (by simp [finishTerminal, ho]) rfl hp
  · intro other hot ht'
    rw [hr] at hot
    obtain ⟨found, hfo, hc'⟩ :=
      h.carries other (mem_of_mem_eraseIdx hot) ht'
    exact ⟨found, hf.trans hfo, hc'⟩

theorem Failing.step (hb : s.Base) (h : s.Failing) (hs : TerminalStep s t) : t.Failing := by
  cases hs with
  | quiet hd hfa _ hr _ =>
    exact h.of_sameTerminal hd hfa (hr ▸ h.carries)
  | fail error hcl hde hfl ht =>
    subst ht
    exact h.fail hcl hde hfl
  | take error _ hse he ht =>
    subst ht
    cases hfa : s.failure with
    | none => exact absurd (.inl (by simp [he])) (h.unset hfa)
    | some a =>
      obtain rfl : a = error := by
        cases h.phase a hfa hse.receiverClosed with
        | pending hp _ _ => simpa [he] using hp.symm
        | leased hn _ _ | delivered hn _ _ => simp [he] at hn
      have hc := h.carries
      simp only [hfa] at hc
      refine ⟨by simp [give], ?_, ?_⟩
      · intro x hfo _
        exact .leased rfl rfl hse.terminalDelivered
      · intro r hm hte
        rcases mem_snoc.mp hm with hm | rfl
        · exact hc r hm hte
        · exact ⟨a, rfl, .inl ⟨rfl, rfl⟩⟩
  | issue r collision hda _ ht =>
    subst ht
    refine h.of_sameTerminal ⟨rfl, rfl, rfl, rfl⟩ rfl fun o hm hte => ?_
    rcases mem_snoc.mp hm with hm | rfl
    · exact h.carries o hm hte
    · simp [hda] at hte
  | modify f idx hf ht =>
    subst ht
    refine h.of_sameTerminal (.refl _) rfl fun o hm hte => ?_
    obtain ⟨r, hg, rfl | rfl⟩ := exists_of_mem_modify hm
    · exact h.carries _ hg hte
    · obtain ⟨error, he, hc⟩ := h.carries r hg (hf.terminal r ▸ hte)
      exact ⟨error, he, hf.carries r error hc⟩
  | giveBack idx _ _ hd hfa _ hr _ =>
    refine h.of_sameTerminal hd hfa fun o hm hte => ?_
    rw [hr] at hm
    exact h.carries o (mem_of_mem_eraseIdx hm) hte
  | settle idx error hg hte he hd hfa _ hr _ =>
    exact h.settle hb hg hte he hd hfa hr
  | close ht =>
    subst ht
    refine ⟨?_, fun error _ hcl => absurd hcl (by simp [close]), h.carries⟩
    intro hn
    have hte := h.unset hn
    simp only [HasTerminal, not_or] at hte
    simp [HasTerminal, close, hte.2.1, hte.2.2]

theorem failing_of_run {acts : List Action} (h : FreeRun step new acts s) : s.Failing := by
  have hst : ∀ s a t, s.Base ∧ s.Failing → True → System.step s a = some t →
      t.Base ∧ t.Failing := by
    rintro s a t ⟨hb, hf⟩ _ hs
    exact ⟨hb.step hs, hf.step hb (terminalStep_of_step hs)⟩
  exact (h.invariant hst ⟨base_new, failing_new⟩).2

theorem TerminalStep.receiverClosed (h : TerminalStep s t) (hc : s.dirty.receiverClosed = true) :
    t.dirty.receiverClosed = true := by
  cases h with
  | quiet hd _ _ _ _ | giveBack _ _ _ hd _ _ _ _ =>
    exact hd.receiverClosed.trans hc
  | fail error ho _ _ _ => simp [hc] at ho
  | take error _ hs _ _ => exact absurd hs.receiverClosed (by simp [hc])
  | issue r collision _ _ ht | modify f i _ ht => exact ht ▸ hc
  | settle i error _ _ _ hd _ _ _ _ =>
    rw [hd]
    cases error <;> exact hc
  | close ht => exact ht ▸ rfl

theorem TerminalStep.terminalDelivered (h : TerminalStep s t)
    (hd : s.dirty.terminalDelivered = true) : t.dirty.terminalDelivered = true := by
  cases h with
  | quiet hdi _ _ _ _ | giveBack _ _ _ hdi _ _ _ _ =>
    exact hdi.delivered.trans hd
  | fail error _ hw _ _ => simp [hd] at hw
  | take error _ hs _ _ => exact absurd hs.terminalDelivered (by simp [hd])
  | issue receipt collision _ _ ht | modify f i _ ht | close ht => exact ht ▸ hd
  | settle i error _ _ _ hdi _ _ _ _ =>
    rw [hdi]
    cases error with
    | none => rfl
    | some error => exact hd

/-- What has been issued between `s` and `t`: terminal receipts over the error, and the data
of the `try_recv` call that was under way in `s`. -/
def IssuedSince (s t : System) (error : BlpError) : Prop :=
  ∃ later, t.issued = s.issued ++ later ∧
    (∀ receipt ∈ later, receipt.terminal = true → receipt = .ofTerminal error) ∧
    later.countP (!·.terminal) + t.receiver.inTryRecv.toNat ≤ s.receiver.inTryRecv.toNat

theorem Phase.not_selecting (h : Phase error st) (hs : Selecting st) :
    st.terminal = some error := by
  cases h with
  | pending hp _ _ => exact hp
  | leased _ hl _ => simp [hs.terminalInFlight] at hl
  | delivered _ _ hd => simp [hs.terminalDelivered] at hd

theorem IssuedSince.step {u : System} (h : IssuedSince s t error) (hp : Phase error t.dirty)
    (hs : TerminalStep t u) : IssuedSince s u error := by
  obtain ⟨later, hl, ht, hc⟩ := h
  cases hs with
  | quiet _ _ hi _ hcl =>
    refine ⟨later, hi.trans hl, ht, le_trans ?_ hc⟩
    -- A pending, leased or delivered error keeps a new call from selecting data.
    have hcl' : u.receiver.inTryRecv = true → t.receiver.inTryRecv = true := by
      intro hca
      rcases hcl hca with hol | ⟨hse, hn⟩
      · exact hol
      · simp [hp.not_selecting hse] at hn
    exact Nat.add_le_add_left (Bool.toNat_le_toNat hcl') _
  | fail _ _ _ _ hu | modify _ _ _ hu =>
    subst hu
    exact ⟨later, hl, ht, hc⟩
  | take found _ hse hf hu =>
    subst hu
    obtain rfl : error = found := by simpa [hp.not_selecting hse] using hf
    refine ⟨later ++ [.ofTerminal error], by simp [give, hl], ?_, ?_⟩
    · intro receipt hm hre
      rcases mem_append.mp hm with hm | hm
      · exact ht receipt hm hre
      · exact mem_singleton.mp hm
    · have hd := le_trans (Nat.le_add_right _ _) hc
      simpa [give, ofTerminal] using hd
  | issue receipt collision hd hca hu =>
    subst hu
    refine ⟨later ++ [receipt], by simp [give, hl], ?_, ?_⟩
    · intro other hm ho
      rcases mem_snoc.mp hm with hm | rfl
      · exact ht other hm ho
      · simp [hd] at ho
    · simpa [give, hd, hca] using hc
  | giveBack _ _ _ _ _ hi _ hr | settle _ _ _ _ _ _ _ hi _ hr =>
    exact ⟨later, hi.trans hl, ht, hr ▸ hc⟩
  | close hu =>
    subst hu
    exact ⟨later, hl, ht, le_trans (by simp) hc⟩

theorem TerminalStep.failure (h : TerminalStep s t) (hf : s.failure = some error) :
    t.failure = some error := by
  cases h with
  | quiet _ hs _ _ _ | giveBack _ _ _ _ hs _ _ _ | settle _ _ _ _ _ _ hs _ _ _ =>
    exact hs.trans hf
  | fail error _ _ _ ht => simp [ht, hf]
  | take _ _ _ _ ht | issue _ _ _ _ ht | modify _ _ _ ht | close ht => exact ht ▸ hf

theorem issuedSince_of_run {front back : List Action} (h : FreeRun step new front s)
    (hf : s.failure = some error) (hru : FreeRun step s back t) :
    t.failure = some error ∧ (t.dirty.receiverClosed = false → IssuedSince s t error) := by
  have hst : ∀ t a u, (∃ acts, FreeRun step new acts t) ∧ t.failure = some error ∧
        (t.dirty.receiverClosed = false → IssuedSince s t error) → True →
      System.step t a = some u →
      (∃ acts, FreeRun step new acts u) ∧ u.failure = some error ∧
        (u.dirty.receiverClosed = false → IssuedSince s u error) := by
    rintro t a u ⟨⟨acts, hr⟩, hf, hiss⟩ _ hs
    have ht := terminalStep_of_step hs
    refine ⟨⟨_, hr.snoc trivial hs⟩, ht.failure hf, fun ho => ?_⟩
    have hb : t.dirty.receiverClosed = false := by
      by_contra hclo
      exact absurd (ht.receiverClosed (by simpa using hclo)) (by simp [ho])
    exact (hiss hb).step ((failing_of_run hr).phase error hf hb) ht
  exact (hru.invariant hst ⟨⟨front, h⟩, hf, fun _ => ⟨[], by simp⟩⟩).2

theorem select_of_phase (h : Phase error st) (lim : ℕ) :
    (st.select lim).1 = .nothing ∨ (st.select lim).1 = .terminal error := by
  unfold select
  cases h with
  | pending hp _ _ =>
    split
    · exact .inl rfl
    · simp [hp]
  | leased _ hl _ => simp [hl]
  | delivered _ _ hd => simp [hd]

theorem terminalDelivered_of_run {acts : List Action} (h : FreeRun step s acts t)
    (hs : s.dirty.terminalDelivered = true) : t.dirty.terminalDelivered = true := by
  have hst : ∀ s a t, s.dirty.terminalDelivered = true → True → System.step s a = some t →
      t.dirty.terminalDelivered = true :=
    fun s a t hs _ hst => (terminalStep_of_step hst).terminalDelivered hs
  exact h.invariant hst hs

/-- Once a failure has been accepted, and until the receiver closes, only that error is
issued, apart from the data of a `try_recv` call that had already selected. A terminal
receipt that is dropped with its error makes the error selectable again; one that is
committed ends the stream. -/
theorem terminal_of_run {front back : List Action} {s t : System} {error : BlpError}
    (h : FreeRun step new front s) (hfailure : s.failure = some error)
    (hrun : FreeRun step s back t) (hopen : t.dirty.receiverClosed = false) :
    IssuedSince s t error ∧
    (∀ receipt ∈ t.receipts, receipt.terminal = true → receipt.Carries error) ∧
    (∀ limit, (t.dirty.select limit).1 = .nothing ∨ (t.dirty.select limit).1 = .terminal error) ∧
    (∀ index receipt u, t.receipts[index]? = some receipt → receipt.terminal = true →
      receipt.error?.isSome = true → t.step (.receipt .drop index) = some u →
      u.dirty.terminal = some error ∧
      (u.dirty.freezing = false → ∀ limit, (u.dirty.select limit).1 = .terminal error)) ∧
    (∀ index receipt u, t.receipts[index]? = some receipt → receipt.terminal = true →
      t.step (.receipt .commit index) = some u →
      ∀ more v, FreeRun step u more v → ∀ limit, v.dirty.select limit = (.nothing, v.dirty)) := by
  obtain ⟨hfailed, hissued⟩ := issuedSince_of_run h hfailure hrun
  have hreach := h.append hrun
  have hbase := base_of_run hreach
  have hfailing := failing_of_run hreach
  have hcarries : ∀ receipt ∈ t.receipts, receipt.terminal = true → receipt.Carries error := by
    intro receipt hmem hterminal
    obtain ⟨found, hfound, hcarried⟩ := hfailing.carries receipt hmem hterminal
    obtain rfl : error = found := by simpa [hfailed] using hfound
    exact hcarried
  refine ⟨hissued hopen, hcarries, select_of_phase (hfailing.phase error hfailed hopen), ?_, ?_⟩
  · intro index receipt u hget hterminal hheld hstep
    have hmem : receipt ∈ t.receipts := List.mem_of_getElem? hget
    obtain ⟨found, hfound⟩ := Option.isSome_iff_exists.mp hheld
    obtain rfl := error?_of_carries (hcarries receipt hmem hterminal) hfound
    obtain rfl : u = { t with
        dirty := t.dirty.finishTerminal (some found)
        receipts := t.receipts.eraseIdx index } := by
      simpa [step, stepReceipt, hget, Receipt.drop, hterminal, hfound] using hstep.symm
    have hwaiting : t.dirty.terminalDelivered = false := by
      cases hfailing.phase found hfailed hopen with
      | pending _ _ hwaiting | leased _ _ hwaiting => exact hwaiting
      | delivered _ hidle _ => simp [hbase.terminalInFlight hmem hterminal] at hidle
    refine ⟨by simp [finishTerminal, hopen], fun hfreezing limit => ?_⟩
    have hfreezing' : t.dirty.freezing = false := hfreezing
    simp [select, finishTerminal, hopen, hfreezing', hwaiting]
  · intro index receipt u hget hterminal hstep more v hmore limit
    obtain rfl : u = { t with
        dirty := t.dirty.finishTerminal none
        receipts := t.receipts.eraseIdx index
        committed := t.committed ++ [receipt]
        owed := discharge t.owed receipt.rows } := by
      simpa [step, stepReceipt, hget, commit, hterminal] using hstep.symm
    simp [select, terminalDelivered_of_run hmore rfl]

/-- The stream fails while a topic is selected: its row is issued and then the first error, which
is selected again once its receipt is dropped and no more once it is committed. -/
theorem terminal_of_run_delivered : ∃ s t u v : System, FreeRun step new
        [.feed (.lock 0), .feed (.register 0 "IBM US Equity" false), .feed (.unlock 0),
          .receiver (.tryRecv 1), .feed (.fail .timeout), .feed (.fail (.internal "late"))] s ∧
      FreeRun step s
        [.receiver (.capture ⟨"IBM US Equity", none, true, none, true, ⟨1, []⟩, none⟩),
          .receiver .settle, .receiver .issue, .receiver (.tryRecv 1)] t ∧
      t.issued.map (·.terminal) = [false, true] ∧ IssuedSince s t .timeout ∧
      t.step (.receipt .drop 1) = some u ∧ (u.dirty.select 1).1 = .terminal .timeout ∧
      t.step (.receipt .commit 1) = some v ∧ v.dirty.select 1 = (.nothing, v.dirty) := by
  have hruns : ∃ s t : System, FreeRun step new
        [.feed (.lock 0), .feed (.register 0 "IBM US Equity" false), .feed (.unlock 0),
          .receiver (.tryRecv 1), .feed (.fail .timeout), .feed (.fail (.internal "late"))] s ∧
      FreeRun step s
        [.receiver (.capture ⟨"IBM US Equity", none, true, none, true, ⟨1, []⟩, none⟩),
          .receiver .settle, .receiver .issue, .receiver (.tryRecv 1)] t ∧
      s.failure = some .timeout ∧ t.dirty.receiverClosed = false ∧
      t.issued.map (·.terminal) = [false, true] ∧
      ∃ receipt u v, t.receipts[1]? = some receipt ∧ receipt.terminal = true ∧
        receipt.error?.isSome = true ∧ t.step (.receipt .drop 1) = some u ∧
        u.dirty.freezing = false ∧ t.step (.receipt .commit 1) = some v :=
    ⟨_, _, FreeRun.of_runActions rfl, FreeRun.of_runActions rfl, rfl, rfl, rfl, _, _, _, rfl, rfl,
      rfl, rfl, rfl, rfl⟩
  obtain ⟨s, t, hfront, hback, hfailure, hopen, hissued, receipt, u, v, hget, hterminal, hheld,
    hdrop, hfreezing, hcommit⟩ := hruns
  obtain ⟨hsince, -, -, hdropped, hcommitted⟩ := terminal_of_run hfront hfailure hback hopen
  exact ⟨s, t, u, v, hfront, hback, hissued, hsince, hdrop,
    (hdropped 1 receipt u hget hterminal hheld hdrop).2 hfreezing 1, hcommit,
    hcommitted 1 receipt v hget hterminal hcommit [] v (.nil v) 1⟩

/-- The call that has selected a topic when the stream fails still issues its row. -/
theorem exists_run_data_after_fail : ∃ s t : System, FreeRun step new
        [.feed (.lock 0), .feed (.register 0 "IBM US Equity" false), .feed (.unlock 0),
          .receiver (.tryRecv 1), .feed (.fail .timeout)] s ∧
      s.failure = some .timeout ∧ s.issued = [] ∧
      FreeRun step s
        [.receiver (.capture ⟨"IBM US Equity", none, true, none, true, ⟨1, []⟩, none⟩),
          .receiver .settle, .receiver .issue] t ∧
      t.dirty.receiverClosed = false ∧
      t.issued.map (·.rows) =
        [[⟨0, 0, ⟨"IBM US Equity", none, true, none, true, ⟨1, []⟩, none⟩⟩]] := by
  have hfront : FreeRun step new
      [.feed (.lock 0), .feed (.register 0 "IBM US Equity" false), .feed (.unlock 0),
        .receiver (.tryRecv 1), .feed (.fail .timeout)] _ :=
    .cons trivial rfl (.cons trivial rfl (.cons trivial rfl (.cons trivial rfl
      (.cons trivial rfl (.nil _)))))
  exact ⟨_, _, hfront, rfl, rfl,
    .cons trivial rfl (.cons trivial rfl (.cons trivial rfl (.nil _))), rfl, rfl⟩

end System

end Xbbg.StateDelivery
