import Xbbg.Verification.StateDelivery.Receipts

/-! The way of a row from its capture into a receipt: what a settled image says about the
member, and how the rows of a receipt correspond to its keys. -/

namespace Xbbg.StateDelivery

open List Library

/-- The images that the receiver has settled for the batch under construction. -/
@[simp]
def Receiver.built : Receiver → List BuiltRow
  | .reading _ built | .fallback _ _ built | .removing _ _ built
  | .settling _ _ _ _ built => built
  | _ => []

/-- The selected members that have no image yet. -/
@[simp]
def Receiver.waiting : Receiver → List SelectedMember
  | .reading todo _ | .removing _ todo _ | .settling _ _ _ todo _ => todo
  | .fallback member todo _ => member :: todo
  | _ => []

/-- The image that the receiver is about to settle. -/
@[simp]
def Receiver.captured : Receiver → Option DeliveredRow
  | .settling member revision row _ _ => some ⟨member.key, revision, row⟩
  | _ => none

/-- An unpublished loss of the member that an image of this revision has to publish. -/
def DirtyState.lossUpTo (st : DirtyState) (selected : SelectedMember) (revision : ℕ) : Option ℕ :=
  (((st.members.get selected.key).bind (·.invalidated)).filter (· ≤ revision)).or
    (selected.invalidated.filter (· ≤ revision))

inductive Settled (loss : Option ℕ) (selected : SelectedMember) (revision : ℕ) (row : ImageRow) :
    ReceiptKey → ImageRow → Prop where
  | kept : (row.valid = true → loss = none) →
      Settled loss selected revision row ⟨selected.key, revision, loss⟩ row
  | lost (marker : ℕ) : row.valid = true → loss = some marker →
      Settled loss selected revision row ⟨selected.key, min revision marker, loss⟩ row.invalidate

variable {sel : SelectedMember}

theorem settled_settleImage {st : DirtyState} {rev : ℕ} {row settled : ImageRow} {r : ReceiptKey}
    (h : st.settleImage sel rev row = (r, settled)) :
    Settled (st.lossUpTo sel rev) sel rev row r settled := by
  unfold DirtyState.settleImage at h
  simp only at h
  split at h
  · rename_i marker hv hl
    cases h
    exact .lost marker hv hl
  · rename_i ho
    cases h
    refine .kept fun hv => ?_
    by_contra hsome
    obtain ⟨marker, hm⟩ := Option.ne_none_iff_exists'.mp hsome
    exact ho marker hv hm

/-- A settled image is about the member of its key, and a valid one publishes no loss. -/
structure BuiltRow.Good (built : BuiltRow) : Prop where
  key : built.delivered.key = built.receipt.key
  valid : built.delivered.row.valid = true → built.receipt.invalidated = none

theorem Settled.good {loss : Option ℕ} {rev : ℕ} {row settled : ImageRow} {r : ReceiptKey}
    (h : Settled loss sel rev row r settled) :
    BuiltRow.Good ⟨r, ⟨sel.key, rev, settled⟩⟩ := by
  cases h with
  | kept hv => exact ⟨rfl, hv⟩
  | lost marker _ _ => exact ⟨rfl, by simp [ImageRow.invalidate]⟩

/-- The receipt was made of a batch; its rows are missing if they failed to materialize. -/
structure Receipt.MadeOf (receipt : Receipt) (collision : Option String) (built : List BuiltRow) :
    Prop where
  keys : receipt.keys = built.map (·.receipt)
  rows : receipt.frozenIds = [] →
    receipt.rows = built.map (·.delivered) ∨ receipt.rows = [] ∧ collision.isSome = true
  terminal : receipt.terminal = true → built = []
  good : ∀ row ∈ built, row.Good

variable {built : List BuiltRow}

theorem Receipt.MadeOf.mono {r : Receipt} {collision collision' : Option String}
    (h : r.MadeOf collision built) (hm : collision.isSome = true → collision'.isSome = true) :
    r.MadeOf collision' built :=
  ⟨h.keys, fun hl => (h.rows hl).imp_right fun hr => ⟨hr.1, hm hr.2⟩, h.terminal, h.good⟩

namespace System

structure Issued (s : System) : Prop where
  built : ∀ row ∈ s.receiver.built, row.Good
  receipts : ∀ receipt ∈ s.receipts, ∃ built, receipt.MadeOf s.collision built

theorem issued_new : System.new.Issued :=
  ⟨by simp [new], by simp [new]⟩

theorem isSome_observeNames {collision : Option String} {ns : List String}
    (h : collision.isSome = true) : (observeNames collision ns).isSome = true := by
  simp [observeNames, h]

theorem madeOf_ofRows (collision : Option String) (frozenIds : List ℕ)
    (rs : List DeliveredRow) (hg : ∀ row ∈ built, row.Good)
    (hr : frozenIds = [] → rs = built.map (·.delivered)) :
    (Receipt.ofRows collision (built.map (·.receipt)) frozenIds rs).MadeOf collision built := by
  refine ⟨by simp, fun hl => ?_, by simp, hg⟩
  rw [ofRows_frozenIds] at hl
  cases collision with
  | none => exact .inl (hr hl)
  | some name => exact .inr ⟨rfl, rfl⟩

variable {s : System}

theorem Issued.of_receipts {t : System} (h : s.Issued) (hb : ∀ row ∈ t.receiver.built, row.Good)
    (hc : s.collision.isSome = true → t.collision.isSome = true)
    (hr : ∀ r ∈ t.receipts, r ∈ s.receipts ∨ ∃ built, r.MadeOf t.collision built) : t.Issued := by
  refine ⟨hb, fun r hme => ?_⟩
  rcases hr r hme with ho | hn
  · obtain ⟨built, hm⟩ := h.receipts r ho
    exact ⟨built, hm.mono hc⟩
  · exact hn

theorem Issued.giveRows (h : s.Issued)
    (hb : ∀ row ∈ built, row.Good) (frozenIds : List ℕ) (rs : List DeliveredRow)
    (hr : frozenIds = [] → rs = built.map (·.delivered)) :
    (s.giveRows (built.map (·.receipt)) frozenIds rs).Issued := by
  refine h.of_receipts (by simp [System.giveRows, System.give]) isSome_observeNames fun r hm => ?_
  rcases mem_snoc.mp hm with ho | rfl
  · exact .inl ho
  · exact .inr ⟨built, madeOf_ofRows _ frozenIds rs hb hr⟩

theorem Issued.modify (h : s.Issued) (idx : ℕ) {f : Receipt → Receipt} (hf : KeepsRows f) :
    { s with receipts := s.receipts.modify idx f }.Issued := by
  refine h.of_receipts h.built id fun o hme => ?_
  obtain ⟨r, hg, rfl | rfl⟩ := exists_of_mem_modify hme
  · exact .inl hg
  · obtain ⟨built, hm⟩ := h.receipts r hg
    obtain ⟨hk, hid, hr, ht⟩ := hf r
    refine .inr ⟨built, hk.trans hm.keys, ?_, ?_, hm.good⟩
    · rw [hid, hr]
      exact hm.rows
    · rw [ht]
      exact hm.terminal

theorem Issued.step {t : System} {a : Action} (h : s.Issued) (hs : s.step a = some t) :
    t.Issued := by
  cases a with
  | feed a =>
    cases feedStep_of_step hs with
    | lock feed _ | advance feed _ | unlock feed | deactivate key | register feed label recovering _
    | mark key _ _ _ | dataLoss key _ _ _ _ | retire key lastUpdate delayed layout _ _ _
    | detach key | failLate error _ | fail error _ _ _ | closeSource =>
      exact h.of_receipts h.built id fun _ => .inl
    | seedSchema ns => exact h.of_receipts h.built isSome_observeNames fun _ => .inl
  | receiver a =>
    cases receiverStep_of_step hs with
    | nothing lim _ _ | closedAlready _ _ => exact h
    | terminal lim _ _ _ =>
      refine h.of_receipts (by simp [System.give]) id fun r hm => ?_
      rcases mem_snoc.mp hm with ho | rfl
      · exact .inl ho
      · exact .inr ⟨[], by simp [Receipt.ofTerminal], by simp [Receipt.ofTerminal], fun _ => rfl,
          by simp⟩
    | frozen lim _ _ _ _ _ | live lim _ _ _ _ _ =>
      refine h.of_receipts ?_ id fun _ => .inl
      simp only
      split <;> simp
    | useFinal hr _ | capture row hr _ _ _ | captureMissing hr _
    | fallbackFinal hr _ _ | fallbackNone hr _ | removeMissing hr =>
      have hb := h.built
      simp only [hr, Receiver.built] at hb
      exact h.of_receipts hb id fun _ => .inl
    | settle hr hse =>
      have hb := h.built
      simp only [hr, Receiver.built] at hb
      refine h.of_receipts (fun row hm => ?_) id fun _ => .inl
      rcases mem_snoc.mp hm with ho | rfl
      · exact hb row ho
      · exact (settled_settleImage hse).good
    | issueNothing _ => exact h.of_receipts (by simp) id fun _ => .inl
    | issueLive hr _ =>
      have hb := h.built
      simp only [hr, Receiver.built] at hb
      exact h.giveRows hb [] _ fun _ => rfl
    | issueFrozen hr =>
      have hno : ∀ row ∈ ([] : List BuiltRow), row.Good := by simp
      refine h.giveRows hno _ _ ?_
      rintro rfl
      rfl
    | prepareClose _ _ | freezeSkip _ _ | freezeCapture row _ _ _ _ | freezeMissing _ _
    | freezeRemove _ | freezeTake _ _ | freezePublish _ | close =>
      exact h.of_receipts (by simp) id fun _ => .inl
    | @freezeStore _ _ _ _ remove _ _ _ =>
      refine h.of_receipts ?_ id fun _ => .inl
      cases remove <;> simp
  | receipt a i =>
    cases receiptStep_of_step hs with
    | takeSuccess _ => exact h.modify i keepsRows_takeSuccess
    | takeError _ => exact h.modify i keepsRows_takeError
    | restoreError _ => exact h.modify i keepsRows_restoreError
    | commit _ | drop _ =>
      exact h.of_receipts h.built id fun _ hm => .inl (mem_of_mem_eraseIdx hm)

end System

end Xbbg.StateDelivery
