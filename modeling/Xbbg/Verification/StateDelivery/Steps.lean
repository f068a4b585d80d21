import Xbbg.Model.StateDeliverySystem

/-! What one step of the delivery system can do, one case for each outcome. Every invariant
is proved from these cases. -/

namespace Xbbg.StateDelivery

open Function

namespace System

inductive FeedStep (s : System) : FeedAction → System → Prop where
  | lock (feed : ℕ) : (s.feeds feed).held = none →
      FeedStep s (.lock feed)
        (s.setFeed feed ⟨(s.feeds feed).revision, some (s.feeds feed).revision⟩)
  | advance (feed : ℕ) : (s.feeds feed).held ≠ none →
      FeedStep s (.advance feed) (s.setFeed feed ⟨(s.feeds feed).revision + 1, (s.feeds feed).held⟩)
  | unlock (feed : ℕ) :
      FeedStep s (.unlock feed) (s.setFeed feed ⟨(s.feeds feed).revision, none⟩)
  | deactivate (key : ℕ) :
      FeedStep s (.deactivate key) { s with active := Function.update s.active key false }
  | register (feed : ℕ) (label : String) (recovering : Bool) : (s.feeds feed).held ≠ none →
      FeedStep s (.register feed label recovering)
        { s with
          dirty :=
            if recovering then
              (s.dirty.register s.nextKey feed (s.feeds feed).revision label).mark s.nextKey
                (s.feeds feed).revision true
            else s.dirty.register s.nextKey feed (s.feeds feed).revision label
          active := Function.update s.active s.nextKey true
          nextKey := s.nextKey + 1
          owed := fun key => (s.owed key).filter fun _ =>
            ((s.dirty.register s.nextKey feed (s.feeds feed).revision label).members.get
              key).isSome }
  | mark (key : ℕ) {member : DirtyMember} : s.dirty.members.get key = some member →
      s.active key = true → (s.feeds member.feed).held ≠ none →
      FeedStep s (.mark key)
        { s with dirty := s.dirty.mark key (s.feeds member.feed).revision false }
  | dataLoss (key : ℕ) {member : DirtyMember} {base : ℕ} :
      s.dirty.members.get key = some member → s.active key = true →
      (s.feeds member.feed).held = some base → base < (s.feeds member.feed).revision →
      FeedStep s (.dataLoss key)
        { s with
          dirty := s.dirty.mark key (s.feeds member.feed).revision true
          losses :=
            if s.dirty.rejects then s.losses
            else Function.update s.losses key (s.losses key ++ [(s.feeds member.feed).revision]) }
  | retire (key : ℕ) (lastUpdate : Option ℤ) (delayed : Option Bool) (layout : FieldLayout)
      {member : DirtyMember} {row : ImageRow} :
      s.dirty.members.get key = some member → (s.feeds member.feed).held ≠ none →
      row = ⟨member.label, lastUpdate, false, delayed, false, layout, none⟩ →
      FeedStep s (.retire key lastUpdate delayed layout)
        { s with
          dirty := s.dirty.retire key row
          active := Function.update s.active key false
          owed :=
            if s.dirty.rejects then s.owed else Function.update s.owed key (some row) }
  | detach (key : ℕ) :
      FeedStep s (.detach key)
        { s with
          dirty := s.dirty.detach key
          active := Function.update s.active key false
          owed := if s.dirty.closing then s.owed else Function.update s.owed key none }
  | failLate (error : BlpError) :
      s.dirty.receiverClosed = true ∨ s.dirty.terminalDelivered = true ∨
        s.dirty.terminalInFlight = true →
      FeedStep s (.fail error) s
  | fail (error : BlpError) : s.dirty.receiverClosed = false →
      s.dirty.terminalDelivered = false → s.dirty.terminalInFlight = false →
      FeedStep s (.fail error)
        { s with
          dirty := s.dirty.fail error
          owed := fun _ => none
          failure := some (s.failure.getD error) }
  | closeSource :
      FeedStep s .closeSource
        { s with
          dirty := s.dirty.closeSource
          owed := if s.dirty.closing then s.owed else fun _ => none }
  | seedSchema (names : List String) :
      FeedStep s (.seedSchema names) { s with collision := observeNames s.collision names }

theorem feedStep_of_step {s t : System} {a : FeedAction} (h : s.stepFeed a = some t) :
    FeedStep s a t := by
  cases a with
  | lock feed =>
    simp only [stepFeed] at h
    split at h
    · rename_i hh
      cases h
      exact .lock feed hh
    · simp at h
  | advance feed =>
    simp only [stepFeed] at h
    split at h
    · simp at h
    · rename_i hh
      cases h
      exact .advance feed hh
  | unlock feed =>
    cases h
    exact .unlock feed
  | deactivate key =>
    cases h
    exact .deactivate key
  | register feed label recovering =>
    simp only [stepFeed] at h
    split at h
    · simp at h
    · rename_i hh
      cases h
      exact .register feed label recovering hh
  | mark key =>
    simp only [stepFeed, memberFeed] at h
    cases hg : s.dirty.members.get key with
    | none => simp [hg] at h
    | some m =>
      simp only [hg, Option.map_some] at h
      split at h
      · rename_i hgu
        cases h
        exact .mark key hg hgu.1 (Option.isSome_iff_ne_none.mp hgu.2)
      · simp at h
  | dataLoss key =>
    simp only [stepFeed, memberFeed] at h
    cases hg : s.dirty.members.get key with
    | none => simp [hg] at h
    | some m =>
      simp only [hg, Option.map_some] at h
      split at h
      · rename_i hgu
        obtain ⟨ha, hh⟩ := hgu
        obtain ⟨base, hb, hlt⟩ := Option.any_eq_true _ _ |>.mp hh
        cases h
        exact .dataLoss key hg ha hb (by simpa using hlt)
      · simp at h
  | retire key lastUpdate delayed l =>
    simp only [stepFeed] at h
    cases hg : s.dirty.members.get key with
    | none => simp [hg] at h
    | some m =>
      simp only [hg] at h
      split at h
      · simp at h
      · rename_i hh
        cases h
        exact .retire key lastUpdate delayed l hg hh rfl
  | detach key =>
    cases h
    exact .detach key
  | fail e =>
    simp only [stepFeed] at h
    split at h
    · rename_i hl
      cases h
      exact .failLate e (by simpa [or_assoc] using hl)
    · rename_i he
      cases h
      simp only [Bool.or_eq_true, not_or, Bool.not_eq_true] at he
      exact .fail e he.1.1 he.1.2 he.2
  | closeSource =>
    cases h
    exact .closeSource
  | seedSchema ns =>
    cases h
    exact .seedSchema ns

/-- The receiver may select: it is not closed, freezing or waiting for a terminal receipt. -/
structure Selecting (st : DirtyState) : Prop where
  receiverClosed : st.receiverClosed = false
  freezing : st.freezing = false
  terminalInFlight : st.terminalInFlight = false
  terminalDelivered : st.terminalDelivered = false

inductive ReceiverStep (s : System) : ReceiverAction → System → Prop where
  | nothing (limit : ℕ) : s.receiver = .idle →
      s.dirty.receiverClosed = true ∨ s.dirty.freezing = true ∨
        s.dirty.terminalInFlight = true ∨ s.dirty.terminalDelivered = true →
      ReceiverStep s (.tryRecv limit) s
  | terminal (limit : ℕ) {error : BlpError} : s.receiver = .idle → Selecting s.dirty →
      s.dirty.terminal = some error →
      ReceiverStep s (.tryRecv limit) ({ s with
          dirty := { s.dirty with terminal := none, terminalInFlight := true } }.give
            (.ofTerminal error))
  | frozen (limit : ℕ) {found : FrozenSelection} : s.receiver = .idle → Selecting s.dirty →
      s.dirty.terminal = none → s.dirty.frozen = true →
      found = DirtyState.selectFrozen s.dirty.frozenImages s.dirty.members (max limit 1) none
        s.dirty.frozenQueue →
      ReceiverStep s (.tryRecv limit)
        { s with
          dirty := { s.dirty with frozenQueue := found.queue }
          skipped := s.skipped ++ found.skipped
          receiver := if found.selected = [] then .idle else .frozenSelected found.selected }
  | live (limit : ℕ) {members : List SelectedMember} {queue : List ℕ}
      {table : Library.Table DirtyMember} : s.receiver = .idle → Selecting s.dirty →
      s.dirty.terminal = none → s.dirty.frozen = false →
      DirtyState.selectLive (max limit 1) s.dirty.queue s.dirty.members = (members, queue, table) →
      ReceiverStep s (.tryRecv limit)
        { s with
          dirty := { s.dirty with queue := queue, members := table }
          receiver := if members = [] then .idle else .reading members [] }
  | useFinal {member : SelectedMember} {revision : ℕ} {row : ImageRow}
      {todo : List SelectedMember} {built : List BuiltRow} :
      s.receiver = .reading (member :: todo) built →
      member.finalImage = some (revision, row) →
      ReceiverStep s .useFinal { s with receiver := .settling member revision row todo built }
  | capture (row : ImageRow) {member : SelectedMember} {todo : List SelectedMember}
      {built : List BuiltRow} : s.receiver = .reading (member :: todo) built →
      member.finalImage = none → s.active member.key = true →
      (s.feeds member.feed).held = none →
      ReceiverStep s (.capture row)
        { s with receiver := .settling member (s.feeds member.feed).revision row todo built }
  | captureMissing {member : SelectedMember} {todo : List SelectedMember}
      {built : List BuiltRow} : s.receiver = .reading (member :: todo) built →
      member.finalImage = none →
      ReceiverStep s .captureMissing { s with receiver := .fallback member todo built }
  | fallbackFinal {member : SelectedMember} {entry : DirtyMember} {revision : ℕ}
      {row : ImageRow} {todo : List SelectedMember} {built : List BuiltRow} :
      s.receiver = .fallback member todo built →
      s.dirty.members.get member.key = some entry → entry.finalImage = some (revision, row) →
      ReceiverStep s .readFallback
        { s with receiver := .settling member revision row todo built }
  | fallbackNone {member : SelectedMember} {todo : List SelectedMember}
      {built : List BuiltRow} : s.receiver = .fallback member todo built →
      (∀ entry, s.dirty.members.get member.key = some entry → entry.finalImage = none) →
      ReceiverStep s .readFallback { s with receiver := .removing member.key todo built }
  | removeMissing {key : ℕ} {todo : List SelectedMember} {built : List BuiltRow} :
      s.receiver = .removing key todo built →
      ReceiverStep s .removeMissing
        { s with
          dirty := s.dirty.remove key
          owed := Function.update s.owed key none
          receiver := .reading todo built }
  | settle {member : SelectedMember} {revision : ℕ} {row settled : ImageRow}
      {todo : List SelectedMember} {built : List BuiltRow} {receipt : ReceiptKey} :
      s.receiver = .settling member revision row todo built →
      s.dirty.settleImage member revision row = (receipt, settled) →
      ReceiverStep s .settle
        { s with
          receiver :=
            .reading todo (built ++ [⟨receipt, ⟨member.key, revision, settled⟩⟩]) }
  | issueNothing : s.receiver = .reading [] [] →
      ReceiverStep s .issue { s with receiver := .idle }
  | issueLive {built : List BuiltRow} : s.receiver = .reading [] built → built ≠ [] →
      ReceiverStep s .issue (s.giveRows (built.map (·.receipt)) [] (built.map (·.delivered)))
  | issueFrozen {ids : List ℕ} : s.receiver = .frozenSelected ids →
      ReceiverStep s .issue (s.giveRows [] ids (s.frozenRows ids))
  | closedAlready : s.receiver = .idle → s.dirty.beginFreeze = none →
      ReceiverStep s .prepareClose s
  | prepareClose {pending : List PendingMember} {dirty : DirtyState} : s.receiver = .idle →
      s.dirty.beginFreeze = some (pending, dirty) →
      ReceiverStep s .prepareClose
        { s with dirty := dirty, receiver := .freezing pending pending }
  | freezeSkip {pending todo : List PendingMember} {member : PendingMember} :
      s.receiver = .freezing pending (member :: todo) → member.retired = true →
      ReceiverStep s .freezeSkip { s with receiver := .freezing pending todo }
  | freezeCapture (row : ImageRow) {pending todo : List PendingMember} {member : PendingMember} :
      s.receiver = .freezing pending (member :: todo) → member.retired = false →
      s.active member.key = true → (s.feeds member.feed).held = none →
      ReceiverStep s (.freezeCapture row)
        { s with
          receiver := .freezeStoring pending member.key
            (some ((s.feeds member.feed).revision, row)) todo }
  | freezeMissing {pending todo : List PendingMember} {member : PendingMember} :
      s.receiver = .freezing pending (member :: todo) → member.retired = false →
      ReceiverStep s .freezeMissing
        { s with receiver := .freezeStoring pending member.key none todo }
  | freezeStore {pending todo : List PendingMember} {key : ℕ}
      {image : Option (ℕ × ImageRow)} {remove : Bool} {dirty : DirtyState} :
      s.receiver = .freezeStoring pending key image todo →
      s.dirty.storeFreeze key image = (remove, dirty) →
      ReceiverStep s .freezeStore
        { s with
          dirty := dirty
          receiver :=
            if remove then .freezeRemoving pending key todo else .freezing pending todo }
  | freezeRemove {pending todo : List PendingMember} {key : ℕ} :
      s.receiver = .freezeRemoving pending key todo →
      ReceiverStep s .freezeRemove
        { s with
          dirty := s.dirty.remove key
          owed := Function.update s.owed key none
          receiver := .freezing pending todo }
  | freezeTake {pending : List PendingMember} {snapshots : List Snapshot} {dirty : DirtyState} :
      s.receiver = .freezing pending [] → s.dirty.freeze pending = (snapshots, dirty) →
      ReceiverStep s .freezeTake { s with dirty := dirty, receiver := .publishing snapshots }
  | freezePublish {snapshots : List Snapshot} : s.receiver = .publishing snapshots →
      ReceiverStep s .freezePublish
        { s with
          dirty := s.dirty.publishFrozen (DirtyState.buildImages snapshots)
          receiver := .idle }
  | close :
      ReceiverStep s .close
        { s with dirty := s.dirty.close, owed := fun _ => none, receiver := .idle }

theorem tryRecv_step {s : System} (lim : ℕ) (hi : s.receiver = .idle) :
    ReceiverStep s (.tryRecv lim) (s.selected (s.dirty.select lim)) := by
  unfold DirtyState.select
  split
  · rename_i hc
    exact .nothing lim hi (by simpa [or_assoc] using hc)
  · rename_i ho
    simp only [Bool.or_eq_true, not_or, Bool.not_eq_true] at ho
    have hs : Selecting s.dirty := ⟨ho.1.1.1, ho.1.1.2, ho.1.2, ho.2⟩
    split
    · rename_i e he
      exact .terminal lim hi hs he
    · rename_i hn
      split
      · rename_i hf
        exact .frozen lim hi hs hn hf rfl
      · rename_i hf
        exact .live lim hi hs hn (by simpa using hf) rfl

theorem receiverStep_of_step {s t : System} {a : ReceiverAction}
    (h : s.stepReceiver a = some t) : ReceiverStep s a t := by
  unfold stepReceiver at h
  split at h
  · rename_i lim hid
    cases h
    exact tryRecv_step lim hid
  · rename_i m todo built hr
    obtain ⟨⟨rev, row⟩, hi, rfl⟩ := Option.map_eq_some_iff.mp h
    exact .useFinal hr hi
  · rename_i row m todo built hr
    split at h
    · rename_i hg
      cases h
      exact .capture row hr hg.1 hg.2.1 hg.2.2
    · simp at h
  · rename_i m todo built hr
    split at h
    · rename_i hn
      cases h
      exact .captureMissing hr hn
    · simp at h
  · rename_i m todo built hr
    split at h
    · rename_i im hi
      cases h
      obtain ⟨e, he, hf⟩ := Option.bind_eq_some_iff.mp hi
      exact .fallbackFinal hr he hf
    · rename_i hi
      cases h
      refine .fallbackNone hr ?_
      intro e he
      simpa [he] using hi
  · rename_i key todo built hr
    cases h
    exact .removeMissing hr
  · rename_i m rev row todo built hr
    cases h
    exact .settle hr rfl
  · rename_i built hr
    split at h
    · rename_i hb
      cases h
      subst hb
      exact .issueNothing hr
    · rename_i hb
      cases h
      exact .issueLive hr hb
  · rename_i ids hr
    cases h
    exact .issueFrozen hr
  · rename_i hr
    split at h
    · rename_i hn
      cases h
      exact .closedAlready hr hn
    · rename_i pending dirty hbe
      cases h
      exact .prepareClose hr hbe
  · rename_i pending m todo hr
    split at h
    · rename_i hre
      cases h
      exact .freezeSkip hr hre
    · simp at h
  · rename_i row pending m todo hr
    split at h
    · rename_i hg
      cases h
      exact .freezeCapture row hr (by simpa using hg.1) hg.2.1 hg.2.2
    · simp at h
  · rename_i pending m todo hr
    split at h
    · simp at h
    · rename_i hre
      cases h
      exact .freezeMissing hr (by simpa using hre)
  · rename_i pending key im todo hr
    cases h
    exact .freezeStore hr rfl
  · rename_i pending key todo hr
    cases h
    exact .freezeRemove hr
  · rename_i pending hr
    cases h
    exact .freezeTake hr rfl
  · rename_i snaps hr
    cases h
    exact .freezePublish hr
  · cases h
    exact .close
  · simp at h

inductive ReceiptStep (s : System) (index : ℕ) : ReceiptAction → System → Prop where
  | takeSuccess {receipt : Receipt} : s.receipts[index]? = some receipt →
      ReceiptStep s index .takeSuccess
        { s with receipts := s.receipts.modify index Receipt.takeSuccess }
  | takeError {receipt : Receipt} : s.receipts[index]? = some receipt →
      ReceiptStep s index .takeError
        { s with receipts := s.receipts.modify index Receipt.takeError }
  | restoreError {receipt : Receipt} : s.receipts[index]? = some receipt →
      ReceiptStep s index .restoreError
        { s with receipts := s.receipts.modify index Receipt.restoreError }
  | commit {receipt : Receipt} : s.receipts[index]? = some receipt →
      ReceiptStep s index .commit
        { s with
          dirty := receipt.commit s.dirty
          receipts := s.receipts.eraseIdx index
          committed := s.committed ++ [receipt]
          owed := discharge s.owed receipt.rows }
  | drop {receipt : Receipt} : s.receipts[index]? = some receipt →
      ReceiptStep s index .drop
        { s with
          dirty := receipt.drop s.dirty
          receipts := s.receipts.eraseIdx index }

theorem receiptStep_of_step {s t : System} {a : ReceiptAction} {i : ℕ}
    (h : s.stepReceipt a i = some t) : ReceiptStep s i a t := by
  obtain ⟨r, hr, rfl⟩ := Option.map_eq_some_iff.mp h
  cases a with
  | takeSuccess => exact .takeSuccess hr
  | takeError => exact .takeError hr
  | restoreError => exact .restoreError hr
  | commit => exact .commit hr
  | drop => exact .drop hr

/-- An invariant holds in every reachable state when the three kinds of steps keep it. -/
theorem step_invariant {Inv : System → Prop} (hf : ∀ {s a t}, Inv s → FeedStep s a t → Inv t)
    (hr : ∀ {s a t}, Inv s → ReceiverStep s a t → Inv t)
    (hre : ∀ {s i a t}, Inv s → ReceiptStep s i a t → Inv t)
    {s t : System} {a : Action} (hs : Inv s) (h : s.step a = some t) : Inv t := by
  cases a with
  | feed a => exact hf hs (feedStep_of_step h)
  | receiver a => exact hr hs (receiverStep_of_step h)
  | receipt a i => exact hre hs (receiptStep_of_step h)

end System

end Xbbg.StateDelivery
