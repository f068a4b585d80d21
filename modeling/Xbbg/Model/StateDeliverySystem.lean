import Xbbg.Model.StateDelivery

/-! One state-delivery consumer with everything that runs against it: feeds that advance
and mark under their own lock, the receiver between its critical sections, and the receipts
that are out. An image captured from a feed is an arbitrary row at the feed's revision. -/

namespace Xbbg.StateDelivery

open Library

/-- A row that a receipt carries, with the revision that it was captured at. -/
structure DeliveredRow where
  key : ℕ
  revision : ℕ
  row : ImageRow
  deriving DecidableEq, Repr

/-- `rows` are the rows in a successful result, kept after `take_success` has moved the
result out. `taken` is the error that `take_error` has moved out. -/
structure Receipt where
  result : Option (Except BlpError (List ImageRow))
  keys : List ReceiptKey
  frozenIds : List ℕ
  terminal : Bool
  rows : List DeliveredRow
  taken : Option BlpError

namespace Receipt

def ofTerminal (error : BlpError) : Receipt :=
  ⟨some (.error error), [], [], true, [], none⟩

def takeSuccess (receipt : Receipt) : Receipt :=
  match receipt.result with
  | some (.ok _) => { receipt with result := none }
  | _ => receipt

def takeError (receipt : Receipt) : Receipt :=
  match receipt.result with
  | some (.error error) => { receipt with result := none, taken := some error }
  | _ => receipt

/-- Give a taken error back. -/
def restoreError (receipt : Receipt) : Receipt :=
  match receipt.taken with
  | some error => { receipt with result := some (.error error), taken := none }
  | none => receipt

/-- The error that is still in the receipt. -/
def error? (receipt : Receipt) : Option BlpError :=
  match receipt.result with
  | some (.error error) => some error
  | _ => none

def commit (receipt : Receipt) (st : DirtyState) : DirtyState :=
  if receipt.terminal then st.finishTerminal none
  else if receipt.frozenIds.isEmpty then st.finish receipt.keys true
  else st.finishFrozen receipt.frozenIds true

def drop (receipt : Receipt) (st : DirtyState) : DirtyState :=
  if receipt.terminal then st.finishTerminal receipt.error?
  else if receipt.frozenIds.isEmpty then st.finish receipt.keys false
  else st.finishFrozen receipt.frozenIds false

end Receipt

def isStateMetadata (name : String) : Bool :=
  name ∈ ["topic", "last_update", "live", "delayed", "valid"]

def stateFieldConflict (field : String) : BlpError :=
  .invalidArgument ("Configuration error: state delivery field '" ++ field ++
    "' conflicts with a reserved metadata column; use delivery='deltas' to request this field")

/-- The reserved column that a schema collides with stays recorded. -/
def observeNames (collision : Option String) (names : List String) : Option String :=
  collision.or (names.find? isStateMetadata)

def rowNames (rows : List ImageRow) : List String :=
  rows.flatMap fun row => row.layout.fields.map (·.name)

/-- The receipt over materialized rows. A recorded collision fails every materialization. -/
def Receipt.ofRows (collision : Option String) (keys : List ReceiptKey) (frozenIds : List ℕ)
    (rows : List DeliveredRow) : Receipt :=
  match collision with
  | some name => ⟨some (.error (stateFieldConflict name)), keys, frozenIds, false, [], none⟩
  | none => ⟨some (.ok (rows.map (·.row))), keys, frozenIds, false, rows, none⟩

/-- One image in a batch under construction. -/
structure BuiltRow where
  receipt : ReceiptKey
  delivered : DeliveredRow
  deriving DecidableEq, Repr

/-- Where the receiver is between two critical sections. `reading` to `frozenSelected` are
inside `try_recv`, the others inside `prepare_close`. -/
inductive Receiver where
  | idle
  | reading (todo : List SelectedMember) (built : List BuiltRow)
  | fallback (selected : SelectedMember) (todo : List SelectedMember) (built : List BuiltRow)
  | removing (key : ℕ) (todo : List SelectedMember) (built : List BuiltRow)
  | settling (selected : SelectedMember) (revision : ℕ) (row : ImageRow)
      (todo : List SelectedMember) (built : List BuiltRow)
  | frozenSelected (ids : List ℕ)
  | freezing (pending todo : List PendingMember)
  | freezeStoring (pending : List PendingMember) (key : ℕ) (image : Option (ℕ × ImageRow))
      (todo : List PendingMember)
  | freezeRemoving (pending : List PendingMember) (key : ℕ) (todo : List PendingMember)
  | publishing (snapshots : List Snapshot)

/-- `held` is the revision at which the feed's lock was taken, while it is. -/
structure FeedView where
  revision : ℕ
  held : Option ℕ
  deriving DecidableEq, Repr

/-- `active` says which topics are active in their feed. The last six fields are
history: the receipts issued and those committed, the frozen images skipped as covered, the
losses marked and the final row owed for each key, and the first failure accepted. -/
structure System where
  dirty : DirtyState
  feeds : ℕ → FeedView
  active : ℕ → Bool
  nextKey : ℕ
  collision : Option String
  receiver : Receiver
  receipts : List Receipt
  issued : List Receipt
  committed : List Receipt
  skipped : List ℕ
  losses : ℕ → List ℕ
  owed : ℕ → Option ImageRow
  failure : Option BlpError

namespace System

def new : System where
  dirty := .new
  feeds := fun _ => ⟨0, none⟩
  active := fun _ => false
  nextKey := 0
  collision := none
  receiver := .idle
  receipts := []
  issued := []
  committed := []
  skipped := []
  losses := fun _ => []
  owed := fun _ => none
  failure := none

/-- What happens under the lock of a feed, and what the hub does to the whole stream. -/
inductive FeedAction where
  | lock (feed : ℕ)
  | advance (feed : ℕ)
  | unlock (feed : ℕ)
  | deactivate (key : ℕ)
  | register (feed : ℕ) (label : String) (recovering : Bool)
  | mark (key : ℕ)
  | dataLoss (key : ℕ)
  | retire (key : ℕ) (lastUpdate : Option ℤ) (delayed : Option Bool) (layout : FieldLayout)
  | detach (key : ℕ)
  | fail (error : BlpError)
  | closeSource
  | seedSchema (names : List String)

/-- The sections of `try_recv`, `prepare_close` and `close`. -/
inductive ReceiverAction where
  | tryRecv (limit : ℕ)
  | useFinal
  | capture (row : ImageRow)
  | captureMissing
  | readFallback
  | removeMissing
  | settle
  | issue
  | prepareClose
  | freezeSkip
  | freezeCapture (row : ImageRow)
  | freezeMissing
  | freezeStore
  | freezeRemove
  | freezeTake
  | freezePublish
  | close

inductive ReceiptAction where
  | takeSuccess
  | takeError
  | restoreError
  | commit
  | drop

inductive Action where
  | feed (a : FeedAction)
  | receiver (a : ReceiverAction)
  | receipt (a : ReceiptAction) (index : ℕ)

def setFeed (s : System) (feed : ℕ) (view : FeedView) : System :=
  { s with feeds := Function.update s.feeds feed view }

def memberFeed (s : System) (key : ℕ) : Option FeedView :=
  (s.dirty.members.get key).map fun member => s.feeds member.feed

/-- Hand out a receipt. -/
def give (s : System) (receipt : Receipt) : System :=
  { s with
    receiver := .idle
    receipts := s.receipts ++ [receipt]
    issued := s.issued ++ [receipt] }

/-- `materialize_delivery` and the receipt made of its result. -/
def giveRows (s : System) (keys : List ReceiptKey) (frozenIds : List ℕ)
    (rows : List DeliveredRow) : System :=
  let collision := observeNames s.collision (rowNames (rows.map (·.row)))
  { s with collision := collision }.give (.ofRows collision keys frozenIds rows)

def frozenRows (s : System) (ids : List ℕ) : List DeliveredRow :=
  ids.filterMap fun id => (s.dirty.frozenImages[id]?).map fun image =>
    ⟨image.key, image.revision, image.row⟩

/-- Forget the final rows that a committed receipt has delivered. -/
def discharge (owed : ℕ → Option ImageRow) (rows : List DeliveredRow) : ℕ → Option ImageRow :=
  fun key => (owed key).filter fun row => rows.all fun delivered =>
    delivered.key != key || delivered.row != row

def stepFeed (s : System) : FeedAction → Option System
  | .lock feed =>
    if (s.feeds feed).held = none then
      some (s.setFeed feed ⟨(s.feeds feed).revision, some (s.feeds feed).revision⟩)
    else none
  | .advance feed =>
    if (s.feeds feed).held = none then none
    else some (s.setFeed feed ⟨(s.feeds feed).revision + 1, (s.feeds feed).held⟩)
  | .unlock feed => some (s.setFeed feed ⟨(s.feeds feed).revision, none⟩)
  | .deactivate key => some { s with active := Function.update s.active key false }
  | .register feed label recovering =>
    if (s.feeds feed).held = none then none
    else
      let revision := (s.feeds feed).revision
      let registered := s.dirty.register s.nextKey feed revision label
      some
        { s with
          dirty := if recovering then registered.mark s.nextKey revision true else registered
          active := Function.update s.active s.nextKey true
          nextKey := s.nextKey + 1
          owed := fun key => (s.owed key).filter fun _ => (registered.members.get key).isSome }
  | .mark key =>
    match s.memberFeed key with
    | none => none
    | some view =>
      if s.active key ∧ view.held.isSome then
        some { s with dirty := s.dirty.mark key view.revision false }
      else none
  | .dataLoss key =>
    match s.memberFeed key with
    | none => none
    | some view =>
      -- The loss has its own revision: `on_data_loss` advances the feed before it marks.
      if s.active key ∧ view.held.any (· < view.revision) then
        some
          { s with
            dirty := s.dirty.mark key view.revision true
            losses :=
              if s.dirty.rejects then s.losses
              else Function.update s.losses key (s.losses key ++ [view.revision]) }
      else none
  | .retire key lastUpdate delayed layout =>
    match s.dirty.members.get key with
    | none => none
    | some member =>
      if (s.feeds member.feed).held = none then none
      else
        let row : ImageRow := ⟨member.label, lastUpdate, false, delayed, false, layout, none⟩
        some
          { s with
            dirty := s.dirty.retire key row
            active := Function.update s.active key false
            owed :=
              if s.dirty.rejects then s.owed else Function.update s.owed key (some row) }
  | .detach key =>
    some
      { s with
        dirty := s.dirty.detach key
        active := Function.update s.active key false
        owed := if s.dirty.closing then s.owed else Function.update s.owed key none }
  | .fail error =>
    if s.dirty.receiverClosed || s.dirty.terminalDelivered || s.dirty.terminalInFlight then some s
    else
      some
        { s with
          dirty := s.dirty.fail error
          owed := fun _ => none
          failure := some (s.failure.getD error) }
  | .closeSource =>
    some
      { s with
        dirty := s.dirty.closeSource
        owed := if s.dirty.closing then s.owed else fun _ => none }
  | .seedSchema names => some { s with collision := observeNames s.collision names }

/-- A capture that waits for the feed's lock and finds the topic active. -/
def canCapture (s : System) (key feed : ℕ) : Prop :=
  s.active key ∧ (s.feeds feed).held = none

instance (s : System) (key feed : ℕ) : Decidable (s.canCapture key feed) :=
  inferInstanceAs (Decidable (_ ∧ _))

/-- Enter `try_recv` with what its first section selected. -/
def selected (s : System) : Selection × DirtyState → System
  | (.nothing, dirty) => { s with dirty := dirty }
  | (.terminal error, dirty) => { s with dirty := dirty }.give (.ofTerminal error)
  | (.frozen ids skipped, dirty) =>
    { s with
      dirty := dirty
      skipped := s.skipped ++ skipped
      receiver := if ids = [] then .idle else .frozenSelected ids }
  | (.live members, dirty) =>
    { s with
      dirty := dirty
      receiver := if members = [] then .idle else .reading members [] }

def stepReceiver (s : System) (a : ReceiverAction) : Option System :=
  match a, s.receiver with
  | .tryRecv limit, .idle => some (s.selected (s.dirty.select limit))
  | .useFinal, .reading (member :: todo) built =>
    member.finalImage.map fun image =>
      { s with receiver := .settling member image.1 image.2 todo built }
  | .capture row, .reading (member :: todo) built =>
    if member.finalImage = none ∧ s.canCapture member.key member.feed then
      some { s with
        receiver := .settling member (s.feeds member.feed).revision row todo built }
    else none
  | .captureMissing, .reading (member :: todo) built =>
    if member.finalImage = none then some { s with receiver := .fallback member todo built }
    else none
  | .readFallback, .fallback member todo built =>
    match (s.dirty.members.get member.key).bind (·.finalImage) with
    | some image => some { s with receiver := .settling member image.1 image.2 todo built }
    | none => some { s with receiver := .removing member.key todo built }
  | .removeMissing, .removing key todo built =>
    some
      { s with
        dirty := s.dirty.remove key
        owed := Function.update s.owed key none
        receiver := .reading todo built }
  | .settle, .settling member revision row todo built =>
    let (receipt, settled) := s.dirty.settleImage member revision row
    some { s with
      receiver := .reading todo (built ++ [⟨receipt, ⟨member.key, revision, settled⟩⟩]) }
  | .issue, .reading [] built =>
    if built = [] then some { s with receiver := .idle }
    else some (s.giveRows (built.map (·.receipt)) [] (built.map (·.delivered)))
  | .issue, .frozenSelected ids => some (s.giveRows [] ids (s.frozenRows ids))
  | .prepareClose, .idle =>
    match s.dirty.beginFreeze with
    | none => some s
    | some (pending, dirty) => some { s with dirty := dirty, receiver := .freezing pending pending }
  | .freezeSkip, .freezing pending (member :: todo) =>
    if member.retired then some { s with receiver := .freezing pending todo } else none
  | .freezeCapture row, .freezing pending (member :: todo) =>
    if !member.retired ∧ s.canCapture member.key member.feed then
      some { s with
        receiver :=
          .freezeStoring pending member.key (some ((s.feeds member.feed).revision, row)) todo }
    else none
  | .freezeMissing, .freezing pending (member :: todo) =>
    if member.retired then none
    else some { s with receiver := .freezeStoring pending member.key none todo }
  | .freezeStore, .freezeStoring pending key image todo =>
    let (remove, dirty) := s.dirty.storeFreeze key image
    some
      { s with
        dirty := dirty
        receiver :=
          if remove then .freezeRemoving pending key todo else .freezing pending todo }
  | .freezeRemove, .freezeRemoving pending key todo =>
    some
      { s with
        dirty := s.dirty.remove key
        owed := Function.update s.owed key none
        receiver := .freezing pending todo }
  | .freezeTake, .freezing pending [] =>
    let (snapshots, dirty) := s.dirty.freeze pending
    some { s with dirty := dirty, receiver := .publishing snapshots }
  | .freezePublish, .publishing snapshots =>
    some
      { s with
        dirty := s.dirty.publishFrozen (DirtyState.buildImages snapshots)
        receiver := .idle }
  | .close, _ =>
    some { s with dirty := s.dirty.close, owed := fun _ => none, receiver := .idle }
  | _, _ => none

def stepReceipt (s : System) (a : ReceiptAction) (index : ℕ) : Option System :=
  (s.receipts[index]?).map fun receipt =>
    match a with
    | .takeSuccess => { s with receipts := s.receipts.modify index Receipt.takeSuccess }
    | .takeError => { s with receipts := s.receipts.modify index Receipt.takeError }
    | .restoreError => { s with receipts := s.receipts.modify index Receipt.restoreError }
    | .commit =>
      { s with
        dirty := receipt.commit s.dirty
        receipts := s.receipts.eraseIdx index
        committed := s.committed ++ [receipt]
        owed := discharge s.owed receipt.rows }
    | .drop =>
      { s with
        dirty := receipt.drop s.dirty
        receipts := s.receipts.eraseIdx index }

def step (s : System) : Action → Option System
  | .feed a => s.stepFeed a
  | .receiver a => s.stepReceiver a
  | .receipt a index => s.stepReceipt a index

end System

end Xbbg.StateDelivery
