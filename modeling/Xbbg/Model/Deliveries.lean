import Xbbg.Model.Channel

/-! Transactional delivery of deltas to a consumer, from `subscription_consumer.rs`: leases on the
next batch, and the drain that closes a consumer. -/

namespace Xbbg.Deliveries

open Channel

/-- What the receiver yields: updates with their gaps, and errors. -/
abbrev Event := SubscriptionEvent SubscriptionUpdate

def subscriptionLayoutsMatch (current next : FieldLayout) : Bool :=
  current.version == next.version && current.fields.length == next.fields.length &&
    (current.fields.zip next.fields).all fun (left, right) =>
      left.index == right.index && left.kind == right.kind && left.name == right.name

/-! ### Batches -/

/-- A batch is given by its layout and the updates that its rows are built from. -/
structure RecordBatch where
  layout : FieldLayout
  rows : List SubscriptionUpdate
  deriving DecidableEq, Repr

structure SubscriptionArrowBatcher where
  layout : Option FieldLayout
  rows : List SubscriptionUpdate
  deriving DecidableEq, Repr

namespace SubscriptionArrowBatcher

def new : SubscriptionArrowBatcher := ⟨none, []⟩

/-- The layout is initialized whenever there are rows. -/
def flush (batcher : SubscriptionArrowBatcher) : Option RecordBatch × SubscriptionArrowBatcher :=
  match batcher.rows, batcher.layout with
  | [], _ | _, none => (none, batcher)
  | rows, some layout => (some ⟨layout, rows⟩, { batcher with rows := [] })

def matchesLayout (batcher : SubscriptionArrowBatcher) (layout : FieldLayout) : Bool :=
  batcher.layout.any (subscriptionLayoutsMatch · layout)

/-- Append one update, flushing the pending rows first when the layout changes. -/
def append (batcher : SubscriptionArrowBatcher) (update : SubscriptionUpdate) :
    Option RecordBatch × SubscriptionArrowBatcher :=
  if batcher.matchesLayout update.layout then
    (none, { batcher with rows := batcher.rows ++ [update] })
  else (batcher.flush.1, ⟨some update.layout, [update]⟩)

end SubscriptionArrowBatcher

structure SubscriptionDelivery where
  data : RecordBatch
  gapBefore : Option SubscriptionGap
  deriving DecidableEq, Repr

/-! ### Receipts -/

structure RawDeliveryReceipt where
  value : Option (Except BlpError SubscriptionDelivery)
  events : List Event

/-- Push events back in front of the pending ones, the last one first. -/
def restoreEvents (events pending : List Event) : List Event :=
  events.reverse.foldl (fun pending event => event :: pending) pending

namespace RawDeliveryReceipt

def takeSuccess (receipt : RawDeliveryReceipt) : Option SubscriptionDelivery × RawDeliveryReceipt :=
  match receipt.value with
  | some (.ok delivery) => (some delivery, { receipt with value := none })
  | _ => (none, receipt)

def takeError (receipt : RawDeliveryReceipt) : Option BlpError × RawDeliveryReceipt :=
  match receipt.value with
  | some (.error error) => (some error, { receipt with value := none })
  | _ => (none, receipt)

def restoreError (receipt : RawDeliveryReceipt) (error : BlpError) : RawDeliveryReceipt :=
  { receipt with value := some (.error error) }

/-- What its drop does to the pending events. -/
def drop (receipt : RawDeliveryReceipt) (pending : List Event) : List Event :=
  let pending :=
    match receipt.value with
    | some (.error error) => .error error :: pending
    | _ => pending
  restoreEvents receipt.events pending

end RawDeliveryReceipt

/-! ### Reading a batch -/

structure Receiver where
  queue : List Event
  isOpen : Bool

/-- The next event: a pending one, otherwise one that the receiver has ready. -/
def popEvent (pending : List Event) (rx : Option Receiver) :
    Option (Event × List Event × Option Receiver) :=
  match pending, rx with
  | event :: rest, _ => some (event, rest, rx)
  | [], some ⟨event :: rest, isOpen⟩ => some (event, [], some ⟨rest, isOpen⟩)
  | [], _ => none

def sameEpochAndLayout (first : SubscriptionUpdate) : Event → Bool
  | .update update none => subscriptionLayoutsMatch first.layout update.layout
  | _ => false

/-- The loop of `read_ready_delivery`, by the number of events that the batch still has room
for. The event at a boundary goes back to the front of the pending ones. -/
def collectReady (first : SubscriptionUpdate) :
    ℕ → List Event → List Event → Option Receiver → List Event × List Event × Option Receiver
  | 0, events, pending, rx => (events, pending, rx)
  | room + 1, events, pending, rx =>
    match popEvent pending rx with
    | none => (events, pending, rx)
    | some (item, rest, rx') =>
      if sameEpochAndLayout first item then
        collectReady first room (events ++ [item]) rest rx'
      else (events, item :: rest, rx')

def appendEvent (batcher : SubscriptionArrowBatcher) : Event → SubscriptionArrowBatcher
  | .update update _ => (batcher.append update).2
  | .error _ => batcher

/-- `none` is the panic on an empty batch. -/
def readReadyDelivery (batcher : SubscriptionArrowBatcher) (first : Event) (pending : List Event)
    (rx : Option Receiver) (limit : ℕ) :
    Option (RawDeliveryReceipt × List Event × Option Receiver × SubscriptionArrowBatcher) :=
  match first with
  | .error error => some (⟨some (.error error), []⟩, pending, rx, batcher)
  | .update update gapBefore =>
    let (events, pending, rx) := collectReady update (max limit 1 - 1) [first] pending rx
    let (data, batcher) := (events.foldl appendEvent batcher).flush
    data.map fun data => (⟨some (.ok ⟨data, gapBefore⟩), events⟩, pending, rx, batcher)

/-! ### The drain -/

structure ClosedDeliverySource where
  receiver : Option Receiver
  cleanupError : Option BlpAsyncError

structure DeliveryDrainRecovery where
  source : Option ClosedDeliverySource
  cleanupError : Option BlpAsyncError

inductive DrainErrorOrigin where
  | stream (index : ℕ)
  | cleanup
  deriving DecidableEq, Repr

structure DrainFailure where
  error : BlpAsyncError
  origin : DrainErrorOrigin
  deriving DecidableEq, Repr

structure DeliveryDrainTransaction where
  source : ClosedDeliverySource
  receipts : List RawDeliveryReceipt
  deliveries : List SubscriptionDelivery
  failure : Option DrainFailure

namespace DeliveryDrainTransaction

def push (transaction : DeliveryDrainTransaction) (receipt : RawDeliveryReceipt) :
    DeliveryDrainTransaction :=
  match receipt.takeSuccess with
  | (some delivery, receipt) =>
    { transaction with
      deliveries := transaction.deliveries ++ [delivery]
      receipts := transaction.receipts ++ [receipt] }
  | (none, receipt) =>
    match transaction.failure, receipt.takeError with
    | none, (some error, receipt) =>
      { transaction with
        failure := some ⟨.blp error, .stream transaction.receipts.length⟩
        receipts := transaction.receipts ++ [receipt] }
    | _, _ => { transaction with receipts := transaction.receipts ++ [receipt] }

/-- The loop over all unread events; `fuel` bounds their number. -/
def drain (limit : ℕ) : ℕ → DeliveryDrainTransaction → List Event → SubscriptionArrowBatcher →
      Option (DeliveryDrainTransaction × List Event × SubscriptionArrowBatcher)
  | 0, transaction, pending, batcher => some (transaction, pending, batcher)
  | fuel + 1, transaction, pending, batcher =>
    match popEvent pending transaction.source.receiver with
    | none => some (transaction, pending, batcher)
    | some (first, rest, rx) =>
      (readReadyDelivery batcher first rest rx limit).bind fun (receipt, rest, rx, batcher) =>
        drain limit fuel
          ({ transaction with source := { transaction.source with receiver := rx } }.push receipt)
          rest batcher

/-- An error from the cleanup is reported when the stream has none. -/
def takeCleanupError (transaction : DeliveryDrainTransaction) : DeliveryDrainTransaction :=
  match transaction.failure, transaction.source.cleanupError with
  | none, some error =>
    { transaction with
      source := { transaction.source with cleanupError := none }
      failure := some ⟨error, .cleanup⟩ }
  | _, _ => transaction

/-- Put the error back to where it was taken from, on a drop. -/
def restoreFailure (transaction : DeliveryDrainTransaction) :
    List RawDeliveryReceipt × ClosedDeliverySource :=
  match transaction.failure with
  | some ⟨.blp error, .stream index⟩ =>
    (transaction.receipts.modify index (·.restoreError error), transaction.source)
  | some ⟨error, .cleanup⟩ =>
    (transaction.receipts, { transaction.source with cleanupError := some error })
  | _ => (transaction.receipts, transaction.source)

/-- Raw receipts restore at the front, so they are unwound from the last one. -/
def drop (transaction : DeliveryDrainTransaction) (pending : List Event) :
    List Event × ClosedDeliverySource :=
  let (receipts, source) := transaction.restoreFailure
  (receipts.foldr RawDeliveryReceipt.drop pending, source)

end DeliveryDrainTransaction

/-! ### The consumer -/

/-- A lease on a batch, or its acknowledgement once `exported` has moved out of it. `taken` is
history: the events that the lease removed from the stream. -/
structure Lease where
  receipt : RawDeliveryReceipt
  exported : Option SubscriptionDelivery
  taken : List Event

structure DrainLease where
  transaction : DeliveryDrainTransaction
  exported : Option (List SubscriptionDelivery)
  taken : List Event

/-- What holds the control operations: a close on its way, or the lease that it ends in. -/
inductive Operation where
  | closing (drain : Bool)
  | drained (lease : DrainLease)

/-- What a commit hands out. -/
inductive Published where
  | delivery (delivery : SubscriptionDelivery)
  | error (error : BlpError)
  | drained (deliveries : List SubscriptionDelivery)
  | drainFailed (error : BlpAsyncError)

structure Commit where
  taken : List Event
  published : Published

/-- The last two fields are history: the events that the channel accepted and the commits. -/
structure SubscriptionConsumer where
  rx : Option Receiver
  pending : List Event
  closed : Bool
  batchLimit : ℕ
  batcher : SubscriptionArrowBatcher
  reading : Option Lease
  operation : Option Operation
  recovery : DeliveryDrainRecovery
  accepted : List Event
  commits : List Commit

namespace SubscriptionConsumer

def new (batchLimit : ℕ) : SubscriptionConsumer where
  rx := some ⟨[], true⟩
  pending := []
  closed := false
  batchLimit := batchLimit
  batcher := .new
  reading := none
  operation := none
  recovery := ⟨none, none⟩
  accepted := []
  commits := []

/-- `accept` is the channel's; `forward`, `cleanupFailed` and `cancelClose` can come at the
awaits of a close. -/
inductive Action where
  | accept (event : Event)
  | nextDelivery (limit : ℕ)
  | prepareSuccess
  | commitLease
  | dropLease
  | signalClose
  | startClose (drain : Bool)
  | forward
  | cleanupFailed (error : BlpAsyncError)
  | cancelClose
  | finishClose
  | prepareDrainSuccess
  | commitDrain
  | dropDrain

def queued (rx : Option Receiver) : List Event :=
  rx.elim [] Receiver.queue

def isError : Event → Bool
  | .error _ => true
  | _ => false

/-- A channel accepts nothing after a terminal error or once its receiver is closed. -/
def accept (s : SubscriptionConsumer) (event : Event) : Option SubscriptionConsumer :=
  match s.rx with
  | some ⟨queue, true⟩ =>
    if s.accepted.any isError then none
    else
      some
        { s with
          rx := some ⟨queue ++ [event], true⟩
          accepted := s.accepted ++ [event] }
  | _ => none

/-- The read gate is free and the consumer is open. `none` also stands for a reader that goes on
waiting for a first event. -/
def nextDelivery (s : SubscriptionConsumer) (limit : ℕ) : Option SubscriptionConsumer :=
  match s.closed, s.reading, s.rx with
  | false, none, some _ =>
    (popEvent s.pending s.rx).bind fun (first, pending, rx) =>
      (readReadyDelivery s.batcher first pending rx limit).map
        fun (receipt, pending, rx, batcher) =>
          let stream := s.pending ++ queued s.rx
          { s with
            rx := rx
            pending := pending
            batcher := batcher
            reading := some
              ⟨receipt, none, stream.take (stream.length - (pending ++ queued rx).length)⟩ }
  | _, _, _ => none

/-- An error keeps its lease. -/
def prepareSuccess (s : SubscriptionConsumer) : Option SubscriptionConsumer :=
  match s.reading with
  | some ⟨receipt, none, taken⟩ =>
    match receipt.takeSuccess with
    | (some delivery, receipt) => some { s with reading := some ⟨receipt, some delivery, taken⟩ }
    | (none, _) => some s
  | _ => none

def commitLease (s : SubscriptionConsumer) : Option SubscriptionConsumer :=
  match s.reading with
  | some ⟨_, some delivery, taken⟩ =>
    some { s with reading := none, commits := s.commits ++ [⟨taken, .delivery delivery⟩] }
  | some ⟨⟨some (.ok delivery), _⟩, none, taken⟩ =>
    some { s with reading := none, commits := s.commits ++ [⟨taken, .delivery delivery⟩] }
  | some ⟨⟨some (.error error), _⟩, none, taken⟩ =>
    some { s with reading := none, commits := s.commits ++ [⟨taken, .error error⟩] }
  | _ => none

def dropLease (s : SubscriptionConsumer) : Option SubscriptionConsumer :=
  s.reading.map fun lease =>
    { s with reading := none, pending := lease.receipt.drop s.pending }

/-- A close has the operations lock and has waited for the read gate. -/
def startClose (s : SubscriptionConsumer) (drain : Bool) : Option SubscriptionConsumer :=
  match s.closed, s.operation, s.reading with
  | true, none, none =>
    some
      { s with
        operation := some (.closing drain)
        recovery := if drain then s.recovery else ⟨none, none⟩ }
  | _, _, _ => none

/-- Move one event out of the way of the forwarder. -/
def forward (s : SubscriptionConsumer) : Option SubscriptionConsumer :=
  match s.operation, s.rx with
  | some (.closing true), some ⟨event :: rest, isOpen⟩ =>
    some { s with rx := some ⟨rest, isOpen⟩, pending := s.pending ++ [event] }
  | _, _ => none

def cleanupFailed (s : SubscriptionConsumer) (error : BlpAsyncError) :
    Option SubscriptionConsumer :=
  match s.operation with
  | some (.closing _) =>
    some
      { s with
        recovery := { s.recovery with cleanupError := s.recovery.cleanupError.or (some error) } }
  | _ => none

/-- The source of a drain: the one that a dropped drain left, or the receiver. -/
def closedSource (s : SubscriptionConsumer) : ClosedDeliverySource :=
  let source := s.recovery.source.getD ⟨s.rx.map fun rx => { rx with isOpen := false }, none⟩
  { source with cleanupError := source.cleanupError.or s.recovery.cleanupError }

/-- The rest of `prepare_unsubscribe_deliveries` after the last await of the close. -/
def finishClose (s : SubscriptionConsumer) : Option SubscriptionConsumer :=
  let transaction : DeliveryDrainTransaction := ⟨s.closedSource, [], [], none⟩
  let unread := s.pending ++ queued s.closedSource.receiver
  match s.operation with
  | some (.closing true) =>
    (transaction.drain s.batchLimit unread.length s.pending s.batcher).map
      fun (transaction, pending, batcher) =>
        { s with
          rx := none
          pending := pending
          batcher := batcher
          recovery := ⟨none, none⟩
          operation := some (.drained ⟨transaction.takeCleanupError, none, unread⟩) }
  | some (.closing false) =>
    some
      { s with
        rx := none
        pending := []
        recovery := ⟨none, none⟩
        operation := some (.drained ⟨transaction.takeCleanupError, none, []⟩) }
  | _ => none

/-- A failed drain keeps its lease. -/
def prepareDrainSuccess (s : SubscriptionConsumer) : Option SubscriptionConsumer :=
  match s.operation with
  | some (.drained ⟨transaction, none, taken⟩) =>
    match transaction.failure with
    | some _ => some s
    | none =>
      some
        { s with
          operation := some
            (.drained ⟨{ transaction with deliveries := [] }, some transaction.deliveries, taken⟩) }
  | _ => none

/-- All receipts are acknowledged and the source is dropped. -/
def commitDrain (s : SubscriptionConsumer) : Option SubscriptionConsumer :=
  match s.operation with
  | some (.drained ⟨_, some deliveries, taken⟩) =>
    some { s with operation := none, commits := s.commits ++ [⟨taken, .drained deliveries⟩] }
  | some (.drained ⟨transaction, none, taken⟩) =>
    match transaction.failure with
    | some failure =>
      some
        { s with operation := none, commits := s.commits ++ [⟨taken, .drainFailed failure.error⟩] }
    | none =>
      some
        { s with
          operation := none
          commits := s.commits ++ [⟨taken, .drained transaction.deliveries⟩] }
  | _ => none

def dropDrain (s : SubscriptionConsumer) : Option SubscriptionConsumer :=
  match s.operation with
  | some (.drained ⟨transaction, _, _⟩) =>
    let (pending, source) := transaction.drop s.pending
    some
      { s with
        operation := none
        pending := pending
        recovery := { s.recovery with source := some source } }
  | _ => none

def step (s : SubscriptionConsumer) : Action → Option SubscriptionConsumer
  | .accept event => s.accept event
  | .nextDelivery limit => s.nextDelivery limit
  | .prepareSuccess => s.prepareSuccess
  | .commitLease => s.commitLease
  | .dropLease => s.dropLease
  | .signalClose => some { s with closed := true }
  | .startClose drain => s.startClose drain
  | .forward => s.forward
  | .cleanupFailed error => s.cleanupFailed error
  | .cancelClose =>
    match s.operation with
    | some (.closing _) => some { s with operation := none }
    | _ => none
  | .finishClose => s.finishClose
  | .prepareDrainSuccess => s.prepareDrainSuccess
  | .commitDrain => s.commitDrain
  | .dropDrain => s.dropDrain

end SubscriptionConsumer

end Xbbg.Deliveries
