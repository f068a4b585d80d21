import Xbbg.Library.Table
import Xbbg.Model.Types
import Mathlib.Data.List.Sort

/-! Dirty-topic receipts over shared feed images, from
`engine/shared_subscriptions/state_delivery.rs`. Every definition on `DirtyState` is one
critical section of its lock. Feed revisions are natural numbers; buffers that only save
allocations and wake-up notifications are left out. -/

namespace Xbbg.StateDelivery

open Library

structure ImageRow where
  label : String
  lastUpdate : Option ℤ
  live : Bool
  delayed : Option Bool
  valid : Bool
  layout : FieldLayout
  projected : Option SubscriptionUpdate
  deriving DecidableEq, Repr

def ImageRow.invalidate (row : ImageRow) : ImageRow :=
  { row with valid := false, live := false, projected := none }

/-- A member of the consumer, with the feed that it reads. -/
structure DirtyMember where
  feed : ℕ
  label : String
  revision : ℕ
  acknowledged : Option ℕ
  invalidated : Option ℕ
  queued : Bool
  inFlight : Bool
  retired : Bool
  finalImage : Option (ℕ × ImageRow)
  deriving DecidableEq, Repr

structure SelectedMember where
  key : ℕ
  feed : ℕ
  invalidated : Option ℕ
  finalImage : Option (ℕ × ImageRow)
  deriving DecidableEq, Repr

structure ReceiptKey where
  key : ℕ
  acknowledged : ℕ
  invalidated : Option ℕ
  deriving DecidableEq, Repr

structure FrozenImage where
  key : ℕ
  revision : ℕ
  invalidated : Option ℕ
  recoveryEpoch : Bool
  row : ImageRow
  deriving DecidableEq, Repr

/-- A live receipt has already delivered what the image holds. -/
def FrozenImage.coveredBy (image : FrozenImage) (member : DirtyMember) : Bool :=
  member.acknowledged.any (image.revision ≤ ·) &&
    match image.invalidated with
    | some marker => member.invalidated ≠ some marker
    | none => member.invalidated.all (image.revision < ·)

/-- What a frozen selection took off the queue, and what it left there. -/
structure FrozenSelection where
  selected : List ℕ
  skipped : List ℕ
  queue : List ℕ
  deriving DecidableEq, Repr

inductive Selection where
  | nothing
  | terminal (error : BlpError)
  | frozen (ids skipped : List ℕ)
  | live (selected : List SelectedMember)
  deriving DecidableEq, Repr

/-- A member that `prepare_close` will freeze. -/
structure PendingMember where
  key : ℕ
  feed : ℕ
  retired : Bool
  deriving DecidableEq, Repr

structure Snapshot where
  key : ℕ
  revision : ℕ
  row : ImageRow
  invalidated : Option ℕ
  deriving DecidableEq, Repr

/-- The loss that a snapshot has to publish before its own image. -/
def Snapshot.marker (snapshot : Snapshot) : Option ℕ :=
  snapshot.invalidated.filter (· ≤ snapshot.revision)

/-- The image of the first epoch: the invalidation where one is owed. -/
def Snapshot.firstImage (snapshot : Snapshot) : FrozenImage :=
  match snapshot.row.valid, snapshot.marker with
  | true, some marker =>
    ⟨snapshot.key, marker, some marker, false, snapshot.row.invalidate⟩
  | _, _ => ⟨snapshot.key, snapshot.revision, snapshot.marker, false, snapshot.row⟩

def Snapshot.recoveryImage (snapshot : Snapshot) : Option FrozenImage :=
  match snapshot.row.valid, snapshot.marker with
  | true, some _ => some ⟨snapshot.key, snapshot.revision, none, true, snapshot.row⟩
  | _, _ => none

structure DirtyState where
  members : Table DirtyMember
  queue : List ℕ
  frozenImages : List FrozenImage
  frozenQueue : List ℕ
  terminal : Option BlpError
  terminalInFlight : Bool
  terminalDelivered : Bool
  sourceClosed : Bool
  receiverClosed : Bool
  freezing : Bool
  frozen : Bool

namespace DirtyState

def new : DirtyState :=
  ⟨Table.empty, [], [], [], none, false, false, false, false, false, false⟩

/-- Queue a member that is neither queued nor in flight. -/
def enqueue (st : DirtyState) (key : ℕ) : DirtyState :=
  { st with
    members := st.members.modify key fun member => { member with queued := true }
    queue := st.queue ++ [key] }

def register (st : DirtyState) (key feed revision : ℕ) (label : String) : DirtyState :=
  if st.sourceClosed || st.receiverClosed || st.freezing || st.frozen then st
  else
    -- Re-adding an alias replaces its retired generation.
    let members := st.members.retain fun member => !member.retired || member.label != label
    let queue := st.queue.filter fun queued => (members.get queued).isSome
    { st with
      members := members.insert key
        { feed := feed, label := label, revision := revision, acknowledged := none,
          invalidated := none, queued := true, inFlight := false, retired := false,
          finalImage := none }
      queue := queue ++ [key] }

/-- Store the changed member, and queue it unless a freeze, the queue or a receipt has it. -/
def updateAndQueue (st : DirtyState) (key : ℕ) (member : DirtyMember) : DirtyState :=
  let stored := { st with members := st.members.insert key member }
  if st.freezing || member.queued || member.inFlight then stored else stored.enqueue key

/-- Marks and retirements come too late. -/
def rejects (st : DirtyState) : Bool :=
  st.sourceClosed || st.receiverClosed || st.frozen

def mark (st : DirtyState) (key revision : ℕ) (invalidated : Bool) : DirtyState :=
  if st.rejects then st
  else
    match st.members.get key with
    | none => st
    | some member =>
      st.updateAndQueue key
        { member with
          revision := max member.revision revision
          -- Keep the first unpublished loss.
          invalidated :=
            if invalidated && member.invalidated.isNone then some revision
            else member.invalidated }

def retire (st : DirtyState) (key : ℕ) (row : ImageRow) : DirtyState :=
  if st.rejects then st
  else
    match st.members.get key with
    | none => st
    | some member =>
      st.updateAndQueue key
        { member with
          revision := member.revision + 1
          invalidated := none
          retired := true
          finalImage := some (member.revision + 1, row) }

def remove (st : DirtyState) (key : ℕ) : DirtyState :=
  { st with members := st.members.erase key, queue := st.queue.filter (· != key) }

def detach (st : DirtyState) (key : ℕ) : DirtyState :=
  if st.frozen || st.freezing then st else st.remove key

def fail (st : DirtyState) (error : BlpError) : DirtyState :=
  if st.receiverClosed || st.terminalDelivered || st.terminalInFlight then st
  else
    { st with
      terminal := some (st.terminal.getD error)
      sourceClosed := true
      queue := []
      frozenQueue := []
      members := st.members.map fun member => { member with queued := false } }

def closeSource (st : DirtyState) : DirtyState :=
  if !st.frozen && !st.freezing then
    { st with sourceClosed := true, queue := [], members := Table.empty }
  else { st with sourceClosed := true }

def closing (st : DirtyState) : Bool :=
  st.frozen || st.freezing

def canQueue (st : DirtyState) : Bool :=
  !st.receiverClosed && !st.terminalDelivered && !st.terminalInFlight &&
    st.terminal.isNone && !st.closing && !st.sourceClosed

/-- What a receipt that is given back makes of its member. -/
def settleMember (member : DirtyMember) (receipt : ReceiptKey) (committed : Bool) : DirtyMember :=
  if committed then
    { member with
      inFlight := false
      acknowledged :=
        some (member.acknowledged.elim receipt.acknowledged (max · receipt.acknowledged))
      invalidated :=
        if member.invalidated = receipt.invalidated then none else member.invalidated }
  else { member with inFlight := false }

/-- Some change of the member has not been acknowledged yet. -/
def owes (member : DirtyMember) : Bool :=
  member.invalidated.isSome || member.acknowledged.all (· < member.revision)

/-- One turn of the loop of `finish`; the flags it reads do not change on the way. -/
def finishOne (committed : Bool) (st : DirtyState) (receipt : ReceiptKey) : DirtyState :=
  match st.members.get receipt.key with
  | none => st
  | some member =>
    let settled := settleMember member receipt committed
    let dirty := !committed || owes settled
    if !st.closing && settled.retired && committed && !dirty then
      { st with members := st.members.erase receipt.key }
    else
      let stored := { st with members := st.members.insert receipt.key settled }
      if st.canQueue && dirty && !settled.queued then stored.enqueue receipt.key else stored

def finish (st : DirtyState) (keys : List ReceiptKey) (committed : Bool) : DirtyState :=
  keys.foldl (finishOne committed) st

/-- Put an image back at its sorted position. -/
def requeueFrozen (images : ℕ) (queue : List ℕ) (id : ℕ) : List ℕ :=
  if images ≤ id ∨ id ∈ queue then queue else queue.orderedInsert (· < ·) id

def finishFrozen (st : DirtyState) (ids : List ℕ) (committed : Bool) : DirtyState :=
  if !committed && st.frozen && !st.receiverClosed && !st.terminalDelivered &&
      !st.terminalInFlight && st.terminal.isNone then
    { st with frozenQueue := ids.foldl (requeueFrozen st.frozenImages.length) st.frozenQueue }
  else st

def finishTerminal (st : DirtyState) (error : Option BlpError) : DirtyState :=
  match error with
  | some error =>
    { st with
      terminalInFlight := false
      terminal := if st.receiverClosed then st.terminal else some error }
  | none =>
    { st with
      terminalInFlight := false
      terminalDelivered := true
      queue := []
      frozenQueue := [] }

/-- Take members off the queue until `limit` are selected. Keys without a member are
dropped, and so are members that a receipt holds already. -/
def selectLive : ℕ → List ℕ → Table DirtyMember → List SelectedMember × List ℕ × Table DirtyMember
  | 0, queue, members => ([], queue, members)
  | _ + 1, [], members => ([], [], members)
  | limit + 1, key :: rest, members =>
    match members.get key with
    | none => selectLive (limit + 1) rest members
    | some member =>
      if member.inFlight then
        selectLive (limit + 1) rest (members.insert key { member with queued := false })
      else
        let (selected, queue, members) := selectLive limit rest
          (members.insert key { member with queued := false, inFlight := true })
        (⟨key, member.feed, member.invalidated, member.finalImage⟩ :: selected, queue, members)

/-- Take images off the frozen queue until `limit` are selected, skipping covered ones and
stopping before a member in flight or a change of epoch. -/
def selectFrozen (images : List FrozenImage) (members : Table DirtyMember) :
    ℕ → Option Bool → List ℕ → FrozenSelection
  | 0, _, queue => ⟨[], [], queue⟩
  | _ + 1, _, [] => ⟨[], [], []⟩
  | limit + 1, epoch, id :: rest =>
    match images[id]? with
    | none => ⟨[], [], id :: rest⟩
    | some image =>
      let member := members.get image.key
      if member.any image.coveredBy then
        let found := selectFrozen images members (limit + 1) epoch rest
        { found with skipped := id :: found.skipped }
      else if member.any (·.inFlight) || epoch.any (· != image.recoveryEpoch) then
        ⟨[], [], id :: rest⟩
      else
        let found := selectFrozen images members limit (some image.recoveryEpoch) rest
        { found with selected := id :: found.selected }

/-- The critical section at the start of `try_recv`. -/
def select (st : DirtyState) (limit : ℕ) : Selection × DirtyState :=
  if st.receiverClosed || st.freezing || st.terminalInFlight || st.terminalDelivered then
    (.nothing, st)
  else
    match st.terminal with
    | some error => (.terminal error, { st with terminal := none, terminalInFlight := true })
    | none =>
      if st.frozen then
        let found := selectFrozen st.frozenImages st.members (max limit 1) none st.frozenQueue
        (.frozen found.selected found.skipped, { st with frozenQueue := found.queue })
      else
        let (selected, queue, members) := selectLive (max limit 1) st.queue st.members
        (.live selected, { st with queue := queue, members := members })

/-- How a captured image goes into the receipt: an unpublished loss up to its revision
turns a valid image into an invalid one that acknowledges the loss only. -/
def settleImage (st : DirtyState) (selected : SelectedMember) (revision : ℕ) (row : ImageRow) :
    ReceiptKey × ImageRow :=
  let upTo : Option ℕ → Option ℕ := Option.filter (· ≤ revision)
  let invalidated :=
    (upTo ((st.members.get selected.key).bind (·.invalidated))).or (upTo selected.invalidated)
  match row.valid, invalidated with
  | true, some marker => (⟨selected.key, min revision marker, invalidated⟩, row.invalidate)
  | _, _ => (⟨selected.key, revision, invalidated⟩, row)

def pendingMember (st : DirtyState) (key : ℕ) : Option PendingMember :=
  (st.members.get key).map fun member => ⟨key, member.feed, member.retired⟩

/-- Start a freeze of the queued members and those in flight. -/
def beginFreeze (st : DirtyState) : Option (List PendingMember × DirtyState) :=
  if st.receiverClosed || st.frozen || st.freezing then none
  else
    let inFlight := st.members.keys fun member => member.inFlight && !member.queued
    some ((st.queue ++ inFlight).filterMap st.pendingMember, { st with freezing := true })

/-- Keep the image captured for a freeze. The flag asks for the removal of a member
without any image. -/
def storeFreeze (st : DirtyState) (key : ℕ) (image : Option (ℕ × ImageRow)) : Bool × DirtyState :=
  match st.members.get key with
  | none => (false, st)
  | some member =>
    if member.retired then (false, st)
    else
      match image with
      | some image =>
        (false,
          { st with
            members := st.members.insert key
              { member with
                revision := max member.revision image.1
                finalImage := some image } })
      | none => (member.finalImage.isNone, st)

/-- Take the final images of the pending members out of the table. -/
def takeSnapshots (members : Table DirtyMember) :
    List PendingMember → List Snapshot × Table DirtyMember
  | [] => ([], members)
  | pending :: rest =>
    match members.get pending.key with
    | none => takeSnapshots members rest
    | some member =>
      let (snapshots, last) := takeSnapshots
        (members.insert pending.key { member with queued := false, finalImage := none }) rest
      match member.finalImage with
      | none => (snapshots, last)
      | some (revision, row) =>
        (⟨pending.key, revision, row, member.invalidated⟩ :: snapshots, last)

def freeze (st : DirtyState) (pending : List PendingMember) : List Snapshot × DirtyState :=
  let (snapshots, members) := takeSnapshots st.members pending
  (snapshots, { st with members := members, frozen := true, queue := [] })

/-- All first images, then the current images of the members that owe an invalidation. -/
def buildImages (snapshots : List Snapshot) : List FrozenImage :=
  snapshots.map Snapshot.firstImage ++ snapshots.filterMap Snapshot.recoveryImage

def publishFrozen (st : DirtyState) (images : List FrozenImage) : DirtyState :=
  { st with
    frozenImages := images
    queue := []
    frozenQueue :=
      if !st.receiverClosed && !st.terminalDelivered && st.terminal.isNone then
        List.range images.length
      else st.frozenQueue
    freezing := false
    frozen := true
    sourceClosed := true }

def close (st : DirtyState) : DirtyState :=
  { st with
    receiverClosed := true
    sourceClosed := true
    queue := []
    frozenQueue := []
    members := Table.empty
    frozenImages := []
    terminal := none }

end DirtyState

end Xbbg.StateDelivery
