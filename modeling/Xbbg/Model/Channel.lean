import Xbbg.Model.Types
import Mathlib.Algebra.Group.Nat.Defs
import Mathlib.Data.List.Basic
import Mathlib.Order.Lattice

/-! The bounded subscription transport, from `engine/state/channel.rs`. The state under the lock
and the atomics beside it are common to the strict queue, whose capacity is a semaphore, and the
overwrite queue, which evicts its oldest update. -/

namespace Xbbg.Channel

structure SubscriptionGap where
  droppedUpdates : ℕ
  deriving DecidableEq, Repr

inductive SubscriptionEvent (α : Type*) where
  | update (update : α) (gapBefore : Option SubscriptionGap)
  | error (error : BlpError)
  deriving DecidableEq, Repr

/-- What the lock protects. -/
structure ChannelState (α γ : Type*) where
  queue : List α
  pendingGap : γ
  terminalError : Option BlpError
  terminalDelivered : Bool
  receiverClosed : Bool
  deriving DecidableEq, Repr

def ChannelState.acceptsData {α γ : Type*} (state : ChannelState α γ) : Bool :=
  !state.receiverClosed && state.terminalError.isNone && !state.terminalDelivered

/-- Where the one receiver is: in no call, in `recv` before or after it found nothing, returning
an update whose permit it has not given back, or dropped. -/
inductive Receiver where
  | idle
  | polling
  | parked
  | returning
  | dropped
  deriving DecidableEq, Repr

/-- The gap counter of a queue strategy and where its receiver goes with an update. `count` is
what the counter shows after that many evictions. -/
structure QueueStrategy (γ : Type*) where
  count : ℕ → γ
  gap : γ → Option SubscriptionGap
  taken : Receiver

/-- How a send ended. -/
inductive Sent (α : Type*) where
  | accepted (update : α)
  | failed (error : BlpError)
  | closed (item : Except BlpError α)
  | full (update : α)

def Sent.update? {α : Type*} : Sent α → Option α
  | .accepted update => some update
  | _ => none

def Sent.error? {α : Type*} : Sent α → Option BlpError
  | .failed error => some error
  | _ => none

/-- A channel with the threads that are past its lock: `closing` have to close the slots,
`leaving` have dropped the last sender and `notifying` have to wake the receiver. `ready` is the
permit of the `Notify`. The last five fields are history: the sends, what was received, the
updates received with those evicted before each, the updates evicted since, and whether the end
of the stream was reported. -/
structure Shared (α γ : Type*) where
  accepting : Bool
  state : ChannelState α γ
  senderCount : ℕ
  ready : Bool
  closing : ℕ
  leaving : ℕ
  notifying : ℕ
  receiver : Receiver
  sent : List (Sent α)
  received : List (SubscriptionEvent α)
  delivered : List (List α × α)
  evicted : List α
  ended : Bool

namespace Shared

variable {α γ : Type*}

def new (q : QueueStrategy γ) : Shared α γ where
  accepting := true
  state := ⟨[], q.count 0, none, false, false⟩
  senderCount := 1
  ready := false
  closing := 0
  leaving := 0
  notifying := 0
  receiver := .idle
  sent := []
  received := []
  delivered := []
  evicted := []
  ended := false

/-- The updates that were accepted, in the order of acceptance. -/
def accepted (c : Shared α γ) : List α :=
  c.sent.filterMap Sent.update?

/-- The terminal errors that were accepted. -/
def failures (c : Shared α γ) : List BlpError :=
  c.sent.filterMap Sent.error?

def reject (c : Shared α γ) (item : Except BlpError α) : Shared α γ :=
  { c with sent := c.sent ++ [.closed item] }

def sendTerminal (c : Shared α γ) (error : BlpError) : Shared α γ :=
  if c.senderCount = 0 ∨ c.state.acceptsData = false then c.reject (.error error)
  else
    { c with
      state := { c.state with terminalError := some error }
      accepting := false
      closing := c.closing + 1
      sent := c.sent ++ [.failed error] }

def close (c : Shared α γ) : Shared α γ :=
  if c.state.receiverClosed then c
  else
    { c with
      state := { c.state with receiverClosed := true }
      accepting := false
      closing := c.closing + 1 }

/-- Put an update into the queue; its sender has left the lock. -/
def pushBack (c : Shared α γ) (update : α) : Shared α γ :=
  { c with
    state := { c.state with queue := c.state.queue ++ [update] }
    notifying := c.notifying + 1
    sent := c.sent ++ [.accepted update] }

/-- The section of `recv` and `try_recv` under the lock. A receiver that finds nothing goes to
`empty`. -/
def receive (q : QueueStrategy γ) (c : Shared α γ) (empty : Receiver) : Shared α γ :=
  match c.state.queue with
  | update :: rest =>
    { c with
      state := { c.state with queue := rest, pendingGap := q.count 0 }
      receiver := q.taken
      received := c.received ++ [.update update (q.gap c.state.pendingGap)]
      delivered := c.delivered ++ [(c.evicted, update)]
      evicted := [] }
  | [] =>
    match c.state.terminalError with
    | some error =>
      { c with
        state := { c.state with terminalError := none, terminalDelivered := true }
        receiver := .idle
        received := c.received ++ [.error error] }
    | none =>
      if c.state.receiverClosed ∨ c.state.terminalDelivered ∨ c.senderCount = 0 then
        { c with receiver := .idle, ended := true }
      else { c with receiver := empty }

/-- What the two kinds of channel have in common. `fail` is a sender's or a terminator's. -/
inductive Action where
  | fail (error : BlpError)
  | close
  | cloneSender
  | dropSender
  | finishDrop
  | closeSlots
  | notifyOne
  | recv
  | poll
  | wake
  | cancelRecv
  | tryRecv
  | dropReceiver
  deriving DecidableEq, Repr

def step (q : QueueStrategy γ) (c : Shared α γ) : Action → Option (Shared α γ)
  | .fail error => some (c.sendTerminal error)
  | .close => some c.close
  | .cloneSender =>
    if 0 < c.senderCount then some { c with senderCount := c.senderCount + 1 } else none
  | .dropSender =>
    match c.senderCount with
    | 0 => none
    | 1 => some { c with senderCount := 0, leaving := c.leaving + 1 }
    | n + 2 => some { c with senderCount := n + 1 }
  | .finishDrop =>
    match c.leaving with
    | 0 => none
    | n + 1 => some { c with accepting := false, leaving := n, notifying := c.notifying + 1 }
  | .closeSlots =>
    match c.closing with
    | 0 => none
    | n + 1 => some { c with closing := n, notifying := c.notifying + 1 }
  | .notifyOne =>
    match c.notifying with
    | 0 => none
    | n + 1 => some { c with notifying := n, ready := true }
  | .recv => if c.receiver = .idle then some { c with receiver := .polling } else none
  | .poll => if c.receiver = .polling then some (c.receive q .parked) else none
  | .wake =>
    if c.receiver = .parked ∧ c.ready then some { c with receiver := .polling, ready := false }
    else none
  | .cancelRecv =>
    if c.receiver = .polling ∨ c.receiver = .parked then some { c with receiver := .idle } else none
  | .tryRecv => if c.receiver = .idle then some (c.receive q .idle) else none
  | .dropReceiver =>
    if c.receiver = .idle then
      some
        { c with
          state := { c.state with queue := [], terminalError := none, receiverClosed := true }
          accepting := false
          closing := c.closing + 1
          receiver := .dropped }
    else none

end Shared

/-! ### The overwrite queue -/

/-- A saturating counter of 64 bits. -/
def saturate (n : ℕ) : ℕ :=
  min n (2 ^ 64 - 1)

def dropOldest : QueueStrategy ℕ where
  count := saturate
  gap := fun n => if n = 0 then none else some ⟨n⟩
  taken := .idle

/-- `returned` is history: the values that `try_send_with_eviction` returned. `unreported`
counts the evictions of the sends that do not return one. -/
structure Overwrite (α : Type*) where
  shared : Shared α ℕ
  capacity : ℕ
  returned : List ℕ
  unreported : ℕ

namespace Overwrite

variable {α : Type*}

def new (capacity : ℕ) : Overwrite α :=
  ⟨.new dropOldest, capacity, [], 0⟩

inductive Action (α : Type*) where
  | shared (action : Shared.Action)
  | trySendWithEviction (update : α)
  | send (item : Except BlpError α)

/-- `none` is a closed channel, otherwise the number of evicted updates is returned. -/
def trySendLossy (c : Shared α ℕ) (capacity : ℕ) (update : α) : Option ℕ × Shared α ℕ :=
  if c.state.acceptsData = false ∨ c.accepting = false then (none, c.reject (.ok update))
  else
    match c.state.queue with
    | oldest :: rest =>
      if c.state.queue.length = capacity then
        let evicting : Shared α ℕ :=
          { c with
            state :=
              { c.state with queue := rest, pendingGap := saturate (c.state.pendingGap + 1) }
            evicted := c.evicted ++ [oldest] }
        (some 1, evicting.pushBack update)
      else (some 0, c.pushBack update)
    | [] => (some 0, c.pushBack update)

/-- A send borrows a sender. `send` and `try_send` are one function here. -/
def step (s : Overwrite α) : Action α → Option (Overwrite α)
  | .shared action =>
    (s.shared.step dropOldest action).map fun shared => { s with shared := shared }
  | .trySendWithEviction update =>
    if s.shared.senderCount = 0 then none
    else
      let (dropped, shared) := trySendLossy s.shared s.capacity update
      some { s with shared := shared, returned := s.returned ++ dropped.toList }
  | .send (.ok update) =>
    if s.shared.senderCount = 0 then none
    else
      let (dropped, shared) := trySendLossy s.shared s.capacity update
      some { s with shared := shared, unreported := s.unreported + dropped.getD 0 }
  | .send (.error error) =>
    if s.shared.senderCount = 0 then none
    else some { s with shared := s.shared.sendTerminal error }

end Overwrite

/-! ### The strict queue -/

def semaphore : QueueStrategy Unit where
  count := fun _ => ()
  gap := fun _ => none
  taken := .returning

/-- A send that has seen the channel accepting: it waits for a permit, tries to get one, holds
one, has to give it back after a rejection, or carries a terminal error. -/
inductive SendOp (α : Type*) where
  | waiting (update : α)
  | trying (update : α)
  | holding (update : α)
  | releasing
  | terminal (error : BlpError)
  deriving DecidableEq, Repr

def SendOp.holdsPermit {α : Type*} : SendOp α → Bool
  | .holding _ | .releasing => true
  | _ => false

structure Strict (α : Type*) where
  shared : Shared α Unit
  capacity : ℕ
  permits : ℕ
  slotsClosed : Bool
  senders : List (SendOp α)

namespace Strict

variable {α : Type*}

def new (capacity : ℕ) : Strict α :=
  ⟨.new semaphore, capacity, capacity, false, []⟩

inductive Action (α : Type*) where
  | shared (action : Shared.Action)
  | send (item : Except BlpError α)
  | trySend (item : Except BlpError α)
  | acquire (sender : ℕ)
  | tryAcquire (sender : ℕ)
  | push (sender : ℕ)
  | release (sender : ℕ)
  | sendTerminal (sender : ℕ)
  | cancelSend (sender : ℕ)
  | addPermit

/-- The first look at `accepting`, after which the send goes on as `op`. -/
def begin (s : Strict α) (item : Except BlpError α) (op : SendOp α) : Option (Strict α) :=
  if s.shared.senderCount = 0 then none
  else if s.shared.accepting then some { s with senders := s.senders ++ [op] }
  else some { s with shared := s.shared.reject item }

def finish (s : Strict α) (sender : ℕ) (shared : Shared α Unit) : Strict α :=
  { s with shared := shared, senders := s.senders.eraseIdx sender }

/-- `acquire` is enabled once there is a permit or the semaphore is closed. -/
def acquire (s : Strict α) (sender : ℕ) : Option (Strict α) :=
  match s.senders[sender]? with
  | some (.waiting update) =>
    if s.slotsClosed then some (s.finish sender (s.shared.reject (.ok update)))
    else
      match s.permits with
      | 0 => none
      | n + 1 => some { s with permits := n, senders := s.senders.set sender (.holding update) }
  | _ => none

def tryAcquire (s : Strict α) (sender : ℕ) : Option (Strict α) :=
  match s.senders[sender]? with
  | some (.trying update) =>
    if s.slotsClosed then some (s.finish sender (s.shared.reject (.ok update)))
    else
      match s.permits with
      | 0 =>
        if s.shared.accepting then
          some (s.finish sender { s.shared with sent := s.shared.sent ++ [.full update] })
        else some (s.finish sender (s.shared.reject (.ok update)))
      | n + 1 => some { s with permits := n, senders := s.senders.set sender (.holding update) }
  | _ => none

/-- The section of a send under the lock: the permit is forgotten with the push, or given back
when the lock is free. -/
def push (s : Strict α) (sender : ℕ) : Option (Strict α) :=
  match s.senders[sender]? with
  | some (.holding update) =>
    if s.shared.state.acceptsData then some (s.finish sender (s.shared.pushBack update))
    else
      some
        { s with
          shared := s.shared.reject (.ok update)
          senders := s.senders.set sender .releasing }
  | _ => none

def step (s : Strict α) : Action α → Option (Strict α)
  | .shared .dropSender =>
    -- A send borrows its sender, so the last sender is not dropped while one is running.
    if s.shared.senderCount = 1 ∧ s.senders ≠ [] then none
    else (s.shared.step semaphore .dropSender).map fun shared => { s with shared := shared }
  | .shared .closeSlots =>
    (s.shared.step semaphore .closeSlots).map fun shared =>
      { s with shared := shared, slotsClosed := true }
  | .shared action =>
    (s.shared.step semaphore action).map fun shared => { s with shared := shared }
  | .send (.ok update) => s.begin (.ok update) (.waiting update)
  | .send (.error error) => s.begin (.error error) (.terminal error)
  | .trySend (.ok update) => s.begin (.ok update) (.trying update)
  | .trySend (.error error) => s.begin (.error error) (.terminal error)
  | .acquire sender => s.acquire sender
  | .tryAcquire sender => s.tryAcquire sender
  | .push sender => s.push sender
  | .release sender =>
    match s.senders[sender]? with
    | some .releasing =>
      some { s with permits := s.permits + 1, senders := s.senders.eraseIdx sender }
    | _ => none
  | .sendTerminal sender =>
    match s.senders[sender]? with
    | some (.terminal error) => some (s.finish sender (s.shared.sendTerminal error))
    | _ => none
  | .cancelSend sender =>
    match s.senders[sender]? with
    | some (.waiting _) => some { s with senders := s.senders.eraseIdx sender }
    | _ => none
  | .addPermit =>
    if s.shared.receiver = .returning then
      some
        { s with
          shared := { s.shared with receiver := .idle }
          permits := s.permits + 1 }
    else none

end Strict

end Xbbg.Channel
