import Xbbg.Library.Slab
import Xbbg.Model.Types
import Mathlib.Data.Finset.Basic

/-! The slab of one subscription session, from `engine/subscription_pool.rs`, and the feeds
of `engine/shared_subscriptions.rs` that register in it and retire from it. -/

namespace Xbbg.SubscriptionWorker

open Library

/-- One upstream subscription. `feed` identifies the feed behind its callback stream. -/
structure SubscriptionState where
  feed : ℕ
  topic : String
  closing : Bool
  deriving DecidableEq, Repr

structure FeedRegistration where
  feed : ℕ
  topic : String
  streamClosed : Bool
  deriving DecidableEq, Repr

structure SubscriptionWorkerState where
  subs : Slab SubscriptionState
  pendingCancel : Finset ℕ

/-- The two status messages that end a subscription. -/
inductive EndedBy where
  | failure
  | terminated
  deriving DecidableEq, Repr

inductive StatusMutation where
  | unsubscribed (key : ℕ) (messageType : String) (reason : Option String)
  | failed (key : ℕ) (fallbackTopic reason : String) (kind : EndedBy) (messageType : String)
  deriving DecidableEq, Repr

namespace EndedBy

def messageType : EndedBy → String
  | failure => "SubscriptionFailure"
  | terminated => "SubscriptionTerminated"

/-- Recorded when the message confirms a cancellation. -/
def cancelledMessageType : EndedBy → String
  | failure => "SubscriptionCancelled"
  | terminated => "SubscriptionTerminated"

def defaultReason : EndedBy → String
  | failure => "subscription failed"
  | terminated => "subscription terminated"

end EndedBy

namespace SubscriptionWorkerState

def new : SubscriptionWorkerState :=
  ⟨Slab.empty, ∅⟩

def markClosing (state : SubscriptionState) : SubscriptionState :=
  { state with closing := true }

/-- The registration loop. `subListAdd` is the SDK's answer for a topic; its first error
removes what the loop has inserted. -/
def registerLoop (subListAdd : String → Option BlpError) :
    SubscriptionWorkerState → List FeedRegistration → List ℕ →
      Except BlpError (List ℕ) × SubscriptionWorkerState
  | w, [], keys => (.ok keys, w)
  | w, entry :: rest, keys =>
    let key := w.subs.vacantKey
    let subs := w.subs.insert ⟨entry.feed, entry.topic, false⟩
    match subListAdd entry.topic with
    | some error =>
      (.error error, { w with subs := keys.foldl Slab.remove (subs.remove key) })
    | none => registerLoop subListAdd { w with subs := subs } rest (keys ++ [key])

def registerSubscriptions (w : SubscriptionWorkerState) (registrations : List FeedRegistration)
    (subListAdd : String → Option BlpError) :
    Except BlpError (List ℕ) × SubscriptionWorkerState :=
  if registrations.any (·.streamClosed) then
    (.error (.subscriptionFailure (some "cannot subscribe with a terminal subscription stream")), w)
  else
    match registerLoop subListAdd w registrations [] with
    | (.ok [], w') =>
      (.error (.subscriptionFailure (some "failed to build any subscription entries")), w')
    | result => result

/-- `register_subscriptions` starts once no cancellation of one of its topics is pending. -/
def awaitsCancellation (w : SubscriptionWorkerState) (registrations : List FeedRegistration) :
    Prop :=
  ∃ key ∈ w.pendingCancel, ∃ sub ∈ w.subs.get? key, ∃ entry ∈ registrations, entry.topic = sub.topic

instance (w : SubscriptionWorkerState) (registrations : List FeedRegistration) :
    Decidable (w.awaitsCancellation registrations) :=
  inferInstanceAs (Decidable (∃ key ∈ w.pendingCancel, ∃ sub ∈ w.subs.get? key,
    ∃ entry ∈ registrations, entry.topic = sub.topic))

def cleanupFailedSubscribe (w : SubscriptionWorkerState) (keys : List ℕ) :
    SubscriptionWorkerState :=
  { subs := keys.foldl Slab.remove w.subs
    pendingCancel := keys.foldl Finset.erase w.pendingCancel }

/-- The keys that an unsubscribe list takes up: occupied and not being cancelled already. -/
def cancellable (w : SubscriptionWorkerState) (keys : List ℕ) : List ℕ :=
  keys.filter fun key => w.subs.contains key && key ∉ w.pendingCancel

/-- Close the listed subscriptions and mark those the SDK list accepts as pending. The
keys returned are the ones cancelled upstream. -/
def buildUnsubscribeList (w : SubscriptionWorkerState) (keys : List ℕ)
    (unsubListAdd : ℕ → Bool) : List ℕ × SubscriptionWorkerState :=
  let closing := w.cancellable keys
  let pendingKeys := closing.filter unsubListAdd
  (pendingKeys,
    { subs := closing.foldl (fun subs key => subs.modify key markClosing) w.subs
      pendingCancel := w.pendingCancel ∪ pendingKeys.toFinset })

/-- The two arms of `collect_subscription_status` that end a subscription. -/
def collectSubscriptionStatus (w : SubscriptionWorkerState) (kind : EndedBy) (key : ℕ)
    (reason : Option String) : Option StatusMutation × SubscriptionWorkerState :=
  let ended : SubscriptionWorkerState :=
    { subs := w.subs.remove key, pendingCancel := w.pendingCancel.erase key }
  match w.subs.get? key with
  | none => (none, ended)
  | some state =>
    if key ∈ w.pendingCancel then
      (some (.unsubscribed key kind.cancelledMessageType reason), ended)
    else
      (some (.failed key state.topic (reason.getD kind.defaultReason) kind kind.messageType), ended)

def drainForShutdown (w : SubscriptionWorkerState) : SubscriptionWorkerState :=
  { subs := w.subs.keys.foldl Slab.remove w.subs
    pendingCancel := ∅ }

end SubscriptionWorkerState

structure FeedKey where
  service : String
  topic : String
  options : List String
  isolation : ℕ
  deriving DecidableEq, Repr

structure Feed where
  id : ℕ
  identity : FeedKey
  deriving DecidableEq, Repr

/-- The feeds of one session. `upstreamKey` is `none` where the source stores `usize::MAX`.
`creations` are the feeds of the running `add_validated` call that still have to subscribe
and `storing` the keys that it still has to store; both are empty when nobody holds the
mutations gate for an addition. -/
structure Hub where
  worker : SubscriptionWorkerState
  shutdown : Bool
  registry : FeedKey → Option ℕ
  upstreamKey : ℕ → Option ℕ
  nextFeed : ℕ
  creations : List Feed
  storing : List (ℕ × ℕ)

namespace Hub

def new : Hub :=
  ⟨.new, false, fun _ => none, fun _ => none, 0, [], []⟩

def Registered (h : Hub) (feed : Feed) : Prop :=
  h.registry feed.identity = some feed.id

instance (h : Hub) (feed : Feed) : Decidable (h.Registered feed) :=
  inferInstanceAs (Decidable (h.registry feed.identity = some feed.id))

def registrations (h : Hub) (streamClosed : ℕ → Bool) : List FeedRegistration :=
  h.creations.map fun feed => ⟨feed.id, feed.identity.topic, streamClosed feed.id⟩

/-- `FeedSession::unsubscribe`, an error once the session is shut down. -/
def unsubscribe (h : Hub) (key : ℕ) (unsubListAdd : ℕ → Bool) : List ℕ × Hub :=
  if h.shutdown then ([], h)
  else
    let (cancelled, worker) := h.worker.buildUnsubscribeList [key] unsubListAdd
    (cancelled, { h with worker := worker })

/-- `SharedSubscriptions::retire` with the keys that it cancels upstream. -/
def retire (h : Hub) (feed : Feed) (unsubListAdd : ℕ → Bool) : List ℕ × Hub :=
  if h.Registered feed then
    let removed := { h with registry := Function.update h.registry feed.identity none }
    match h.upstreamKey feed.id with
    | none => ([], removed)
    | some key => removed.unsubscribe key unsubListAdd
  else ([], h)

inductive Action where
  | create (identity : FeedKey)
  | register (streamClosed : ℕ → Bool) (subListAdd : String → Option BlpError)
  | subscribeFailed
  | sdkRejected
  | store
  | status (kind : EndedBy) (key : ℕ) (reason : Option String)
  | retire (feed : Feed) (unsubListAdd : ℕ → Bool)
  | shutdown

/-- `create`, `register`, `subscribeFailed`, `sdkRejected` and `store` are the parts of
`add_validated`. The others come from SDK callbacks and from detaching consumers. -/
def step (h : Hub) : Action → Option Hub
  | .create identity =>
    if h.storing = [] ∧ h.registry identity = none then
      some
        { h with
          registry := Function.update h.registry identity (some h.nextFeed)
          nextFeed := h.nextFeed + 1
          creations := h.creations ++ [⟨h.nextFeed, identity⟩] }
    else none
  | .register streamClosed subListAdd =>
    if h.shutdown ∨ h.storing ≠ [] ∨
        h.worker.awaitsCancellation (h.registrations streamClosed) then none
    else
      match h.worker.registerSubscriptions (h.registrations streamClosed) subListAdd with
      | (.ok keys, worker) =>
        some
          { h with
            worker := worker
            creations := []
            storing := (h.creations.map (·.id)).zip keys }
      | (.error _, worker) => some { h with worker := worker, creations := [] }
  | .subscribeFailed => some { h with creations := [] }
  | .sdkRejected =>
    if h.storing = [] then none
    else
      some
        { h with
          worker := (h.worker.cleanupFailedSubscribe (h.storing.map (·.2))).drainForShutdown
          shutdown := true
          storing := [] }
  | .store =>
    match h.storing with
    | [] => none
    | (feed, key) :: rest =>
      some
        { h with
          upstreamKey := Function.update h.upstreamKey feed (some key)
          storing := rest }
  | .status kind key reason =>
    some { h with worker := (h.worker.collectSubscriptionStatus kind key reason).2 }
  | .retire feed unsubListAdd => some (h.retire feed unsubListAdd).2
  | .shutdown => some { h with worker := h.worker.drainForShutdown, shutdown := true }

end Hub

end Xbbg.SubscriptionWorker
