import Xbbg.Library.Machine
import Xbbg.Library.Maps
import Xbbg.Model.Feed

/-! The hub of shared subscriptions: the registry of upstream feeds, the consumers attached to
them, and the calls that add topics, take them back, remove them and clean up. What a session
reports runs at any time; everything that changes the registry holds the mutation gate. -/

namespace Xbbg.SharedSubscriptions

open Library
open Feed (Lifecycle)

/-- What a feed is shared by. Isolation zero is shared; every isolated membership gets a unique
nonce. -/
structure FeedKey where
  service : String
  topic : String
  options : List String
  isolation : ℕ
  deriving DecidableEq, Repr

/-- A consumer's entry in a feed. -/
structure ConsumerTopic where
  owner : ℕ
  key : ℕ
  active : Bool
  deriving DecidableEq, Repr

structure Feed where
  identity : FeedKey
  session : ℕ
  lifecycle : Lifecycle
  consumers : List ConsumerTopic
  deriving DecidableEq, Repr

def Feed.isDead (feed : Feed) : Bool :=
  feed.lifecycle == .failed || feed.lifecycle == .closed

structure Membership where
  key : ℕ
  label : String
  topic : String
  session : ℕ
  feed : ℕ
  deriving DecidableEq, Repr

/-! ### The active topics of a consumer -/

structure Status where
  topicToKey : String → Option ℕ
  keyToTopic : ℕ → Option String
  keys : List ℕ
  topics : List String

namespace Status

/-- No topic is active. -/
def empty : Status where
  topicToKey := fun _ => none
  keyToTopic := fun _ => none
  keys := []
  topics := []

def addActive (st : Status) (topic : String) (key : ℕ) : Status where
  topicToKey := Function.update st.topicToKey topic (some key)
  keyToTopic := Function.update st.keyToTopic key (some topic)
  keys := st.keys ++ [key]
  topics := st.topics ++ [topic]

/-- Take a topic with its key out of both maps and both lists. -/
def take (st : Status) (topic : String) (key : ℕ) : Status where
  topicToKey := Function.update st.topicToKey topic none
  keyToTopic := Function.update st.keyToTopic key none
  keys := st.keys.filter (· ≠ key)
  topics := st.topics.filter (· ≠ topic)

def dropTopic (st : Status) (topic : String) : Status :=
  match st.topicToKey topic with
  | none => st
  | some key => st.take topic key

/-- A failure ends the topic of the key. -/
def finalizeKey (st : Status) (key : ℕ) : Status :=
  match st.keyToTopic key with
  | none => st
  | some topic => st.take topic key

def hasActiveTopics (st : Status) : Bool := !st.keys.isEmpty

end Status

/-- `imageDelivery` says that ticks update an image and no queue of rows. `dropped` holds from
the drop of the last handle on. -/
structure Consumer where
  service : String
  options : List String
  isolated : Bool
  imageDelivery : Bool
  memberships : List Membership
  status : Status
  streamClosed : Bool
  closed : Bool
  nextKey : ℕ
  dropped : Bool

def Consumer.new (service : String) (options : List String) (isolated imageDelivery : Bool) :
    Consumer where
  service := service
  options := options
  isolated := isolated
  imageDelivery := imageDelivery
  memberships := []
  status := .empty
  streamClosed := false
  closed := false
  nextKey := 0
  dropped := false

/-! ### Requested topics -/

def aliasLabelConflict (label first second : String) : String :=
  s!"subscription label '{label}' maps to conflicting topics '{first}' and '{second}'"

def aliasTopicConflict (topic previous label : String) : String :=
  s!"subscription topic '{topic}' maps to conflicting labels '{previous}' and '{label}'"

section Aliases

variable (trim : String → String)

/-- The aliases by topic and by label. -/
def collectAliases : List (String × String) → Map String String → Map String String →
    Except String (Map String String × Map String String)
  | [], byTopic, byLabel => .ok (byTopic, byLabel)
  | (topic, label) :: rest, byTopic, byLabel =>
    match byTopic.lookup (trim topic) with
    | some previous =>
      if previous ≠ label then .error (aliasTopicConflict (trim topic) previous label)
      else collectAliases rest byTopic byLabel
    | none =>
      match byLabel.lookup label with
      | some previous =>
        if previous ≠ trim topic then .error (aliasLabelConflict label previous (trim topic))
        else collectAliases rest (byTopic.insert (trim topic) label)
          (byLabel.insert label (trim topic))
      | none => collectAliases rest (byTopic.insert (trim topic) label)
          (byLabel.insert label (trim topic))

/-- The topics with their labels; a label that was seen before is not requested again. -/
def requestTopics (byTopic : Map String String) : List String → Map String String →
    List (String × String) → Except String (List (String × String))
  | [], _, requested => .ok requested
  | topic :: rest, byLabel, requested =>
    let label := (byTopic.lookup (trim topic)).getD (trim topic)
    let requested' :=
      if label ∈ requested.map (·.2) then requested else requested ++ [(trim topic, label)]
    match byLabel.lookup label with
    | some previous =>
      if previous ≠ trim topic then .error (aliasLabelConflict label previous (trim topic))
      else requestTopics byTopic rest (byLabel.insert label (trim topic)) requested'
    | none => requestTopics byTopic rest (byLabel.insert label (trim topic)) requested'

def validateTopicAliases (topics : List String) (aliases : List (String × String)) :
    Except String (List (String × String)) := do
  let (byTopic, byLabel) ← collectAliases trim aliases ∅ ∅
  requestTopics trim byTopic topics byLabel []

end Aliases

/-- A label that has a membership keeps its topic. -/
def validateExistingLabels (consumer : Consumer) (requested : List (String × String)) :
    Except String Unit :=
  requested.forM fun (topic, label) =>
    match consumer.memberships.reverse.find? fun member => member.label = label with
    | some existing =>
      if existing.topic ≠ topic then .error (aliasLabelConflict label existing.topic topic)
      else .ok ()
    | none => .ok ()

/-! ### The hub -/

structure Planned where
  label : String
  identity : FeedKey
  key : ℕ
  deriving DecidableEq, Repr

/-- Where a call that adds topics is, between two critical sections: at the top of its loop, with
the feed of the topic found or created, with the membership pushed, with the consumer entered
into the feed, or at the upstream subscription of the created feeds. -/
inductive Phase where
  | lookup
  | join (planned : Planned) (feed : ℕ) (created : Bool)
  | enter (planned : Planned) (feed : ℕ) (created : Bool)
  | settle (feed : ℕ) (created growth : Bool)
  | subscribing
  deriving DecidableEq, Repr

/-- A call after planning. `created` is history: the feeds that it put into the registry. -/
structure Call where
  consumer : ℕ
  planned : List Planned
  session : Option ℕ
  rest : List Planned
  phase : Phase
  creations : List ℕ
  created : List ℕ
  deriving DecidableEq, Repr

def Call.labels (call : Call) : List String := call.planned.map (·.label)

def Call.keys (call : Call) : List ℕ := call.planned.map (·.key)

/-- The pieces of work that the holder of the gate does one after the other. -/
inductive Work where
  | detach (consumer : ℕ) (member : Membership)
  | sweep (feed : ℕ)
  | dropTopics (consumer : ℕ) (labels : List String)
  | clearActive (consumer : ℕ)
  | closeStream (consumer : ℕ)
  deriving DecidableEq, Repr

/-- Who holds the mutation gate. The work of a rollback remembers the call that it undoes. -/
inductive Gate where
  | free
  | adding (call : Call)
  | working (work : List Work) (undone : Option Call)
  deriving DecidableEq, Repr

/-- The consumer that a call keeps alive. -/
def Gate.holder : Gate → Option ℕ
  | .adding call => some call.consumer
  | .working _ (some call) => some call.consumer
  | _ => none

/-- `departures` are the memberships of dropped consumers that wait for the gate, and `patches`
the failures that a status report has collected and not yet published. The last three fields are
history: the feeds whose retirement took effect, the keys whose topic was ended by the feed that
holds its entry, and the consumers all of whose topics were cleared at once. -/
structure Hub where
  registry : Map FeedKey ℕ
  feeds : ℕ → Feed
  consumers : ℕ → Consumer
  liveFeeds : ℕ → ℕ
  nextFeed : ℕ
  nextConsumer : ℕ
  shutdown : Bool
  gate : Gate
  departures : List (ℕ × List Membership)
  patches : List (ℕ × ℕ)
  retired : List ℕ
  ended : List (ℕ × ℕ)
  lost : List ℕ

namespace Hub

def new : Hub where
  registry := ∅
  feeds := fun _ => ⟨⟨"", "", [], 0⟩, 0, .pending, []⟩
  consumers := fun _ => .new "" [] false false
  liveFeeds := fun _ => 0
  nextFeed := 1
  nextConsumer := 1
  shutdown := false
  gate := .free
  departures := []
  patches := []
  retired := []
  ended := []
  lost := []

def modifyConsumer (s : Hub) (c : ℕ) (f : Consumer → Consumer) : Hub :=
  { s with consumers := Function.update s.consumers c (f (s.consumers c)) }

def modifyFeed (s : Hub) (f : ℕ) (g : Feed → Feed) : Hub :=
  { s with feeds := Function.update s.feeds f (g (s.feeds f)) }

/-! ### Ending topics -/

/-- All topics of the consumer end at once. -/
def clearActive (s : Hub) (c : ℕ) : Hub :=
  modifyConsumer { s with lost := c :: s.lost } c fun consumer =>
    { consumer with status := .empty }

def closeStream (s : Hub) (c : ℕ) : Hub :=
  s.modifyConsumer c fun consumer => { consumer with streamClosed := true }

/-- Publish the failure of a key; the stream fails with the last active topic. -/
def publishFailure (s : Hub) (c key : ℕ) : Hub :=
  s.modifyConsumer c fun consumer =>
    let status := consumer.status.finalizeKey key
    { consumer with
      status := status
      streamClosed := consumer.streamClosed || !status.hasActiveTopics }

def endKey (s : Hub) (c key : ℕ) : Hub :=
  { s with ended := (c, key) :: s.ended }

def failTopic (s : Hub) (c key : ℕ) : Hub :=
  (s.endKey c key).publishFailure c key

/-- What an event of a feed does to one of its entries: nothing, stop its delivery, fail its
topic, end its consumer's whole stream, or collect its failure to be published later. -/
inductive Effect where
  | skip
  | deactivate
  | failTopic
  | endStream
  | patch
  deriving DecidableEq, Repr

def applyEffect (s : Hub) (topic : ConsumerTopic) : Effect → Hub × ConsumerTopic
  | .skip => (s, topic)
  | .deactivate => (s, { topic with active := false })
  | .failTopic => (s.failTopic topic.owner topic.key, { topic with active := false })
  | .endStream => ((s.clearActive topic.owner).closeStream topic.owner,
      { topic with active := false })
  | .patch => ({ s.endKey topic.owner topic.key with
      patches := s.patches ++ [(topic.owner, topic.key)] }, { topic with active := false })

/-- Go through the entries in order, each in the state that the earlier ones left. -/
def visitTopics (effect : Hub → ConsumerTopic → Effect) : Hub → List ConsumerTopic →
    Hub × List ConsumerTopic
  | s, [] => (s, [])
  | s, topic :: rest =>
    let (s, topic) := s.applyEffect topic (effect s topic)
    let (s, rest) := visitTopics effect s rest
    (s, topic :: rest)

def visitFeed (s : Hub) (f : ℕ) (lifecycle : Lifecycle)
    (effect : Hub → ConsumerTopic → Effect) : Hub :=
  let visited := visitTopics effect s (s.feeds f).consumers
  visited.1.modifyFeed f fun feed =>
    { feed with lifecycle := lifecycle, consumers := visited.2 }

def isDropped (s : Hub) (c : ℕ) : Bool := (s.consumers c).dropped

def onError (s : Hub) (f : ℕ) : Hub :=
  if (s.feeds f).isDead then s
  else
    s.visitFeed f .failed fun s topic =>
      if s.isDropped topic.owner then .skip
      else if (s.consumers topic.owner).streamClosed then .deactivate
      else .failTopic

/-- The entry still delivers to an open consumer. -/
def delivers (s : Hub) (topic : ConsumerTopic) : Bool :=
  topic.active && !(s.consumers topic.owner).closed && !(s.consumers topic.owner).streamClosed

/-- A lost update ends the streams of rows; a feed with a consumer of images recovers. The loop
never closes the stream of a consumer of images, so these can be looked for before it. -/
def onDataLoss (s : Hub) (f : ℕ) : Hub :=
  if (s.feeds f).isDead then s
  else
    let imageConsumer := (s.feeds f).consumers.any fun topic =>
      !s.isDropped topic.owner && s.delivers topic && (s.consumers topic.owner).imageDelivery
    s.visitFeed f (if imageConsumer then .pending else .failed) fun s topic =>
      if s.isDropped topic.owner then .skip
      else if !s.delivers topic then .deactivate
      else if (s.consumers topic.owner).imageDelivery then .skip
      else .endStream

/-! ### The registry -/

/-- Take a feed out of the registry, if the registry still holds this very feed. -/
def retire (s : Hub) (f : ℕ) : Hub :=
  let feed := s.feeds f
  if s.registry.lookup feed.identity = some f then
    { s.modifyFeed f fun feed => { feed with lifecycle := .closed } with
      registry := s.registry.erase feed.identity
      liveFeeds := Function.update s.liveFeeds feed.session (s.liveFeeds feed.session - 1)
      retired := f :: s.retired }
  else s

/-- The entries of a feed that a detached membership leaves. -/
def detached (s : Hub) (c : ℕ) (member : Membership) : List ConsumerTopic :=
  (s.feeds member.feed).consumers.filter fun topic =>
    !(topic.key == member.key && (s.isDropped topic.owner || topic.owner == c))

def detach (s : Hub) (c : ℕ) (member : Membership) : Hub :=
  let topics := s.detached c member
  let s := s.modifyFeed member.feed fun feed => { feed with consumers := topics }
  if topics.isEmpty then s.retire member.feed else s

/-- The entry survives a cleanup of its feed. -/
def survives (s : Hub) (feed : Feed) (topic : ConsumerTopic) : Bool :=
  !s.isDropped topic.owner && (feed.lifecycle != .failed && s.delivers topic)

/-- One feed of a cleanup: entries that deliver no more go, and an empty feed retires. -/
def sweep (s : Hub) (f : ℕ) : Hub :=
  let feed := s.feeds f
  let gone := feed.consumers.filter fun topic =>
    !s.survives feed topic && !s.isDropped topic.owner && (s.consumers topic.owner).streamClosed
  let topics := feed.consumers.filter (s.survives feed)
  let s := (gone.map (·.owner)).foldl clearActive s
  let s := s.modifyFeed f fun feed => { feed with consumers := topics }
  if topics.isEmpty then s.retire f else s

def doWork (s : Hub) : Work → Hub
  | .detach c member => s.detach c member
  | .sweep f => s.sweep f
  | .dropTopics c labels => s.modifyConsumer c fun consumer =>
      { consumer with status := labels.foldl Status.dropTopic consumer.status }
  | .clearActive c => s.clearActive c
  | .closeStream c => s.closeStream c

/-- Take the memberships with these labels from the consumer; what is left to do for them. -/
def takeMembers (s : Hub) (c : ℕ) (labels : List String) : Hub × List Work :=
  let removed := (s.consumers c).memberships.filter fun member => labels.contains member.label
  (s.modifyConsumer c fun consumer =>
    { consumer with
      memberships := consumer.memberships.filter fun member => !labels.contains member.label },
    removed.map (Work.detach c) ++ [.dropTopics c labels])

/-- A call that did not commit takes everything back, also when its future is dropped. -/
def rollback (s : Hub) (call : Call) : Hub :=
  let (s, work) := s.takeMembers call.consumer call.labels
  { s with gate := .working work (some call) }

/-! ### Adding topics -/

def mktdata : String := "//blp/mktdata"

/-- The feeds of the requested topics, with a nonce for each isolated one. -/
def feedKeys (consumer : Consumer) : ℕ → List (String × String) → List FeedKey × ℕ
  | next, [] => ([], next)
  | next, (topic, _) :: rest =>
    let isolated := consumer.isolated || consumer.service != mktdata
    let (keys, last) := feedKeys consumer (if isolated then next + 1 else next) rest
    (⟨consumer.service, topic, consumer.options, if isolated then next else 0⟩ :: keys, last)

/-- Number the topics of a call, from the consumer's next key on. -/
def planTopics : ℕ → List (String × String) → List FeedKey → List Planned
  | next, (_, label) :: requested, identity :: keys =>
    ⟨label, identity, next⟩ :: planTopics (next + 1) requested keys
  | _, _, _ => []

/-- Reserve every sibling before the first topic can be rejected. -/
def reserve (planned : List Planned) (consumer : Consumer) : Consumer :=
  { consumer with
    nextKey := consumer.nextKey + planned.length
    status := planned.foldl (fun status p => status.addActive p.label p.key) consumer.status }

/-- Plan a call under the gate: end feeds that are over, number the topics, and reserve all of
them in the consumer's status. A call that adds nothing or is refused changes nothing, and one
that needs a session which it does not have waits for it without the gate. -/
def plan (trim : String → String) (s : Hub) (c : ℕ) (topics : List String)
    (aliases : List (String × String)) (session : Option ℕ) : Option Hub :=
  let consumer := s.consumers c
  if s.gate ≠ .free || s.shutdown || s.nextConsumer ≤ c || consumer.dropped || consumer.closed ||
      consumer.streamClosed then none
  else
    match validateTopicAliases trim topics aliases with
    | .error _ => none
    | .ok requested =>
      if (validateExistingLabels consumer requested).toOption.isNone then none
      else
        let requested := requested.filter fun r => (consumer.status.topicToKey r.2).isNone
        let (keys, nextFeed) := feedKeys consumer s.nextFeed requested
        let finished := (keys.filterMap s.registry.lookup).filter fun f => (s.feeds f).isDead
        let missing := !finished.isEmpty || keys.any fun key => (s.registry.lookup key).isNone
        if requested.isEmpty || (missing && session.isNone) then none
        else
          let planned := planTopics consumer.nextKey requested keys
          let s := finished.foldl retire { s with nextFeed := nextFeed }
          some { s.modifyConsumer c (reserve planned) with
            gate := .adding ⟨c, planned, session, planned, .lookup, [], []⟩ }

/-- Put a new feed into the registry. -/
def createFeed (s : Hub) (identity : FeedKey) (session : ℕ) : Hub :=
  { s with
    registry := s.registry.insert identity s.nextFeed
    feeds := Function.update s.feeds s.nextFeed ⟨identity, session, .pending, []⟩
    liveFeeds := Function.update s.liveFeeds session (s.liveFeeds session + 1)
    nextFeed := s.nextFeed + 1 }

/-- The top of the loop: find or create the feed of the next topic. After the last one, the
created feeds are subscribed; without any, the call has committed. -/
def lookupFeed (s : Hub) (call : Call) : Option Hub :=
  match call.rest with
  | [] =>
    if call.creations.isEmpty then some { s with gate := .free }
    else some { s with gate := .adding { call with phase := .subscribing } }
  | p :: rest =>
    match s.registry.lookup p.identity with
    | some f => some { s with gate := .adding { call with rest := rest, phase := .join p f false } }
    | none =>
      call.session.map fun session =>
        { s.createFeed p.identity session with
          gate := .adding { call with
            rest := rest
            phase := .join p s.nextFeed true
            created := s.nextFeed :: call.created } }

/-- Push the membership. -/
def join (s : Hub) (call : Call) (p : Planned) (f : ℕ) (created : Bool) : Hub :=
  let feed := s.feeds f
  { s.modifyConsumer call.consumer fun consumer =>
      { consumer with
        memberships := consumer.memberships ++
          [⟨p.key, p.label, feed.identity.topic, feed.session, f⟩] } with
    gate := .adding { call with phase := .enter p f created } }

/-- Enter the consumer into the feed, unless the feed has ended meanwhile. `allowed` is what the
policies on delayed data and field errors say; a topic that they refuse fails at once. -/
def enter (s : Hub) (call : Call) (p : Planned) (f : ℕ) (created allowed growth : Bool) : Hub :=
  if (s.feeds f).isDead then s.rollback call
  else
    let s := if allowed then s else s.failTopic call.consumer p.key
    { s.modifyFeed f fun feed =>
        { feed with consumers := feed.consumers ++ [⟨call.consumer, p.key, allowed⟩] } with
      gate := .adding { call with phase := .settle f created growth } }

/-- How the next section of a call goes. `refuse` is an error of the feed's session before the
membership is pushed, and `cancel` the drop of the call's future at its only wait. -/
inductive CallAction where
  | lookup
  | refuse
  | join
  | enter (allowed growth : Bool)
  | settle
  | resubscribeFailed
  | subscribed
  | subscribeFailed
  | cancel
  deriving DecidableEq, Repr

def stepCall (s : Hub) (call : Call) (a : CallAction) : Option Hub :=
  match call.phase, a with
  | .lookup, .lookup => s.lookupFeed call
  | .join _ _ false, .refuse => some (s.rollback call)
  | .join p f created, .join => some (s.join call p f created)
  | .enter p f created, .enter allowed growth => some (s.enter call p f created allowed growth)
  | .settle f created _, .settle => some { s with gate := .adding { call with
      phase := .lookup
      creations := if created then call.creations ++ [f] else call.creations } }
  | .settle f false true, .resubscribeFailed => some ((s.onError f).rollback call)
  | .subscribing, .subscribed => some { s with gate := .free }
  | .subscribing, .subscribeFailed => some ((call.creations.foldl onError s).rollback call)
  | .subscribing, .cancel => some (s.rollback call)
  | _, _ => none

/-! ### The other holders of the gate -/

inductive Task where
  | remove (consumer : ℕ) (labels : List String)
  | unsubscribe (consumer : ℕ)
  | depart (index : ℕ)
  | cleanup
  deriving DecidableEq, Repr

def stepTask (s : Hub) : Task → Option Hub
  | .remove c labels =>
    let (s, work) := s.takeMembers c labels
    some { s with gate := .working work none }
  | .unsubscribe c =>
    let consumer := s.consumers c
    some { s.modifyConsumer c fun consumer =>
        { consumer with closed := true, memberships := [] } with
      gate := .working (consumer.memberships.map (Work.detach c) ++ [.clearActive c] ++
        if consumer.imageDelivery then [.closeStream c] else []) none }
  | .depart index =>
    s.departures[index]?.map fun (c, members) =>
      { s with
        departures := s.departures.eraseIdx index
        gate := .working (members.map (Work.detach c)) none }
  | .cleanup =>
    some { s with gate := .working (s.registry.entries.map fun entry => .sweep entry.2) none }

/-! ### What happens without the gate -/

/-- `feed` is any other report to a feed: an update, a field error, a status. It sets a lifecycle
and does something to each entry. -/
inductive Event where
  | feed (feed : ℕ) (lifecycle : Lifecycle) (effect : ConsumerTopic → Effect)
  | error (feed : ℕ)
  | dataLoss (feed : ℕ)
  | publish (index : ℕ)
  | closeStream (consumer : ℕ)
  | dropConsumer (consumer : ℕ)
  | newConsumer (service : String) (options : List String) (isolated imageDelivery : Bool)
  | shutdown

/-- A feed that is over stays over, and only its retirement closes it. -/
def allowsLifecycle (feed : Feed) (lifecycle : Lifecycle) : Bool :=
  lifecycle == feed.lifecycle || lifecycle == .failed || (!feed.isDead && lifecycle != .closed)

def stepEvent (s : Hub) : Event → Option Hub
  | .feed f lifecycle effect =>
    if allowsLifecycle (s.feeds f) lifecycle then
      some (s.visitFeed f lifecycle fun s topic =>
        if s.isDropped topic.owner then .skip else effect topic)
    else none
  | .error f => some (s.onError f)
  | .dataLoss f => some (s.onDataLoss f)
  | .publish index =>
    s.patches[index]?.map fun (c, key) =>
      let s := { s with patches := s.patches.eraseIdx index }
      if (s.consumers c).streamClosed then s else s.publishFailure c key
  | .closeStream c => some (s.closeStream c)
  | .dropConsumer c =>
    if s.gate.holder = some c || s.nextConsumer ≤ c || s.isDropped c then none
    else
      let departures := s.departures ++ [(c, (s.consumers c).memberships)]
      some (modifyConsumer { s with departures := departures } c fun consumer =>
        { consumer with closed := true, dropped := true, memberships := [] })
  | .newConsumer service options isolated imageDelivery =>
    some { s with
      consumers := Function.update s.consumers s.nextConsumer
        (.new service options isolated imageDelivery)
      nextConsumer := s.nextConsumer + 1 }
  | .shutdown =>
    some { (List.range s.nextConsumer).foldl (fun s c => (s.clearActive c).closeStream c) s with
      shutdown := true }

inductive Action where
  | plan (consumer : ℕ) (topics : List String) (aliases : List (String × String))
      (session : Option ℕ)
  | call (a : CallAction)
  | task (task : Task)
  | work
  | event (event : Event)

def step (trim : String → String) (s : Hub) : Action → Option Hub
  | .plan c topics aliases session => s.plan trim c topics aliases session
  | .call a =>
    match s.gate with
    | .adding call => s.stepCall call a
    | _ => none
  | .task task =>
    match s.gate with
    | .free => s.stepTask task
    | _ => none
  | .work =>
    match s.gate with
    | .working [] _ => some { s with gate := .free }
    | .working (work :: rest) undone =>
      some { s.doWork work with gate := .working rest undone }
    | _ => none
  | .event event => s.stepEvent event

end Hub

end Xbbg.SharedSubscriptions
