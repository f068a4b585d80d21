import Xbbg.Model.Types
import Mathlib.Algebra.Group.Nat.Defs
import Mathlib.Data.List.Sort

/-! A shared feed, from `engine/shared_subscriptions.rs`: its last-value image, what it projects
to its consumers, and its recovery after a data loss. Every definition on `FeedState` is one
critical section of the feed's lock. Names stand for the field kinds of a projection, which
only type the columns of its consumer; statuses, events and metrics are left out. -/

namespace Xbbg

/-- The derived comparison, which compares floating-point numbers as numbers. -/
def UpdateValue.eq : UpdateValue → UpdateValue → Bool
  | .f64 left, .f64 right => left.eq right
  | left, right => left == right

/-- The same value, where every NaN is the same. -/
def UpdateValue.same (previous value : UpdateValue) : Bool :=
  previous.eq value ||
    match previous, value with
    | .f64 left, .f64 right => left.isNan && right.isNan
    | _, _ => false

/-- The entries of a delta under the names of its layout. -/
def SubscriptionUpdate.named (update : SubscriptionUpdate) : List (String × UpdateValue) :=
  update.values.filterMap fun field =>
    (update.layout.fields[field.index]?).map fun info => (info.name, field.value)

/-- The fields that a delta has an entry for. -/
def SubscriptionUpdate.carried (update : SubscriptionUpdate) : List String :=
  update.named.map Prod.fst

namespace Feed

def eventType : String := "MKTDATA_EVENT_TYPE"

def eventSubtype : String := "MKTDATA_EVENT_SUBTYPE"

def isDelayedStream : String := "IS_DELAYED_STREAM"

def isMetadata (field : String) : Bool :=
  field == eventType || field == eventSubtype

/-- The positions of the metadata in a layout. -/
structure MetadataSlots where
  eventType : Option ℕ
  eventSubtype : Option ℕ
  delayedStream : Option ℕ

namespace MetadataSlots

def resolve (layout : FieldLayout) : MetadataSlots :=
  let position := fun name => layout.fields.findIdx? (·.name == name)
  ⟨position Feed.eventType, position Feed.eventSubtype, position Feed.isDelayedStream⟩

/-- The first event subtype and the first delayed flag of a delta. -/
def scan (slots : MetadataSlots) (update : SubscriptionUpdate) : Option String × Option Bool :=
  (update.values.findSome? fun field =>
    match field.value with
    | .str value => if slots.eventSubtype = some field.index then some value else none
    | _ => none,
  update.values.findSome? fun field =>
    match field.value with
    | .bool value => if slots.delayedStream = some field.index then some value else none
    | _ => none)

def isMetadata (slots : MetadataSlots) (index : ℕ) : Bool :=
  slots.eventType == some index || slots.eventSubtype == some index

end MetadataSlots

def isInitpaint (update : SubscriptionUpdate) : Bool :=
  ((MetadataSlots.resolve update.layout).scan update).1 == some "INITPAINT"

/-- What a consumer selects from the feed: requested fields, the event metadata and, with
`captureAllFields`, everything that it has seen. -/
structure Projection where
  fieldStrings : List String
  captureAllFields : Bool
  deriving DecidableEq, Repr

/-- A projected delta. `names` are the fields of the consumer's layout. -/
structure Delta where
  timestampUs : ℤ
  names : List String
  values : List UpdateField
  deriving DecidableEq, Repr

def Delta.named (delta : Delta) : List (String × UpdateValue) :=
  delta.values.filterMap fun field =>
    (delta.names[field.index]?).map fun name => (name, field.value)

inductive MessageOutcome where
  | normal
  | dataLoss
  | closed
  deriving DecidableEq, Repr

def pushFieldIfNew (names : List String) (name : String) : List String :=
  if name ∈ names then names else names ++ [name]

theorem pushFieldIfNew_foldl (names fs : List String) : names <+: fs.foldl pushFieldIfNew names ∧
      (names.Nodup → (fs.foldl pushFieldIfNew names).Nodup) ∧
      ∀ field ∈ fs, field ∈ fs.foldl pushFieldIfNew names := by
  induction fs generalizing names with
  | nil => exact ⟨List.prefix_rfl, id, by simp⟩
  | cons field rest ih =>
    obtain ⟨he, hn, hm⟩ := ih (pushFieldIfNew names field)
    have hp : names <+: pushFieldIfNew names field ∧ field ∈ pushFieldIfNew names field ∧
        (names.Nodup → (pushFieldIfNew names field).Nodup) := by
      unfold pushFieldIfNew
      split
      · exact ⟨List.prefix_rfl, by assumption, id⟩
      · rename_i hne
        refine ⟨List.prefix_append _ _, by simp, fun h => ?_⟩
        simpa [List.nodup_append] using ⟨h, fun a ha heq => hne (heq ▸ ha)⟩
    rw [List.foldl_cons]
    refine ⟨hp.1.trans he, fun h => hn (hp.2.2 h), fun f hf => ?_⟩
    rcases List.mem_cons.mp hf with rfl | hf
    · exact he.subset hp.2.1
    · exact hm f hf

/-- The names that the decoder of a feed has pushed. -/
structure Decoder where
  names : List String
  nodup : names.Nodup

def Decoder.push (decoder : Decoder) (fields : List String) : Decoder :=
  ⟨fields.foldl pushFieldIfNew decoder.names,
    (pushFieldIfNew_foldl decoder.names fields).2.1 decoder.nodup⟩

namespace Projection

def new (fields : List String) (captureAllFields : Bool) : Projection :=
  ⟨(fields ++ [eventType, eventSubtype]).foldl pushFieldIfNew [], captureAllFields⟩

def addFields (projection : Projection) (fields : List String) : Projection :=
  { projection with fieldStrings := fields.foldl pushFieldIfNew projection.fieldStrings }

/-- `visit_projected_values`: known fields get the consumer's index, and unknown ones are skipped
or, with `captureAllFields`, appended. -/
def visitProjectedValues (projection : Projection) (layout : FieldLayout) :
    List UpdateField → Projection × List UpdateField
  | [] => (projection, [])
  | field :: rest =>
    match layout.fields[field.index]? with
    | none => projection.visitProjectedValues layout rest
    | some info =>
      match projection.fieldStrings.idxOf? info.name with
      | some idx =>
        let (last, values) := projection.visitProjectedValues layout rest
        (last, ⟨idx, field.value⟩ :: values)
      | none =>
        if projection.captureAllFields then
          let appended :=
            { projection with fieldStrings := projection.fieldStrings ++ [info.name] }
          let (last, values) := appended.visitProjectedValues layout rest
          (last, ⟨projection.fieldStrings.length, field.value⟩ :: values)
        else projection.visitProjectedValues layout rest

/-- Filtered consumers get their fields in the order in which they requested them. -/
def projectImage (projection : Projection) (source : SubscriptionUpdate) : Projection × Delta :=
  let (last, values) := projection.visitProjectedValues source.layout source.values
  (last,
    { timestampUs := source.timestampUs
      names := last.fieldStrings
      values :=
        if projection.captureAllFields then values
        else values.insertionSort fun left right => left.index ≤ right.index })

def isEventMetadata (projection : Projection) (index : ℕ) : Bool :=
  projection.fieldStrings.idxOf? eventType == some index ||
    projection.fieldStrings.idxOf? eventSubtype == some index

def isDatalossUpdate (projection : Projection) (values : List UpdateField) : Bool :=
  let flags := values.foldl (fun (flags : Bool × Bool) field =>
      if projection.fieldStrings.idxOf? eventType = some field.index then
        (field.value == .str "SUMMARY", flags.2)
      else if projection.fieldStrings.idxOf? eventSubtype = some field.index then
        (flags.1, field.value == .str "DATALOSS")
      else flags)
    (false, false)
  flags.1 && flags.2

/-- Project one delta and put it into the consumer's queue, which may be closed or full. -/
def projectUpdate (projection : Projection) (isOpen accepts : Bool) (source : SubscriptionUpdate)
    (suppressEmpty : Bool) : Projection × MessageOutcome × Option Delta :=
  if !isOpen then (projection, .closed, none)
  else
    let (last, delta) := projection.projectImage source
    if last.isDatalossUpdate delta.values then (last, .dataLoss, none)
    else if suppressEmpty && !last.captureAllFields &&
        !delta.values.any (fun field => !last.isEventMetadata field.index) then
      (last, .normal, none)
    else if accepts then (last, .normal, some delta)
    else (last, .closed, none)

end Projection

inductive DelayedPolicy where
  | warn
  | raise
  | ignore
  deriving DecidableEq, Repr

inductive FieldErrorPolicy where
  | warn
  | raise
  | ignore
  deriving DecidableEq, Repr

/-- `delivered` and `missing` are history: the deltas put into the queue, and the added fields
with a value in the image that no update has carried since. -/
structure ConsumerTopic where
  owner : ℕ
  key : ℕ
  active : Bool
  imageDelivery : Bool
  delayedPolicy : DelayedPolicy
  fieldErrorPolicy : FieldErrorPolicy
  projection : Projection
  explicitFields : List String
  awaitingImage : Bool
  awaitingRepaint : Bool
  delivered : List Delta
  missing : List String
  deriving DecidableEq, Repr

inductive RecoveryStage where
  | queuedInitial
  | waitingInitialPaint
  | queuedRestart
  | waitingRestartStart
  | waitingRestartPaint
  deriving DecidableEq, Repr

def RecoveryStage.isQueued (stage : RecoveryStage) : Bool :=
  stage == .queuedInitial || stage == .queuedRestart

structure FeedRecovery where
  stage : RecoveryStage
  restartRequested : Bool
  deriving DecidableEq, Repr

inductive Lifecycle where
  | pending
  | active
  | failed
  | closed
  deriving DecidableEq, Repr

structure FeedState where
  fields : List String
  consumers : List ConsumerTopic
  layout : Option FieldLayout
  image : List (Option UpdateValue)
  lastUpdate : Option ℤ
  live : Bool
  streamsActive : Option Bool
  revision : ℕ
  delayed : Option Bool
  repainting : Bool
  repaintStarted : Bool
  recovery : Option FeedRecovery
  recoveryTaskScheduled : Bool
  kinds : List (String × FieldKind)
  lifecycle : Lifecycle
  fieldErrors : List String

/-- `Vec::resize` with `None`. -/
def resize (image : List (Option UpdateValue)) (length : ℕ) : List (Option UpdateValue) :=
  image.take length ++ List.replicate (length - image.length) none

def storeValues (image : List (Option UpdateValue)) (values : List UpdateField) :
    List (Option UpdateValue) :=
  values.foldl (fun image field => image.set field.index (some field.value)) image

/-- The part of a repaint that differs from the image, and whether it has any data. -/
def repaintChanges (update : SubscriptionUpdate) (image : List (Option UpdateValue))
    (slots : MetadataSlots) : SubscriptionUpdate × Bool :=
  let same := fun (field : UpdateField) => (image[field.index]?).join.any (·.same field.value)
  let kept := update.values.filter fun field => slots.isMetadata field.index || !same field
  ({ update with values := kept }, kept.any fun field => !slots.isMetadata field.index)

/-- What an update does to a recovery. -/
inductive PaintEffect where
  | none
  | recovered
  | restart
  | held
  deriving DecidableEq, Repr

def paintEffect (recovery : Option FeedRecovery) (initpaint : Bool) : PaintEffect :=
  match recovery with
  | .none => .none
  | some recovery =>
    match recovery.stage, initpaint with
    | .waitingInitialPaint, true => if recovery.restartRequested then .restart else .recovered
    | .waitingRestartPaint, true => .recovered
    | _, _ => .held

def PaintEffect.isFrozen (effect : PaintEffect) : Bool :=
  effect == .restart || effect == .held

/-- What the consumers see of an update. -/
structure Paint where
  update : SubscriptionUpdate
  changes : SubscriptionUpdate × Bool
  initpaint : Bool
  recovered : Bool
  frozen : Bool
  repainting : Bool
  finishPaint : Bool
  delayed : Option Bool
  mktdata : Bool

namespace ConsumerTopic

/-- The consumer raises on delayed data. -/
def refusesDelayed (consumer : ConsumerTopic) (delayed : Option Bool) : Bool :=
  delayed == some true && consumer.delayedPolicy == .raise

def applyDelayed (consumer : ConsumerTopic) (delayed : Option Bool) : ConsumerTopic :=
  if consumer.refusesDelayed delayed then { consumer with active := false } else consumer

/-- The consumer raises on a field that it has asked for. -/
def applyFieldErrors (consumer : ConsumerTopic) (errors : List String) : ConsumerTopic :=
  if errors.any (· ∈ consumer.explicitFields) && consumer.fieldErrorPolicy == .raise then
    { consumer with active := false }
  else consumer

/-- A consumer with more requested fields, as `add_fields` leaves it. -/
def widen (image : String → Option UpdateValue) (newFields : List String) (changed : Bool)
    (consumer : ConsumerTopic) : ConsumerTopic :=
  { consumer with
    projection := consumer.projection.addFields newFields
    explicitFields := consumer.explicitFields ++ newFields
    awaitingImage := consumer.awaitingImage || changed
    awaitingRepaint := consumer.awaitingRepaint || changed
    missing :=
      if changed then consumer.missing ++ newFields.filter fun field =>
        !isMetadata field && (image field).isSome
      else consumer.missing }

/-- Keep what a projection did, with the delta that it sent. -/
def record (consumer : ConsumerTopic) (result : Projection × MessageOutcome × Option Delta) :
    ConsumerTopic :=
  { consumer with
    projection := result.1
    delivered := consumer.delivered ++ result.2.2.toList }

/-- The turn of one consumer in `on_update`, and whether its stream has failed. -/
def onUpdate (paint : Paint) (isOpen accepts : Bool) (consumer : ConsumerTopic) :
    ConsumerTopic × Bool :=
  if !consumer.active || !isOpen then ({ consumer with active := false }, false)
  else if consumer.refusesDelayed paint.delayed then ({ consumer with active := false }, false)
  else if paint.frozen then (consumer, false)
  else
    let awaitingImage := consumer.awaitingImage && !paint.finishPaint
    let told :=
      { consumer with
        awaitingImage := awaitingImage
        awaitingRepaint := consumer.awaitingRepaint && !paint.finishPaint
        missing :=
          if paint.recovered then []
          else consumer.missing.filter fun field => field ∉ paint.update.carried }
    if told.imageDelivery then
      -- An image consumer only learns about new fields.
      ({ told with
          projection := (told.projection.visitProjectedValues paint.update.layout
            paint.update.values).1 }, false)
    else if paint.repainting && paint.initpaint && !awaitingImage && !paint.changes.2 then
      (told, false)
    else
      let result :=
        if paint.repainting && paint.initpaint && !awaitingImage then
          told.projection.projectUpdate isOpen accepts paint.changes.1 true
        else told.projection.projectUpdate isOpen accepts paint.update paint.mktdata
      let served := told.record result
      if result.2.1 = .normal then (served, false) else ({ served with active := false }, true)

end ConsumerTopic

/-- The consumers take their turns; a failed send closes the stream of its owner. -/
def visitConsumers (turn : Bool → ConsumerTopic → ConsumerTopic × Bool) :
    List ConsumerTopic → (ℕ → Bool) → List ConsumerTopic × (ℕ → Bool)
  | [], closed => ([], closed)
  | consumer :: rest, closed =>
    let (told, failed) := turn (!closed consumer.owner) consumer
    let closed := if failed then Function.update closed consumer.owner true else closed
    let (others, closed) := visitConsumers turn rest closed
    (told :: others, closed)

namespace FeedState

def isDead (st : FeedState) : Bool :=
  st.lifecycle == .failed || st.lifecycle == .closed

def names (st : FeedState) : List String :=
  (st.layout.map fun layout => layout.fields.map (·.name)).getD []

/-- The value of a field in the image. -/
def imageValue (st : FeedState) (field : String) : Option UpdateValue :=
  (st.names.idxOf? field).bind fun i => (st.image[i]?).join

/-- Store an update that a recovery does not hold back. -/
def store (st : FeedState) (update : SubscriptionUpdate) (initpaint finishPaint : Bool) :
    FeedState :=
  { st with
    layout := some update.layout
    image := storeValues (resize st.image update.layout.fields.length) update.values
    lastUpdate := some update.timestampUs
    revision := st.revision + 1
    live := st.live || (!initpaint && st.recovery.isNone)
    lifecycle := .active
    repaintStarted := st.repaintStarted && !finishPaint
    repainting := st.repainting && !finishPaint }

/-- The part of `on_update` before the consumers are visited. -/
def paint (st : FeedState) (mktdata : Bool) (update : SubscriptionUpdate) : FeedState × Paint :=
  let slots := MetadataSlots.resolve update.layout
  let delayed := (slots.scan update).2.or st.delayed
  let initpaint := isInitpaint update
  let effect := paintEffect st.recovery initpaint
  let recovered := effect == .recovered
  let frozen := effect.isFrozen
  let restartReady := effect == .restart
  let image := if recovered then st.image.map fun _ => none else st.image
  let repaintStarted := st.repaintStarted || (st.repainting && initpaint && !frozen)
  let finishPaint := !initpaint && !frozen && (!st.repainting || repaintStarted)
  let held :=
    { st with
      delayed := delayed
      recovery :=
        if recovered then none
        else if restartReady then st.recovery.map fun r => { r with stage := .queuedRestart }
        else st.recovery
      recoveryTaskScheduled := st.recoveryTaskScheduled || restartReady
      image := image
      repaintStarted := repaintStarted }
  (if frozen then held else held.store update initpaint finishPaint,
    { update := update
      changes := repaintChanges update image slots
      initpaint := initpaint
      recovered := recovered
      frozen := frozen
      repainting := st.repainting
      finishPaint := finishPaint
      delayed := delayed
      mktdata := mktdata })

/-- `accepts` says whose queue has room. The flag asks for a recovery task. -/
def onUpdate (st : FeedState) (mktdata : Bool) (accepts : ℕ → ℕ → Bool)
    (update : SubscriptionUpdate) (closed : ℕ → Bool) : FeedState × (ℕ → Bool) × Bool :=
  if st.isDead then (st, closed, false)
  else
    let (painted, paint) := st.paint mktdata update
    let (consumers, closed) := visitConsumers (fun isOpen consumer =>
        consumer.onUpdate paint isOpen (accepts consumer.owner consumer.key))
      painted.consumers closed
    ({ painted with consumers := consumers }, closed,
      painted.recoveryTaskScheduled && !st.recoveryTaskScheduled)

def onDataLoss (st : FeedState) (closed : ℕ → Bool) : FeedState × (ℕ → Bool) × Bool :=
  if st.isDead then (st, closed, false)
  else
    let (consumers, closed') := visitConsumers (fun isOpen consumer =>
        if !consumer.active || !isOpen then ({ consumer with active := false }, false)
        else if !consumer.imageDelivery then ({ consumer with active := false }, true)
        else (consumer, false))
      st.consumers closed
    let told := { st with consumers := consumers, revision := st.revision + 1, live := false }
    if consumers.any fun consumer => consumer.active && consumer.imageDelivery then
      let recovery :=
        match st.recovery with
        | some recovery =>
          if recovery.stage == .queuedInitial || recovery.stage == .waitingInitialPaint then
            { recovery with restartRequested := true }
          else recovery
        | none => ⟨.queuedInitial, false⟩
      let schedule := recovery.stage.isQueued && !st.recoveryTaskScheduled
      ({ told with
          lifecycle := .pending
          repainting := true
          repaintStarted := false
          recovery := some recovery
          recoveryTaskScheduled := st.recoveryTaskScheduled || schedule }, closed', schedule)
    else ({ told with lifecycle := .failed }, closed', false)

/-- `on_error` for anything but a data loss. -/
def onError (st : FeedState) : FeedState :=
  if st.isDead then st
  else
    { st with
      lifecycle := .failed
      consumers := st.consumers.map fun consumer => { consumer with active := false } }

/-- `on_field_error`: a field has an unsupported shape. -/
def onFieldError (st : FeedState) (element : String) (scalar : Bool) (closed : ℕ → Bool) :
    FeedState × (ℕ → Bool) :=
  let (consumers, closed) := visitConsumers (fun isOpen consumer =>
      if !isOpen then ({ consumer with active := false }, false)
      else if consumer.active && (decide (element ∈ consumer.explicitFields) ||
          scalar && consumer.projection.captureAllFields) then
        ({ consumer with active := false }, true)
      else (consumer, false))
    st.consumers closed
  ({ st with consumers := consumers }, closed)

def onStreamAvailability (st : FeedState) (active : Bool) : FeedState :=
  if st.isDead || st.streamsActive == some active then st
  else { st with streamsActive := some active, revision := st.revision + 1 }

/-- What a published status says about the feed. -/
structure StatusChange where
  started : Bool
  topicChanged : Bool
  terminal : Bool
  sessionEnd : Bool
  availability : Option Bool
  fieldErrors : Option (List String)
  target : Option ℕ

/-- A subscription that has started again: a pending restart now waits for its paint. -/
def subscriptionStarted (st : FeedState) : FeedState :=
  { st with
    repaintStarted := st.repaintStarted && !st.repainting
    recovery := st.recovery.map fun recovery =>
      if recovery.stage = .waitingRestartStart then
        { recovery with stage := .waitingRestartPaint }
      else recovery }

def collectStatus (st : FeedState) (change : StatusChange) (closed : ℕ → Bool) : FeedState :=
  let started := if change.started then st.subscriptionStarted else st
  let errors :=
    if change.topicChanged then change.fieldErrors.getD st.fieldErrors else st.fieldErrors
  let changed := change.availability.any fun active => st.streamsActive != some active
  { started with
    fieldErrors := errors
    lifecycle := if change.terminal || change.sessionEnd then .failed else st.lifecycle
    streamsActive := if changed then change.availability else st.streamsActive
    revision := if changed then st.revision + 1 else st.revision
    consumers := st.consumers.map fun consumer =>
      if !consumer.active then consumer
      else if closed consumer.owner then { consumer with active := false }
      else if change.target.any (· != consumer.owner) then consumer
      else if !change.topicChanged && !change.sessionEnd then consumer
      else if change.sessionEnd || change.terminal then { consumer with active := false }
      else consumer.applyFieldErrors errors }

def growUnion (st : FeedState) (fields : List String) : Bool × FeedState :=
  let grown := fields.foldl pushFieldIfNew st.fields
  let changed := grown.length != st.fields.length
  (changed,
    { st with
      fields := grown
      consumers :=
        if changed && st.lastUpdate.isSome then
          st.consumers.map fun consumer =>
            if consumer.awaitingRepaint then consumer else { consumer with awaitingImage := false }
        else st.consumers })

def addKind (kinds : List (String × FieldKind)) (hint : String × FieldKind) :
    List (String × FieldKind) :=
  if hint.2 = .unknown ∨ (kinds.lookup hint.1).isSome then kinds else kinds ++ [hint]

/-- Append a field without values to a layout. -/
def pushMeta (fields : List FieldMeta) (name : String) : List FieldMeta :=
  if fields.any (·.name == name) then fields
  else fields ++ [⟨name, fields.length, .unknown, false⟩]

def seedKind (kinds : List (String × FieldKind)) (field : FieldMeta) : FieldMeta :=
  match field.kind, kinds.lookup field.name with
  | .unknown, some kind => { field with kind := kind, provisional := true }
  | _, _ => field

def seedImageKinds (st : FeedState) (kinds : List (String × FieldKind)) : FeedState :=
  let known := kinds.foldl addKind st.kinds
  let fields := (st.layout.map (·.fields)).getD []
  let named := (st.fields ++ [eventType, eventSubtype]).foldl pushMeta fields
  let seeded := named.map (seedKind known)
  if st.layout.isNone || seeded != fields then
    let version := st.layout.elim 1 fun layout => max ((layout.version + 1) % 2 ^ 32) 1
    { st with
      kinds := known
      image := resize st.image seeded.length
      layout := some ⟨version, seeded⟩ }
  else { st with kinds := known }

/-- The image as one synthetic paint. -/
def initialImageUpdate (st : FeedState) (topic : String) (now : ℤ) : Option SubscriptionUpdate :=
  if st.lastUpdate.isNone || st.recovery.isSome then none
  else
    st.layout.map fun layout =>
      { timestampUs := now
        topicId := 0
        topic := topic
        layout := layout
        values := layout.fields.filterMap fun field =>
          let value :=
            if field.name = eventType then some (.str "SUMMARY")
            else if field.name = eventSubtype then some (.str "INITPAINT")
            else (st.image[field.index]?).join
          value.map fun value => ⟨field.index, value⟩ }

/-- A consumer that asks to be attached. -/
structure Subscriber where
  owner : ℕ
  key : ℕ
  imageDelivery : Bool
  allFields : Bool
  delayedPolicy : DelayedPolicy
  fieldErrorPolicy : FieldErrorPolicy

/-- Send an image to a consumer, and note whether its stream has failed. -/
def sendImage (consumer : ConsumerTopic) (isOpen accepts : Bool) (image : SubscriptionUpdate) :
    ConsumerTopic × Bool :=
  let result := consumer.projection.projectUpdate isOpen accepts image false
  (consumer.record result, isOpen && result.2.1 != .normal)

/-- The entry of a consumer that is attached. -/
def newcomer (seeded : FeedState) (created growth : Bool) (subscriber : Subscriber)
    (fields : List String) : ConsumerTopic where
  owner := subscriber.owner
  key := subscriber.key
  active := true
  imageDelivery := subscriber.imageDelivery
  delayedPolicy := subscriber.delayedPolicy
  fieldErrorPolicy := subscriber.fieldErrorPolicy
  projection := .new fields subscriber.allFields
  explicitFields := fields
  awaitingImage := created || growth || seeded.lastUpdate.isNone || seeded.recovery.isSome
  awaitingRepaint := growth
  delivered := []
  missing := []

/-- A new consumer gets the image, unless the feed is new as well. -/
def welcome (seeded : FeedState) (mktdata created : Bool) (topic : String) (now : ℤ)
    (subscriber : Subscriber) (accepts : Bool) (closed : ℕ → Bool) (allowed : ConsumerTopic) :
    ConsumerTopic × Bool :=
  match seeded.initialImageUpdate topic now with
  | some image =>
    if allowed.active && !subscriber.imageDelivery && !created && mktdata then
      sendImage allowed (!closed subscriber.owner) accepts image
    else (allowed, false)
  | none => (allowed, false)

/-- The section of `add_validated` that attaches a consumer. The flag says that the union of
fields has grown. A dead feed refuses. -/
def attach (st : FeedState) (mktdata created : Bool) (topic : String) (now : ℤ)
    (subscriber : Subscriber) (fields : List String) (kinds : List (String × FieldKind))
    (accepts : Bool) (closed : ℕ → Bool) : Option (FeedState × (ℕ → Bool) × Bool) :=
  if st.isDead then none
  else
    let growth := (st.growUnion fields).1
    let seeded := (st.growUnion fields).2.seedImageKinds kinds
    let allowed := ((seeded.newcomer created growth subscriber fields).applyDelayed
      seeded.delayed).applyFieldErrors seeded.fieldErrors
    let served := seeded.welcome mktdata created topic now subscriber accepts closed allowed
    some ({ seeded with consumers := seeded.consumers ++ [served.1] },
      if served.2 then Function.update closed subscriber.owner true else closed, growth)

/-- One consumer is told of new fields. -/
def addFieldsTurn (st : FeedState) (fieldErrors : List String) (owner : ℕ) (newFields : List String)
    (changed : Bool) (image : Option SubscriptionUpdate) (accepts : ℕ → ℕ → Bool) (isOpen : Bool)
    (consumer : ConsumerTopic) : ConsumerTopic × Bool :=
  if !consumer.active || consumer.owner != owner then (consumer, false)
  else
    let widened := (consumer.widen st.imageValue newFields changed).applyFieldErrors fieldErrors
    match image with
    | some image =>
      if widened.active && !consumer.imageDelivery then
        sendImage widened isOpen (accepts consumer.owner consumer.key) image
      else (widened, false)
    | none => (widened, false)

/-- The feed with a grown union, before the consumers are told. -/
def grownBy (st : FeedState) (newFields : List String) (kinds : List (String × FieldKind)) :
    FeedState :=
  { (st.growUnion newFields).2.seedImageKinds kinds with revision := st.revision + 1 }

/-- The image that the consumers of new fields get. -/
def imageFor (st : FeedState) (mktdata : Bool) (topic : String) (now : ℤ) (newFields : List String)
    (kinds : List (String × FieldKind)) : Option SubscriptionUpdate :=
  if newFields != [] && !(st.growUnion newFields).1 && mktdata then
    (st.grownBy newFields kinds).initialImageUpdate topic now
  else none

/-- The section of `add_fields` on one feed, with the fields that are new to the consumer. -/
def addFields (st : FeedState) (mktdata : Bool) (topic : String) (now : ℤ) (owner : ℕ)
    (newFields : List String) (kinds : List (String × FieldKind)) (accepts : ℕ → ℕ → Bool)
    (closed : ℕ → Bool) : FeedState × (ℕ → Bool) × Bool :=
  let changed := (st.growUnion newFields).1
  let grown := st.grownBy newFields kinds
  let visited := visitConsumers (st.addFieldsTurn grown.fieldErrors owner newFields changed
    (st.imageFor mktdata topic now newFields kinds) accepts) grown.consumers closed
  ({ grown with consumers := visited.1 }, visited.2, changed)

/-- The section of `resubscribe`, which comes before the command. -/
def prepareResubscribe (st : FeedState) (mktdata : Bool) : FeedState :=
  { st with repainting := mktdata || st.recovery.isSome, repaintStarted := false }

/-- One turn of the recovery task, and whether it goes on to resubscribe. -/
def recoveryTurn (st : FeedState) (shutdown : Bool) : FeedState × Bool :=
  if shutdown || st.isDead then
    ({ st with recovery := none, recoveryTaskScheduled := false }, false)
  else
    match st.recovery with
    | some recovery =>
      match recovery.stage with
      | .queuedInitial =>
        ({ st with recovery := some { recovery with stage := .waitingInitialPaint } }, true)
      | .queuedRestart =>
        ({ st with recovery := some { recovery with stage := .waitingRestartStart } }, true)
      | _ => ({ st with recoveryTaskScheduled := false }, false)
    | none => ({ st with recoveryTaskScheduled := false }, false)

/-- The recovery task gives up after a failed resubscribe. -/
def abandonRecovery (st : FeedState) : FeedState :=
  { st with recovery := none, recoveryTaskScheduled := false }

def detach (st : FeedState) (owner key : ℕ) : FeedState :=
  { st with
    consumers := st.consumers.filter fun consumer =>
      !(consumer.key == key && consumer.owner == owner) }

/-- The section of the clean-up task on one feed. -/
def cleanup (st : FeedState) (closed : ℕ → Bool) : FeedState :=
  { st with
    consumers := st.consumers.filter fun consumer =>
      st.lifecycle != .failed && consumer.active && !closed consumer.owner }

/-- `Feed::new`. -/
def new (fields : List String) (kinds : List (String × FieldKind)) : FeedState :=
  seedImageKinds
    { fields := fields
      consumers := []
      layout := none
      image := []
      lastUpdate := none
      live := false
      streamsActive := none
      revision := 0
      delayed := none
      repainting := false
      repaintStarted := false
      recovery := none
      recoveryTaskScheduled := false
      kinds := []
      lifecycle := .pending
      fieldErrors := [] } kinds

end FeedState

end Feed

end Xbbg
