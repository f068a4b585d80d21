import Xbbg.Model.Feed

/-! One feed with everything that runs against it: the decoder's updates, data losses and
statuses, consumers that come, grow and go, calls of `resubscribe`, and recovery tasks. -/

namespace Xbbg.Feed

/-- Where a call of `resubscribe` or a recovery task is between two critical sections. -/
inductive Worker where
  | growth
  | growthReady
  | recovery
  | recoveryCall
  | recoveryReady
  | recoveryFailed
  deriving DecidableEq, Repr

def Worker.isRecovery : Worker → Bool
  | .growth | .growthReady => false
  | _ => true

def layoutNames (layout : FieldLayout) : List String :=
  layout.fields.map (·.name)

/-- What the decoder sends. Its layout has the names that it has pushed, numbered by position in
the 16 bits of a `FieldIndex`, and a delta has one entry for each field at most. -/
def Decoded (decoder : Decoder) (update : SubscriptionUpdate) : Prop :=
  (decoder.push (layoutNames update.layout)).names = layoutNames update.layout ∧
    update.layout.fields.length ≤ 65536 ∧
    update.layout.fields.map (·.index) =
      (List.range update.layout.fields.length).map (· % 65536) ∧
    (∀ field ∈ update.values, field.index < update.layout.fields.length) ∧
    (update.values.map (·.index)).Nodup

instance (decoder : Decoder) (update : SubscriptionUpdate) :
    Decidable (Decoded decoder update) :=
  inferInstanceAs (Decidable (_ ∧ _))

/-- `closed` says whose stream is closed, `consumerFields` what each owner asks for, and
`schedules` counts the calls of `schedule_recovery` under way. The last three fields are
history: the decoder's names, the updates applied since the paint that ended the latest
recovery, and whether a resubscribe was issued since the latest data loss. -/
structure System where
  mktdata : Bool
  topic : String
  state : FeedState
  closed : ℕ → Bool
  consumerFields : ℕ → List String
  created : Bool
  registered : Bool
  shutdown : Bool
  schedules : ℕ
  workers : List Worker
  decoder : Decoder
  applied : List SubscriptionUpdate
  resubscribed : Bool

namespace System

def new (mktdata : Bool) (topic : String) (fields : List String)
    (kinds : List (String × FieldKind)) (consumerFields : ℕ → List String) : System where
  mktdata := mktdata
  topic := topic
  state := .new fields kinds
  closed := fun _ => false
  consumerFields := consumerFields
  created := false
  registered := true
  shutdown := false
  schedules := 0
  workers := []
  decoder := ⟨[], .nil⟩
  applied := []
  resubscribed := false

/-- What comes in from the session. -/
inductive SessionAction where
  | update (update : SubscriptionUpdate) (accepts : ℕ → ℕ → Bool)
  | dataLoss
  | error
  | fieldError (element : String) (scalar : Bool)
  | streamAvailability (active : Bool)
  | status (change : FeedState.StatusChange)

/-- What consumers and the hub do to the feed. -/
inductive HubAction where
  | attach (subscriber : FeedState.Subscriber) (kinds : List (String × FieldKind)) (now : ℤ)
      (accepts : Bool)
  | addFields (owner : ℕ) (fields : List String) (kinds : List (String × FieldKind)) (now : ℤ)
      (accepts : ℕ → ℕ → Bool)
  | detach (owner key : ℕ)
  | cleanup
  | closeStream (owner : ℕ)
  | unregister
  | closeFeed
  | shutdown
  | schedule
  | scheduleOther

/-- The sections of `resubscribe` and of the recovery task. -/
inductive WorkerAction where
  | turn
  | prepare
  | send (sent : Bool)
  | abandon

inductive Action where
  | session (a : SessionAction)
  | hub (a : HubAction)
  | worker (a : WorkerAction) (index : ℕ)

def stepSession (s : System) : SessionAction → Option System
  -- The upstream subscription starts after the creator of the feed is attached.
  | .update update accepts =>
    if s.created ∧ Decoded s.decoder update then
      let (state, closed, schedule) := s.state.onUpdate s.mktdata accepts update s.closed
      let effect := paintEffect s.state.recovery (isInitpaint update)
      some
        { s with
          state := state
          closed := closed
          schedules := s.schedules + schedule.toNat
          decoder := s.decoder.push (layoutNames update.layout)
          applied :=
            if s.state.isDead || effect.isFrozen then s.applied
            else if effect = .recovered then [update]
            else s.applied ++ [update] }
    else none
  | .dataLoss =>
    if s.created then
      let (state, closed, schedule) := s.state.onDataLoss s.closed
      some
        { s with
          state := state
          closed := closed
          schedules := s.schedules + schedule.toNat
          resubscribed := false }
    else none
  | .error => some { s with state := s.state.onError }
  | .fieldError element scalar =>
    let (state, closed) := s.state.onFieldError element scalar s.closed
    some { s with state := state, closed := closed }
  | .streamAvailability active => some { s with state := s.state.onStreamAvailability active }
  | .status change => some { s with state := s.state.collectStatus change s.closed }

def stepHub (s : System) : HubAction → Option System
  | .attach subscriber kinds now accepts =>
    if !s.registered then none
    else
      let created := !s.created
      (s.state.attach s.mktdata created s.topic now subscriber
          (s.consumerFields subscriber.owner) kinds accepts s.closed).map
        fun (state, closed, growth) =>
          { s with
            state := state
            closed := closed
            created := true
            workers := if growth && !created then s.workers ++ [.growth] else s.workers }
  | .addFields owner fields kinds now accepts =>
    if s.closed owner then none
    else
      let existing := s.consumerFields owner
      let known := fields.foldl pushFieldIfNew existing
      let (state, closed, changed) := s.state.addFields s.mktdata s.topic now owner
        (known.drop existing.length) kinds accepts s.closed
      some
        { s with
          state := state
          closed := closed
          consumerFields := Function.update s.consumerFields owner known
          workers := if changed then s.workers ++ [.growth] else s.workers }
  | .detach owner key => some { s with state := s.state.detach owner key }
  | .cleanup => some { s with state := s.state.cleanup s.closed }
  | .closeStream owner => some { s with closed := Function.update s.closed owner true }
  -- The two sections of `retire`: the feed leaves the registry before it is closed.
  | .unregister =>
    if s.registered && (s.state.consumers.isEmpty || s.state.isDead) then
      some { s with registered := false }
    else none
  | .closeFeed =>
    if s.registered then none else some { s with state := { s.state with lifecycle := .closed } }
  | .shutdown => some { s with shutdown := true }
  | .schedule =>
    if s.schedules = 0 then none
    else
      some
        { s with
          schedules := s.schedules - 1
          workers := if s.registered then s.workers ++ [.recovery] else s.workers }
  -- A late call of an earlier feed with the same identity finds this one.
  | .scheduleOther =>
    if s.registered then some { s with workers := s.workers ++ [.recovery] } else none

def stepWorker (s : System) (a : WorkerAction) (index : ℕ) : Option System :=
  match a, s.workers[index]? with
  | .turn, some .recovery =>
    let (state, send) := s.state.recoveryTurn s.shutdown
    some
      { s with
        state := state
        workers := if send then s.workers.set index .recoveryCall else s.workers.eraseIdx index }
  | .prepare, some .growth =>
    some
      { s with
        state := s.state.prepareResubscribe s.mktdata
        workers := s.workers.set index .growthReady }
  | .prepare, some .recoveryCall =>
    some
      { s with
        state := s.state.prepareResubscribe s.mktdata
        workers := s.workers.set index .recoveryReady }
  | .send true, some .growthReady =>
    some { s with workers := s.workers.eraseIdx index, resubscribed := true }
  | .send false, some .growthReady =>
    some { s with state := s.state.onError, workers := s.workers.eraseIdx index }
  | .send true, some .recoveryReady =>
    some { s with workers := s.workers.set index .recovery, resubscribed := true }
  | .send false, some .recoveryReady =>
    some { s with state := s.state.onError, workers := s.workers.set index .recoveryFailed }
  | .abandon, some .recoveryFailed =>
    some { s with state := s.state.abandonRecovery, workers := s.workers.eraseIdx index }
  | _, _ => none

/-- The fields of the image and of each consumer are numbered by 16 bits too. -/
def Numbered (s : System) : Prop :=
  s.state.names.length ≤ 65536 ∧
    ∀ consumer ∈ s.state.consumers, consumer.projection.fieldStrings.length ≤ 65536

instance (s : System) : Decidable s.Numbered := inferInstanceAs (Decidable (_ ∧ _))

def act (s : System) : Action → Option System
  | .session a => s.stepSession a
  | .hub a => s.stepHub a
  | .worker a index => s.stepWorker a index

/-- Steps that number more fields are left out, where the source truncates their indices. -/
def step (s : System) (a : Action) : Option System := (s.act a).filter fun t => t.Numbered

theorem act_of_step {s t : System} {a : Action} (h : s.step a = some t) : s.act a = some t :=
  (Option.filter_eq_some_iff.mp h).1

end System

end Xbbg.Feed
