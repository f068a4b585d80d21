import Xbbg.Library.Machine
import Xbbg.Library.Production
import Xbbg.Model.Responses

/-! Streaming requests: the decoders of historical data, intraday bars and intraday ticks that
hand each chunk to a bounded channel, from `engine/state/histdata_stream.rs`,
`engine/state/intradaybar_stream.rs` and `engine/state/intradaytick_stream.rs`. -/

namespace Xbbg.Streams

open Library Diagnostics Columns Responses

/-! ### Decoders -/

/-- A decoder that may make a chunk of each message. -/
structure Decoder where
  State : Type
  Message : Type
  operation : String
  initial : State
  /-- The label of a top-level `responseError`. -/
  responseError : Message → Option String
  process : State → Message → State × Option (Except BlpError RecordBatch)

def topLevelResponseError (d : Decoder) (message : d.Message) : Option BlpError :=
  (d.responseError message).map fun label =>
    .requestFailure "//blp/refdata" (some d.operation) (some label)

namespace HistDataResponse

def isEmpty (s : HistDataState) : Bool := s.output.rowCount == 0 && s.responseMeta.isEmpty

/-- Finish a chunk of wide columns; a streaming response always has them. -/
def finishBatch (s : HistDataState) : HistDataState × Except BlpError RecordBatch :=
  match s.output.wideColumns with
  | none => (s, .error (.internal "wide historical response has wide builders"))
  | some columns =>
    ({ s with
        responseMeta := {}
        output := { s.output with wideColumns := some (columns.finish true).2 } },
      match (columns.finish true).1 with
      | .ok batch => .ok (ResponseMetadata.attachTo s.responseMeta batch)
      | .error error => .error error)

def process (c : Conversions) (s : HistDataState) (message : Message) :
    HistDataState × Option (Except BlpError RecordBatch) :=
  let s := s.processMessage c message
  if isEmpty s then (s, none)
  else
    let (s, batch) := finishBatch s
    (s, some batch)

end HistDataResponse

def histDecoder (c : Conversions) (fields : List String) (fieldTypes : Map String ArrowType) :
    Decoder where
  State := HistDataState
  Message := Message
  operation := "HistoricalDataRequest"
  initial := .withFormat fields .wide .string fieldTypes
  responseError := Message.responseError
  process := HistDataResponse.process c

theorem dataType_timestampMicros (v : ℤ) :
    (Cell.timestampMicros v).dataType = .timestampMicros := rfl

theorem dataType_float64 (v : F64) : (Cell.float64 v).dataType = .float64 := rfl

theorem dataType_int64 (v : ℤ) : (Cell.int64 v).dataType = .int64 := rfl

theorem dataType_string (v : String) : (Cell.string v).dataType = .string := rfl

/-- The time of a bar: its microseconds, if it can be read as a timestamp. -/
structure TimeElement where
  isNull : Bool
  micros : Option ℤ

structure BarElements where
  time : Option TimeElement
  get : String → Option Value

structure BarData where
  eidData : Option (List (Option ℤ))
  barTickData : Option (List (Option BarElements))

structure BarMessage where
  responseError : Option String
  barData : Option BarData

structure IntradayBarBuilders where
  ticker : List String
  time : List (Option ℤ)
  fields : List (String × TypedBuilder)

namespace IntradayBarBuilders

def valueFields : List (String × ArrowType) :=
  [("open", .float64), ("high", .float64), ("low", .float64), ("close", .float64),
    ("volume", .float64), ("numEvents", .int32), ("value", .float64)]

def new : IntradayBarBuilders where
  ticker := []
  time := []
  fields := valueFields.map fun (name, arrowType) => (name, .new arrowType)

/-- The fields of a bar that hold a value which their column rejects. -/
def misses (c : Conversions) (b : IntradayBarBuilders) (bar : BarElements) : List String :=
  (if bar.time.any fun time => time.micros.isNone && !time.isNull then ["time"] else []) ++
    (b.fields.filter fun (name, builder) => (builder.appendValue c (bar.get name)).2).map Prod.fst

def append (c : Conversions) (b : IntradayBarBuilders) (ticker : String) (bar : BarElements) :
    IntradayBarBuilders where
  ticker := b.ticker ++ [ticker]
  time := b.time ++ [bar.time.bind TimeElement.micros]
  fields := b.fields.map fun (name, builder) =>
    (name, (builder.appendValue c (bar.get name)).1)

end IntradayBarBuilders

structure IntradayBarResponse where
  ticker : String
  builders : Option IntradayBarBuilders
  responseMeta : ResponseMetadata

namespace IntradayBarResponse

def appendBar (c : Conversions) (s : IntradayBarResponse) : Option BarElements → IntradayBarResponse
  | none => s
  | some bar =>
    let builders := s.builders.getD .new
    { s with
      builders := some (builders.append c s.ticker bar)
      responseMeta := (builders.misses c bar).foldl ResponseMetadata.recordTypeMiss s.responseMeta }

/-- The flag says that there is something to finish. -/
def processMessage (c : Conversions) (s : IntradayBarResponse) (message : BarMessage) :
    IntradayBarResponse × Bool :=
  match message.barData with
  | none => (s, false)
  | some barData =>
    let s :=
      { s with
        responseMeta := barData.eidData.elim s.responseMeta
          (s.responseMeta.recordEidData s.ticker) }
    match barData.barTickData with
    | none => (s, !s.responseMeta.isEmpty)
    | some [] => (s, !s.responseMeta.isEmpty)
    | some bars =>
      (bars.foldl (appendBar c) { s with builders := some (s.builders.getD .new) }, true)

def finishBatch (s : IntradayBarResponse) : IntradayBarResponse × Except BlpError RecordBatch :=
  let builders := s.builders.getD .new
  match RecordBatch.tryNew
      (⟨"ticker", .string⟩ :: ⟨"time", .timestampMicros⟩ ::
        IntradayBarBuilders.valueFields.map fun (name, arrowType) => ⟨name, arrowType⟩) {}
      (.ofStrings builders.ticker ::
        .ofOptions .timestampMicros .timestampMicros dataType_timestampMicros builders.time ::
        builders.fields.map Prod.snd) with
  | .error error =>
    ({ s with builders := none },
      .error (.internal ("build IntradayBar RecordBatch: " ++ error)))
  | .ok batch =>
    ({ s with builders := none, responseMeta := {} },
      .ok (ResponseMetadata.attachTo s.responseMeta batch))

def process (c : Conversions) (s : IntradayBarResponse) (message : BarMessage) :
    IntradayBarResponse × Option (Except BlpError RecordBatch) :=
  match s.processMessage c message with
  | (s, false) => (s, none)
  | (s, true) =>
    let (s, batch) := s.finishBatch
    (s, some batch)

end IntradayBarResponse

def barDecoder (c : Conversions) (ticker : String) : Decoder where
  State := IntradayBarResponse
  Message := BarMessage
  operation := "IntradayBarRequest"
  initial := ⟨ticker, none, {}⟩
  responseError := BarMessage.responseError
  process := IntradayBarResponse.process c

/-- The core fields of a tick, as far as they can be read. -/
structure TickElements where
  time : Option ℤ
  type : Option String
  value : Option F64
  size : Option ℤ

structure TickData where
  eidData : Option (List (Option ℤ))
  tickData : Option (List (Option TickElements))

structure TickMessage where
  responseError : Option String
  tickData : Option TickData

def tickBatch (ticker : String) (responseMeta : ResponseMetadata) (ticks : List TickElements) :
    Option RecordBatch :=
  match RecordBatch.tryNew
      [⟨"ticker", .string⟩, ⟨"time", .timestampMicros⟩, ⟨"type", .string⟩, ⟨"value", .float64⟩,
        ⟨"size", .int64⟩] {}
      [.ofStrings (ticks.map fun _ => ticker),
        .ofOptions .timestampMicros .timestampMicros dataType_timestampMicros
          (ticks.map TickElements.time),
        .ofOptions .string .string dataType_string (ticks.map TickElements.type),
        .ofOptions .float64 .float64 dataType_float64 (ticks.map TickElements.value),
        .ofOptions .int64 .int64 dataType_int64 (ticks.map TickElements.size)] with
  | .error _ => none
  | .ok batch => some (ResponseMetadata.attachTo responseMeta batch)

/-- `process_message` of the tick stream; the cached schema is always the same. -/
def processTicks (ticker : String) (message : TickMessage) : Option RecordBatch :=
  message.tickData.bind fun outer =>
    if (outer.tickData.getD []).isEmpty && outer.eidData.isNone then none
    else
      tickBatch ticker (outer.eidData.elim {} (ResponseMetadata.recordEidData {} ticker))
        (outer.tickData.getD []).reduceOption

def tickDecoder (ticker : String) : Decoder where
  State := String
  Message := TickMessage
  operation := "IntradayTickRequest"
  initial := ticker
  responseError := TickMessage.responseError
  process ticker message := (ticker, (processTicks ticker message).map .ok)

/-! ### The channel of a request -/

abbrev Item := Except BlpError RecordBatch

/-- A decoder at work; `sender` says that it still has its end of the channel. -/
structure StreamState (d : Decoder) where
  response : d.State
  sender : Bool

/-- A streaming request with its channel. `task` is the error that a spawned task still has to
send, `received` what the receiver has read, and `decoded` what the messages so far amount to. -/
structure System (d : Decoder) where
  capacity : ℕ
  capacity_pos : 0 < capacity
  queue : List Item
  receiverOpen : Bool
  request : Option (StreamState d)
  task : Option BlpError
  received : List Item
  decoded : Production d.State RecordBatch BlpError

inductive TrySendError where
  | full
  | closed

namespace System

variable {d : Decoder}

def start (d : Decoder) (capacity : ℕ) (h : 0 < capacity) : System d where
  capacity := capacity
  capacity_pos := h
  queue := []
  receiverOpen := true
  request := some ⟨d.initial, true⟩
  task := none
  received := []
  decoded := .start d.initial

def trySend (s : System d) (item : Item) : Except TrySendError (System d) :=
  if !s.receiverOpen then .error .closed
  else if s.queue.length < s.capacity then .ok { s with queue := s.queue ++ [item] }
  else .error .full

end System

/-! ### Delivery that ends with an error when the channel is full -/

namespace ResponseStream

variable {d : Decoder}

def overflowError (operation : String) : BlpError :=
  .internal (operation ++
    " stream channel is full; response terminated to avoid silent data loss")

def isClosed (st : StreamState d) (s : System d) : Bool := !st.sender || !s.receiverOpen

def send (st : StreamState d) (s : System d) (item : Item) : StreamState d × System d :=
  if !st.sender then (st, s)
  else
    match s.trySend item with
    | .ok s => ({ st with sender := item.isOk }, s)
    | .error .closed => ({ st with sender := false }, s)
    | .error .full =>
      ({ st with sender := false },
        { s with
          task := some (match item with
            | .error error => error
            | .ok _ => overflowError d.operation) })

def onPartial (st : StreamState d) (s : System d) (message : d.Message) :
    StreamState d × System d :=
  if isClosed st s then (st, s)
  else
    match topLevelResponseError d message with
    | some error => send st s (.error error)
    | none =>
      match d.process st.response message with
      | (response, none) => ({ st with response }, s)
      | (response, some batch) => send { st with response } s batch

end ResponseStream

/-! ### Delivery of ticks -/

namespace TickStream

variable {d : Decoder}

/-- The outcome of `try_send` is ignored. -/
def send (s : System d) (item : Item) : System d :=
  match s.trySend item with
  | .ok s => s
  | .error _ => s

def onPartial (st : StreamState d) (s : System d) (message : d.Message) :
    StreamState d × System d :=
  match d.process st.response message with
  | (response, none) => ({ st with response }, s)
  | (response, some batch) => ({ st with response }, send s batch)

def finish (st : StreamState d) (s : System d) (message : d.Message) : System d :=
  match topLevelResponseError d message with
  | some error => send s (.error error)
  | none => (onPartial st s message).2

end TickStream

/-! ### The requests -/

inductive StreamingRequest where
  | histData (fields : List String) (fieldTypes : Map String ArrowType)
  | intradayBar (ticker : String)
  | intradayTick (ticker : String)

namespace StreamingRequest

def decoder (c : Conversions) : StreamingRequest → Decoder
  | histData fields fieldTypes => histDecoder c fields fieldTypes
  | intradayBar ticker => barDecoder c ticker
  | intradayTick ticker => tickDecoder ticker

/-- Ticks do not go through `ResponseStream`. -/
def isTick : StreamingRequest → Bool
  | intradayTick _ => true
  | _ => false

end StreamingRequest

inductive Action (d : Decoder) where
  | onPartial (message : d.Message)
  | finish (message : d.Message)
  | fail (error : BlpError)
  /-- The request is cancelled and its decoder dropped. -/
  | discard
  /-- The spawned task sends its error, or ends because the receiver is closed. -/
  | runTask
  | read
  | close

section Step

variable {d : Decoder}

def onPartial (isTick : Bool) (st : StreamState d) (s : System d) (message : d.Message) :
    StreamState d × System d :=
  if isTick then TickStream.onPartial st s message else ResponseStream.onPartial st s message

def finish (isTick : Bool) (st : StreamState d) (s : System d) (message : d.Message) : System d :=
  if isTick then TickStream.finish st s message else (ResponseStream.onPartial st s message).2

def fail (isTick : Bool) (st : StreamState d) (s : System d) (error : BlpError) : System d :=
  if isTick then TickStream.send s (.error error)
  else (ResponseStream.send st s (.error error)).2

/-- A message as the specification reads it: a top-level error ends the response. -/
def decodeMessage (d : Decoder) (state : d.State) (message : d.Message) : d.State × Option Item :=
  match topLevelResponseError d message with
  | some error => (state, some (.error error))
  | none => d.process state message

def step (isTick : Bool) (s : System d) : Action d → Option (System d)
  | .onPartial message =>
    s.request.map fun st =>
      { (onPartial isTick st s message).2 with
        request := some (onPartial isTick st s message).1
        decoded := s.decoded.feed (decodeMessage d) message }
  | .finish message =>
    s.request.map fun st =>
      { finish isTick st s message with
        request := none
        decoded := s.decoded.feed (decodeMessage d) message }
  | .fail error =>
    s.request.map fun st =>
      { fail isTick st s error with
        request := none
        decoded := s.decoded.fail error }
  | .discard => s.request.map fun _ => { s with request := none }
  | .runTask =>
    s.task.bind fun error =>
      if !s.receiverOpen then some { s with task := none }
      else if s.queue.length < s.capacity then
        some { s with task := none, queue := s.queue ++ [.error error] }
      else none
  | .read =>
    match s.queue with
    | [] => none
    | item :: rest =>
      if s.receiverOpen then some { s with queue := rest, received := s.received ++ [item] }
      else none
  | .close => if s.receiverOpen then some { s with receiverOpen := false, queue := [] } else none

end Step

end Xbbg.Streams
