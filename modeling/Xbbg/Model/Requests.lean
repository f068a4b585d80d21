import Xbbg.Model.Dispatch
import Xbbg.Model.Types

/-! The life of a request after its dispatch, from `engine/worker.rs`: the cell that holds its
decoder, the partial responses on their way into it, and the threads that took its slot. -/

namespace Xbbg.Requests

open Dispatch

/-- What `UnifiedRequestState` does for one kind of request. `ρ` is the decoder with its reply
channel, `μ` a response message and `β` what goes out on the channel. -/
structure Decoder (ρ μ β : Type*) where
  onPartial : ρ → μ → ρ
  finishAndReply : ρ → μ → β
  fail : ρ → BlpError → β

/-- How a taken request is settled: `finish_and_reply`, `fail` or `discard`. -/
inductive Settlement (μ : Type*) where
  | finish (message : μ)
  | fail (error : BlpError)
  | discard
  deriving DecidableEq, Repr

/-- Nothing is sent for a discarded request: its channel is dropped. -/
def Settlement.reply {ρ μ β : Type*} (d : Decoder ρ μ β) (state : ρ) : Settlement μ → Option β
  | .finish message => some (d.finishAndReply state message)
  | .fail error => some (d.fail state error)
  | .discard => none

/-- A partial response between `begin_partial` and the drop of its guard. -/
structure RequestPartialGuard (μ : Type*) where
  message : μ
  decoded : Bool
  deriving DecidableEq, Repr

/-- A thread that has taken the request's slot: in `wait_for_partials`, past it, or with the
decoder moved out of the cell. -/
inductive Consumer (ρ μ : Type*) where
  | waiting (settlement : Settlement μ)
  | ready (settlement : Settlement μ)
  | taken (settlement : Settlement μ) (state : ρ)
  deriving DecidableEq, Repr

/-- A request's cell with the threads that hold it. The last five fields are history: the
decoder the request started with, the partials that began and those that were decoded, what the
request was settled with and what was replied. -/
structure RequestStateCell (ρ μ β : Type*) where
  state : Option ρ
  activePartials : ℕ
  guards : List (RequestPartialGuard μ)
  consumers : List (Consumer ρ μ)
  initial : ρ
  begun : List μ
  decoded : List μ
  settled : List (Settlement μ × ρ)
  replies : List β
  deriving DecidableEq, Repr

namespace RequestStateCell

variable {ρ μ β : Type*}

def new (state : ρ) : RequestStateCell ρ μ β :=
  ⟨some state, 0, [], [], state, [], [], [], []⟩

def beginPartial (cell : RequestStateCell ρ μ β) (message : μ) : RequestStateCell ρ μ β :=
  { cell with
    activePartials := cell.activePartials + 1
    guards := cell.guards ++ [⟨message, false⟩]
    begun := cell.begun ++ [message] }

/-- A partial that finds no decoder is a no-op. -/
def onPartial (d : Decoder ρ μ β) (cell : RequestStateCell ρ μ β) (guard : ℕ) :
    Option (RequestStateCell ρ μ β) :=
  match cell.guards[guard]? with
  | some ⟨message, false⟩ =>
    let held := { cell with guards := cell.guards.set guard ⟨message, true⟩ }
    match cell.state with
    | some state =>
      some
        { held with
          state := some (d.onPartial state message)
          decoded := cell.decoded ++ [message] }
    | none => some held
  | _ => none

def dropGuard (cell : RequestStateCell ρ μ β) (guard : ℕ) : Option (RequestStateCell ρ μ β) :=
  match cell.guards[guard]? with
  | some ⟨_, true⟩ =>
    some
      { cell with
        activePartials := cell.activePartials - 1
        guards := cell.guards.eraseIdx guard }
  | _ => none

/-- The slot of the request has been taken by a thread that will settle it. -/
def take (cell : RequestStateCell ρ μ β) (settlement : Settlement μ) : RequestStateCell ρ μ β :=
  { cell with consumers := cell.consumers ++ [.waiting settlement] }

/-- The condition variable lets a thread through once it sees no active partial. -/
def waitForPartials (cell : RequestStateCell ρ μ β) (consumer : ℕ) :
    Option (RequestStateCell ρ μ β) :=
  match cell.consumers[consumer]? with
  | some (.waiting settlement) =>
    if cell.activePartials = 0 then
      some { cell with consumers := cell.consumers.set consumer (.ready settlement) }
    else none
  | _ => none

/-- A thread that finds the decoder gone returns without settling anything. -/
def takeState (cell : RequestStateCell ρ μ β) (consumer : ℕ) : Option (RequestStateCell ρ μ β) :=
  match cell.consumers[consumer]? with
  | some (.ready settlement) =>
    match cell.state with
    | some state =>
      some
        { cell with
          state := none
          consumers := cell.consumers.set consumer (.taken settlement state)
          settled := cell.settled ++ [(settlement, state)] }
    | none => some { cell with consumers := cell.consumers.eraseIdx consumer }
  | _ => none

def settle (d : Decoder ρ μ β) (cell : RequestStateCell ρ μ β) (consumer : ℕ) :
    Option (RequestStateCell ρ μ β) :=
  match cell.consumers[consumer]? with
  | some (.taken settlement state) =>
    some
      { cell with
        consumers := cell.consumers.eraseIdx consumer
        replies := cell.replies ++ (settlement.reply d state).toList }
  | _ => none

end RequestStateCell

/-- The worker's slot table with the cells of all requests it has dispatched. `cells` is keyed
by the ordinal of the dispatch and keeps a cell after its slot is gone, as the threads that
hold it do. -/
structure System (ρ μ β : Type*) where
  id : ℕ
  shared : WorkerShared Unit
  dispatched : ℕ
  drawn : List (ℕ × UInt32)
  cells : ℕ → Option (RequestStateCell ρ μ β)

namespace System

variable {ρ μ β : Type*}

def new (id : ℕ) : System ρ μ β :=
  ⟨id, .new, 0, [], fun _ => none⟩

/-- What can happen to a cell once a thread holds it. -/
inductive CellAction where
  | onPartial (guard : ℕ)
  | dropGuard (guard : ℕ)
  | waitForPartials (consumer : ℕ)
  | takeState (consumer : ℕ)
  | settle (consumer : ℕ)
  deriving DecidableEq, Repr

/-- The atomic steps. A message is handled one correlation identifier at a time; `quarantine`
is a dispatch whose request was sent under an identifier that is not its own. -/
inductive Action (ρ μ : Type*) where
  | draw
  | insert (ordinal : ℕ) (generation : UInt32) (state : ρ)
  | partialResponse (cid : CorrelationId) (message : μ)
  | response (cid : CorrelationId) (message : μ)
  | requestFailure (cid : CorrelationId) (reason : Option String)
  | cancelRequest (ticket : RequestTicket)
  | timeoutRequest (ticket : RequestTicket)
  | sendFailure (ticket : RequestTicket) (error : BlpError)
  | quarantine (ticket : RequestTicket) (detail : String)
  | drainInFlight (reason : String)
  | cell (ordinal : ℕ) (action : CellAction)

/-- Change the cell of one request. -/
def modify (s : System ρ μ β) (ordinal : ℕ)
    (f : RequestStateCell ρ μ β → RequestStateCell ρ μ β) : System ρ μ β :=
  { s with cells := Function.update s.cells ordinal ((s.cells ordinal).map f) }

/-- The thread that removes a slot is the one that settles its request. -/
def takeSlot (s : System ρ μ β) (key : DispatchKey) (settlement : Settlement μ) : System ρ μ β :=
  let (slot, shared) := s.shared.takeSlot key
  match slot with
  | some slot => { s with shared := shared }.modify slot.ordinal (·.take settlement)
  | none => s

/-- One turn of the loop over a message's correlation identifiers. -/
def takeMessage (s : System ρ μ β) (cid : CorrelationId) (settlement : Settlement μ) :
    System ρ μ β :=
  match DispatchKey.fromCorrelationId cid with
  | some key => s.takeSlot key settlement
  | none => s

/-- `none` is the panic of the key's constructor. -/
def takeTicket (s : System ρ μ β) (ticket : RequestTicket) (settlement : Settlement μ) :
    Option (System ρ μ β) :=
  (DispatchKey.withGeneration ticket.key ticket.generation).map (s.takeSlot · settlement)

def handlePartial (s : System ρ μ β) (cid : CorrelationId) (message : μ) : System ρ μ β :=
  match (DispatchKey.fromCorrelationId cid).bind s.shared.matching with
  | some slot => s.modify slot.ordinal (·.beginPartial message)
  | none => s

/-- The requests that are in the slot table. -/
def inFlight (s : System ρ μ β) : List ℕ :=
  s.shared.requests.keys.filterMap fun k => (s.shared.requests.get? k).map (·.ordinal)

def drain (s : System ρ μ β) (reason : String) : System ρ μ β :=
  let error := BlpError.internal (reason ++ " (worker=" ++ toString s.id ++ ")")
  { s with
    shared := s.shared.drainInFlight
    cells := fun r =>
      if r ∈ s.inFlight then (s.cells r).map (·.take (.fail error)) else s.cells r }

def stepCell (d : Decoder ρ μ β) (cell : RequestStateCell ρ μ β) :
    CellAction → Option (RequestStateCell ρ μ β)
  | .onPartial guard => cell.onPartial d guard
  | .dropGuard guard => cell.dropGuard guard
  | .waitForPartials consumer => cell.waitForPartials consumer
  | .takeState consumer => cell.takeState consumer
  | .settle consumer => cell.settle d consumer

def step (d : Decoder ρ μ β) (s : System ρ μ β) : Action ρ μ → Option (System ρ μ β)
  | .draw =>
    some
      { s with
        shared := s.shared.drawGeneration.2
        dispatched := s.dispatched + 1
        drawn := (s.dispatched + 1, s.shared.drawGeneration.1) :: s.drawn }
  | .insert ordinal generation state =>
    if s.drawn.contains (ordinal, generation) then
      some
        { s with
          shared := (s.shared.insertSlot generation () ordinal).2
          drawn := s.drawn.erase (ordinal, generation)
          cells := Function.update s.cells ordinal (some (.new state)) }
    else none
  | .partialResponse cid message => some (s.handlePartial cid message)
  | .response cid message => some (s.takeMessage cid (.finish message))
  | .requestFailure cid reason =>
    some (s.takeMessage cid (.fail (.internal (reason.getD "RequestFailure"))))
  | .cancelRequest ticket => s.takeTicket ticket .discard
  | .timeoutRequest ticket => s.takeTicket ticket (.fail .requestTimeout)
  | .sendFailure ticket error => s.takeTicket ticket (.fail error)
  | .quarantine ticket detail => s.takeTicket ticket (.fail (.internal detail))
  | .drainInFlight reason => some (s.drain reason)
  | .cell ordinal action =>
    (s.cells ordinal).bind fun cell =>
      (stepCell d cell action).map fun next =>
        { s with cells := Function.update s.cells ordinal (some next) }

end System

end Xbbg.Requests
