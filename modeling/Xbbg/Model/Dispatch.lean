import Xbbg.Library.Slab
import Mathlib.Data.Nat.Bitwise

/-! Correlation identifiers of the request worker, from `engine/dispatch.rs` and the slot
table of `engine/worker.rs`. -/

namespace Xbbg.Dispatch

open Library

inductive CorrelationId where
  | unset
  | int (value : ℤ)
  | ptr (address : ℕ)
  deriving DecidableEq, Repr

/-- High bit of the identifiers of asynchronous service opens. -/
def serviceOpenCidTag : ℕ := 1 <<< 62

/-- Fixed identifier of the worker's authorized-identity request. -/
def identityCid : ℤ := (1 <<< 61 : ℕ)

/-- Fixed identifier of the worker's token request. -/
def identityTokenCid : ℤ := (0b11 <<< 60 : ℕ)

def slotBits : ℕ := 32
def slotMask : ℕ := (1 <<< slotBits) - 1
def generationMask : ℕ := (1 <<< 30) - 1

/-- The source wraps an `i64`. Every key it builds or accepts is positive, so the bits
are those of a natural number. -/
structure DispatchKey where
  value : ℕ
  deriving DecidableEq, Repr

namespace DispatchKey

/-- Slab key plus one in the low 32 bits and the masked generation above them; `none`
is the panic on a slab key outside the correlation range. -/
def withGeneration (slabKey : ℕ) (generation : UInt32) : Option DispatchKey :=
  if slabKey + 1 < 2 ^ 32 then
    some ⟨((generation.toNat &&& generationMask) <<< slotBits) ||| (slabKey + 1)⟩
  else none

def fromCorrelationId : CorrelationId → Option DispatchKey
  | .int value =>
    if 0 < value ∧ value.toNat &&& serviceOpenCidTag = 0 ∧ value.toNat &&& slotMask ≠ 0 then
      some ⟨value.toNat⟩
    else none
  | _ => none

def toSlabKey (key : DispatchKey) : ℕ :=
  (key.value &&& slotMask) - 1

def generation (key : DispatchKey) : UInt32 :=
  UInt32.ofNat ((key.value >>> slotBits) &&& generationMask)

def toCorrelationId (key : DispatchKey) : CorrelationId :=
  .int key.value

end DispatchKey

/-- Identifies one in-flight request for cancellation and timeouts. -/
structure RequestTicket where
  key : ℕ
  generation : UInt32
  deriving DecidableEq, Repr

/-- One in-flight request. The source's cell also synchronizes partial responses.
`ordinal` is not stored there: it numbers the worker's dispatches from one. -/
structure RequestSlot (ρ : Type*) where
  generation : UInt32
  state : ρ
  ordinal : ℕ
  deriving DecidableEq, Repr

structure WorkerShared (ρ : Type*) where
  requests : Slab (RequestSlot ρ)
  nextGeneration : UInt32

namespace WorkerShared

variable {ρ : Type*}

def new : WorkerShared ρ :=
  ⟨Slab.empty, 0⟩

/-- The wrapping counter returns the value that it moves to. -/
def drawGeneration (w : WorkerShared ρ) : UInt32 × WorkerShared ρ :=
  (w.nextGeneration + 1, { w with nextGeneration := w.nextGeneration + 1 })

def insertSlot (w : WorkerShared ρ) (generation : UInt32) (state : ρ) (ordinal : ℕ) :
    ℕ × WorkerShared ρ :=
  (w.requests.vacantKey,
    { w with requests := w.requests.insert ⟨generation, state, ordinal⟩ })

/-- The slot that a key addresses, when the generation stored there is the key's. -/
def matching (w : WorkerShared ρ) (key : DispatchKey) : Option (RequestSlot ρ) :=
  match w.requests.get? key.toSlabKey with
  | some slot => if slot.generation = key.generation then some slot else none
  | none => none

/-- Remove and return the addressed slot iff its generation matches. -/
def takeSlot (w : WorkerShared ρ) (key : DispatchKey) : Option (RequestSlot ρ) × WorkerShared ρ :=
  match w.matching key with
  | some slot => (some slot, { w with requests := w.requests.remove key.toSlabKey })
  | none => (none, w)

/-- The requests whose decoders a partial response reaches, one per correlation
identifier that passes the generation check. Identity messages never get there. -/
def handlePartialResponse (w : WorkerShared ρ) (cids : List CorrelationId) : List (RequestSlot ρ) :=
  if .int identityCid ∈ cids then []
  else cids.filterMap fun cid => (DispatchKey.fromCorrelationId cid).bind w.matching

/-- One turn of the loop of `handle_response` and `handle_request_status`. -/
def settleOne (w : WorkerShared ρ) (cid : CorrelationId) :
    Option (RequestSlot ρ) × WorkerShared ρ :=
  match DispatchKey.fromCorrelationId cid with
  | some key => w.takeSlot key
  | none => (none, w)

def settleAll : WorkerShared ρ → List CorrelationId → List (RequestSlot ρ) × WorkerShared ρ
  | w, [] => ([], w)
  | w, cid :: rest =>
    let (slot, next) := w.settleOne cid
    let (slots, last) := settleAll next rest
    (slot.toList ++ slots, last)

/-- The requests that a final response finishes, in order, and the remaining table. A
`RequestFailure` status takes its slots the same way and fails them. -/
def handleResponse (w : WorkerShared ρ) (cids : List CorrelationId) :
    List (RequestSlot ρ) × WorkerShared ρ :=
  if .int identityCid ∈ cids then ([], w) else w.settleAll cids

/-- `cancel_request` and `timeout_request` rebuild the key from their ticket. `none` is
the panic of the key's constructor. -/
def takeTicket (w : WorkerShared ρ) (ticket : RequestTicket) :
    Option (Option (RequestSlot ρ) × WorkerShared ρ) :=
  (DispatchKey.withGeneration ticket.key ticket.generation).map w.takeSlot

def drainInFlight (w : WorkerShared ρ) : WorkerShared ρ :=
  { w with requests := Slab.empty }

end WorkerShared

/-- What `dispatch_prepared` registered for one request. -/
structure Issued where
  key : ℕ
  generation : UInt32
  ordinal : ℕ
  deriving DecidableEq, Repr

def Issued.ticket (i : Issued) : RequestTicket :=
  ⟨i.key, i.generation⟩

/-- A worker with the dispatches running on it. `dispatched` counts the generations drawn,
`drawn` holds the dispatches between their draw and their insertion, and `issued` records
every insertion. -/
structure Worker (ρ : Type*) where
  shared : WorkerShared ρ
  dispatched : ℕ
  drawn : List (ℕ × UInt32)
  issued : List Issued

def Worker.new {ρ : Type*} : Worker ρ :=
  ⟨.new, 0, [], []⟩

/-- The atomic steps of the worker's threads. Dispatches share a read guard, so other
steps may come between the two of them. -/
inductive Action (ρ : Type*) where
  | draw
  | insert (ordinal : ℕ) (generation : UInt32) (state : ρ)
  | response (cids : List CorrelationId)
  | cancel (ticket : RequestTicket)
  | timeout (ticket : RequestTicket)
  | sendFailure (ticket : RequestTicket)
  | drain

/-- Settle the request of a ticket, on a caller's cancellation, a timeout or a failed send. -/
def Worker.settleTicket {ρ : Type*} (w : Worker ρ) (ticket : RequestTicket) : Option (Worker ρ) :=
  (w.shared.takeTicket ticket).map fun taken => { w with shared := taken.2 }

def Worker.step {ρ : Type*} (w : Worker ρ) : Action ρ → Option (Worker ρ)
  | .draw =>
    some
      { w with
        shared := w.shared.drawGeneration.2
        dispatched := w.dispatched + 1
        drawn := (w.dispatched + 1, w.shared.drawGeneration.1) :: w.drawn }
  | .insert ordinal generation state =>
    if (ordinal, generation) ∈ w.drawn then
      let (key, shared) := w.shared.insertSlot generation state ordinal
      some
        { w with
          shared := shared
          drawn := w.drawn.erase (ordinal, generation)
          issued := ⟨key, generation, ordinal⟩ :: w.issued }
    else none
  | .response cids => some { w with shared := (w.shared.handleResponse cids).2 }
  | .cancel ticket | .timeout ticket | .sendFailure ticket => w.settleTicket ticket
  | .drain => some { w with shared := w.shared.drainInFlight }

end Xbbg.Dispatch
