import Mathlib.Algebra.Group.Nat.Defs
import Mathlib.Data.List.Basic

/-! Service opening, from `PendingServiceOpens` and `PendingWaiter` in `engine/session_lifecycle.rs`
and from `ensure_service` and `handle_service_status` in `engine/worker.rs`. Every step is one
section of the lock of the pending opens, or one turn outside of it. Callers that find the service
open or the worker shutting down do not get here. -/

namespace Xbbg.ServiceOpens

/-- `Result<(), BlpError>` of a service open. -/
inductive OpenResult where
  | ok
  | openService (service : String) (label : Option String)
  | timeout
  deriving DecidableEq, Repr

/-- A `PendingServiceOpen` under its service; a sender is the number of its waiter. -/
structure Attempt where
  service : String
  cid : ℕ
  waiters : List ℕ
  deriving DecidableEq, Repr

/-- Where a caller is: before its timer or reply, between the timer and the lock, behind
`remove_attempt`, between dropping its receiver and `prune`, or behind that. -/
inductive Stage where
  | waiting
  | timedOut
  | expired
  | closed
  | done
  deriving DecidableEq, Repr

structure Waiter where
  service : String
  cid : ℕ
  stage : Stage
  result : Option OpenResult
  deriving DecidableEq, Repr

/-- An outcome that a receiver got. -/
structure Sent where
  waiter : ℕ
  cid : ℕ
  result : OpenResult
  deriving DecidableEq, Repr

/-- `by_service` has one entry for each service, in no order. `completing` are attempts that have
left it and whose senders are being used; `issued` and `sent` record the correlation ids and the
outcomes so far. -/
structure Opens where
  nextId : ℕ
  byService : List Attempt
  completing : List (Attempt × OpenResult)
  waiters : List Waiter
  issued : List ℕ
  sent : List Sent
  deriving DecidableEq, Repr

def serviceOpenCidTag : ℕ := 2 ^ 62

/-- The correlation id of the attempt with this number. -/
def attemptCid (id : ℕ) : ℕ := serviceOpenCidTag ||| (id &&& (serviceOpenCidTag - 1))

namespace Opens

def new : Opens := ⟨0, [], [], [], [], []⟩

def isClosed (s : Opens) (w : ℕ) : Bool :=
  s.waiters[w]?.any fun waiter => waiter.stage = .closed ∨ waiter.stage = .done

def live (s : Opens) (waiters : List ℕ) : List ℕ :=
  waiters.filter fun w => !s.isClosed w

def get (s : Opens) (service : String) : Option Attempt :=
  s.byService.find? (·.service == service)

/-- The critical section of `ensure_service`. `accepted` is whether the session takes the open. -/
def register (s : Opens) (service : String) (accepted : Bool) : Opens :=
  match s.get service with
  | some attempt =>
    { s with
      byService := { attempt with waiters := s.live attempt.waiters ++ [s.waiters.length] } ::
        s.byService.erase attempt
      waiters := s.waiters ++ [⟨service, attempt.cid, .waiting, none⟩] }
  | none =>
    let nextId := (s.nextId + 1) % 2 ^ 64
    let cid := attemptCid nextId
    let opened := { s with nextId := nextId, issued := s.issued ++ [cid] }
    if accepted then
      { opened with
        byService := ⟨service, cid, [s.waiters.length]⟩ :: s.byService
        waiters := s.waiters ++ [⟨service, cid, .waiting, none⟩] }
    else opened

/-- The attempt leaves the table, to be completed. -/
def complete (s : Opens) (attempt : Attempt) (result : OpenResult) : Opens :=
  { s with
    byService := s.byService.erase attempt
    completing := s.completing ++ [(attempt, result)] }

/-- `remove`, and the completion of what it returns with a timeout. -/
def remove (s : Opens) (service : String) (cid : ℕ) : Opens :=
  match s.get service with
  | some attempt => if attempt.cid = cid then s.complete attempt .timeout else s
  | none => s

def prune (s : Opens) (service : String) (cid : ℕ) : Opens :=
  match s.get service with
  | some attempt =>
    if attempt.cid ≠ cid then s
    else if s.live attempt.waiters = [] then { s with byService := s.byService.erase attempt }
    else
      { s with
        byService :=
          { attempt with waiters := s.live attempt.waiters } :: s.byService.erase attempt }
  | none => s

def set (s : Opens) (w : ℕ) (waiter : Waiter) : Opens :=
  { s with waiters := s.waiters.set w waiter }

/-- The turn of a caller in this stage. -/
def turn (s : Opens) (w : ℕ) (stage : Stage) (next : Waiter → Opens) : Option Opens :=
  s.waiters[w]?.bind fun waiter => if waiter.stage = stage then some (next waiter) else none

end Opens

/-- `reply` is a `ServiceOpened`, or a `ServiceOpenFailure` with its reason. -/
inductive Action where
  | register (service : String) (accepted : Bool)
  | receive (w : ℕ)
  | timeout (w : ℕ)
  | removeAttempt (w : ℕ)
  | expire (w : ℕ)
  | cancel (w : ℕ)
  | prune (w : ℕ)
  | reply (cid : ℕ) (failure : Option (Option String))
  | drain (reason : String)
  | send (i : ℕ)
  deriving DecidableEq, Repr

def step (s : Opens) : Action → Option Opens
  | .register service accepted => some (s.register service accepted)
  | .receive w => (s.sent.find? (·.waiter == w)).bind fun outcome =>
    s.turn w .waiting fun waiter =>
      s.set w { waiter with stage := .closed, result := some outcome.result }
  | .timeout w => s.turn w .waiting fun waiter => s.set w { waiter with stage := .timedOut }
  | .removeAttempt w => s.turn w .timedOut fun waiter =>
    (s.set w { waiter with stage := .expired }).remove waiter.service waiter.cid
  | .expire w => s.turn w .expired fun waiter =>
    s.set w { waiter with stage := .closed, result := some .timeout }
  | .cancel w => s.turn w .waiting fun waiter => s.set w { waiter with stage := .closed }
  | .prune w => s.turn w .closed fun waiter =>
    (s.set w { waiter with stage := .done }).prune waiter.service waiter.cid
  | .reply cid failure =>
    match s.byService.find? (·.cid == cid) with
    | some attempt => some (s.complete attempt (failure.elim .ok (.openService attempt.service)))
    | none => some s
  | .drain reason => some { s with
      byService := []
      completing := s.completing ++ s.byService.map fun attempt =>
        (attempt, .openService attempt.service (some reason)) }
  | .send i =>
    match s.completing[i]? with
    | some (⟨service, cid, w :: rest⟩, result) => some { s with
        completing := s.completing.set i (⟨service, cid, rest⟩, result)
        -- A send to a receiver that has been dropped is lost.
        sent := if s.isClosed w then s.sent else s.sent ++ [⟨w, cid, result⟩] }
    | _ => none

end Xbbg.ServiceOpens
