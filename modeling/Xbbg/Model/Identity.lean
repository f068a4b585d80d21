import Xbbg.Library.Machine
import Xbbg.Model.Dispatch
import Xbbg.Model.Types

/-! Identity authorization of the request worker, from `engine/worker.rs`: the latch of engines
with auth configuration and the classic flow of a token and an authorization request. -/

namespace Xbbg.Identity

open Dispatch Library

/-! ### Calls and messages -/

/-- A call of the SDK, with the number of the attempt that it was issued for. -/
inductive Call where
  | token (attempt : ℕ)
  | authorization (attempt : ℕ)
  | identity (attempt : ℕ)
  deriving DecidableEq, Repr

/-- All calls of a kind share one correlation identifier, whatever the attempt. -/
def Call.correlationId : Call → CorrelationId
  | token _ => .int identityTokenCid
  | authorization _ => .int identityCid
  | identity _ => .int identityCid

inductive EventType where
  | partialResponse
  | response
  | requestStatus
  | authorizationStatus
  | tokenStatus
  deriving DecidableEq, Repr

inductive MessageType where
  | authorizationSuccess
  | authorizationFailure (reason : Option String)
  | authorizationRevoked (reason : Option String)
  | requestFailure (reason : Option String)
  | tokenGenerationSuccess (token : Option String)
  | tokenGenerationFailure (reason : Option String)
  | other
  deriving DecidableEq, Repr

structure Message where
  eventType : EventType
  messageType : MessageType
  correlationIds : List CorrelationId
  deriving DecidableEq, Repr

/-! ### State of the worker -/

/-- What a waiter is sent; `source` is the call whose outcome it is, if it is one. -/
structure Delivery (α : Type) where
  result : Except BlpError α
  source : Option Call

inductive WaiterPhase where
  | waiting
  /-- The timer has fired, the attempt is not failed yet. -/
  | expired
  /-- The attempt is being failed by the waiter. -/
  | failing
  | finished (result : Except BlpError Unit)
  | cancelled

/-- A caller of `ensure_identity`; `attempt` is the attempt that it waits for and `droppedBy` the
call whose outcome dropped its sender. -/
structure Waiter where
  attempt : ℕ := 0
  phase : WaiterPhase := .waiting
  inbox : Option (Delivery Unit) := none
  droppedBy : Option Call := none

/-- The receiver of the waiter is gone. -/
def Waiter.isClosed (w : Waiter) : Bool :=
  match w.phase with
  | .waiting => false
  | .expired => false
  | .failing => false
  | _ => true

inductive ClassicPhase where
  | token
  | tokenExpired
  | tokenReceived (token : String)
  | authorization
  | authorizationExpired
  | finished (result : Except BlpError Unit)

/-- A run of `classic_authorize_blocking` with the receivers of its two steps. -/
structure Classic where
  phase : ClassicPhase := .token
  tokenInbox : Option (Delivery String) := none
  authInbox : Option (Delivery Unit) := none

/-- A pending latch holds its waiters; the attempt that they wait for is kept with them. -/
inductive IdentityAuthState where
  | notRequested
  | pending (waiters : List ℕ) (attempt : ℕ)
  | ready
  | failed (detail : String)
  deriving DecidableEq, Repr

/-- The critical sections of `fail_pending_identity`, in order. -/
inductive AbortStage where
  | check
  | identity
  | token
  | authorization
  deriving DecidableEq, Repr

/-- A running call of `fail_pending_identity`; `owner` is the waiter that made it, if one did. -/
structure Abort where
  reason : String
  owner : Option ℕ
  stage : AbortStage := .check
  deriving DecidableEq, Repr

/-- The waiters and classic attempts so far are numbered. `issued` and `succeeded` record the
calls that were made and the authorizations that the SDK reported to have succeeded. -/
structure Worker where
  authConfigured : Bool
  shuttingDown : Bool
  identity : IdentityAuthState
  pendingToken : Option ℕ
  pendingIdentityAuth : Option ℕ
  waiters : ℕ → Waiter
  waiterCount : ℕ
  classics : ℕ → Classic
  classicCount : ℕ
  aborts : List Abort
  identityCount : ℕ
  issued : List Call
  succeeded : List Call

def shutdownError : BlpError := .internal "request worker is shut down"

/-- An internal error as it is printed. -/
def display (detail : String) : String := "internal error: " ++ detail

/-- The outcome as a waiter is sent it: an error is rebuilt from its printed form. -/
def rebuild : Except String Unit → Except BlpError Unit
  | .ok () => .ok ()
  | .error detail => .error (.internal (display detail))

def hintEntitlementRequirements : BlpError → BlpError
  | .internal detail =>
    .internal (detail ++ " (identity/entitlement checks require EMRS enrollment for " ++
      "Desktop API terminals, or SAPI/B-PIPE authorization via EngineConfig.auth)")
  | error => error

namespace Worker

def start (authConfigured : Bool) : Worker where
  authConfigured := authConfigured
  shuttingDown := false
  identity := .notRequested
  pendingToken := none
  pendingIdentityAuth := none
  waiters _ := {}
  waiterCount := 0
  classics _ := {}
  classicCount := 0
  aborts := []
  identityCount := 0
  issued := []
  succeeded := []

def setWaiter (s : Worker) (w : ℕ) (waiter : Waiter) : Worker :=
  { s with waiters := Function.update s.waiters w waiter }

def setClassic (s : Worker) (n : ℕ) (classic : Classic) : Worker :=
  { s with classics := Function.update s.classics n classic }

/-! ### Outcomes -/

/-- Resolve the latch and notify its waiters; the detail is that of an internal error. -/
def resolveIdentity (s : Worker) (source : Option Call) (outcome : Except String Unit) : Worker :=
  { s with
    identity := match outcome with
      | .ok () => .ready
      | .error detail => .failed (display detail)
    waiters := match s.identity with
      | .pending waiters _ => fun w =>
        if waiters.contains w then { s.waiters w with inbox := some ⟨rebuild outcome, source⟩ }
        else s.waiters w
      | _ => s.waiters }

/-- Send to the waiter of the authorization request, if there is one. -/
def sendAuthorizationOutcome (s : Worker) (delivery : Delivery Unit) : Worker :=
  match s.pendingIdentityAuth with
  | none => s
  | some n =>
    { s.setClassic n { s.classics n with authInbox := some delivery } with
      pendingIdentityAuth := none }

/-- Send to the waiter of the token, if there is one. -/
def sendTokenOutcome (s : Worker) (delivery : Delivery String) : Worker :=
  match s.pendingToken with
  | none => s
  | some n =>
    { s.setClassic n { s.classics n with tokenInbox := some delivery } with
      pendingToken := none }

def failPendingIdentity (s : Worker) (reason : String) (owner : Option ℕ) : Worker :=
  { s with aborts := s.aborts ++ [{ reason, owner }] }

def isPending (s : Worker) : Bool :=
  match s.identity with
  | .pending _ _ => true
  | _ => false

/-- The next critical section of a call of `fail_pending_identity`. The latch is resolved in
another section than the one that found it pending. -/
def continueAbort (s : Worker) (i : ℕ) (abort : Abort) : Worker :=
  match abort.stage with
  | .check =>
    { s with
      aborts := s.aborts.set i
        { abort with stage := if s.isPending then .identity else .token } }
  | .identity =>
    { s.resolveIdentity none (.error ("identity authorization aborted: " ++ abort.reason)) with
      aborts := s.aborts.set i { abort with stage := .token } }
  | .token =>
    { s.sendTokenOutcome ⟨.error (.internal ("identity token generation aborted: " ++
        abort.reason)), none⟩ with
      aborts := s.aborts.set i { abort with stage := .authorization } }
  | .authorization =>
    { s.sendAuthorizationOutcome ⟨.error (.internal ("identity authorization aborted: " ++
        abort.reason)), none⟩ with
      aborts := s.aborts.eraseIdx i }

def resolveIdentityOutcome (s : Worker) (source : Call) (outcome : Except String Unit) : Worker :=
  (s.sendAuthorizationOutcome ⟨rebuild outcome, some source⟩).resolveIdentity (some source) outcome

/-! ### Messages of the SDK -/

def handleTokenStatus (s : Worker) (source : Call) (message : Message) : Worker :=
  if !message.correlationIds.contains (.int identityTokenCid) then s
  else
    match message.messageType with
    | .tokenGenerationSuccess (some token) => s.sendTokenOutcome ⟨.ok token, some source⟩
    | .tokenGenerationSuccess none =>
      s.sendTokenOutcome
        ⟨.error (.internal "TokenGenerationSuccess carried no token element"), some source⟩
    | .tokenGenerationFailure reason =>
      s.sendTokenOutcome
        ⟨.error (.internal ("identity token generation failed: " ++
          reason.getD "TokenGenerationFailure")), some source⟩
    | _ => s

/-- A revocation drops the waiters of a pending latch without notifying them. -/
def revokeIdentity (s : Worker) (source : Call) (reason : Option String) : Worker :=
  { s with
    identity := .failed ("identity authorization revoked: " ++ reason.getD "")
    waiters := match s.identity with
      | .pending waiters _ => fun w =>
        if waiters.contains w then { s.waiters w with droppedBy := some source } else s.waiters w
      | _ => s.waiters }

def handleIdentityAuthorizationMessage (s : Worker) (source : Call) (message : Message) :
    Worker :=
  match message.messageType with
  | .authorizationSuccess =>
    { s with succeeded := source :: s.succeeded }.resolveIdentityOutcome source (.ok ())
  | .authorizationFailure reason =>
    s.resolveIdentityOutcome source
      (.error ("identity authorization failed: " ++ reason.getD "AuthorizationFailure"))
  | .authorizationRevoked reason => s.revokeIdentity source reason
  | _ => s

def isIdentityAuthMessage (message : Message) : Bool :=
  message.correlationIds.contains (.int identityCid)

/-- The part of the dispatcher that is about identities. -/
def dispatchEvent (s : Worker) (source : Call) (message : Message) : Worker :=
  match message.eventType with
  | .tokenStatus => s.handleTokenStatus source message
  | .requestStatus =>
    match message.messageType with
    | .requestFailure reason =>
      if isIdentityAuthMessage message then
        s.resolveIdentityOutcome source
          (.error ("identity authorization request failed: " ++ reason.getD "RequestFailure"))
      else s
    | _ => s
  | _ =>
    if isIdentityAuthMessage message then s.handleIdentityAuthorizationMessage source message
    else s

/-! ### Callers of `ensure_identity` -/

def prunePendingIdentityWaiters (s : Worker) : Worker :=
  match s.identity with
  | .pending waiters attempt =>
    { s with identity := .pending (waiters.filter fun w => !(s.waiters w).isClosed) attempt }
  | _ => s

/-- Return from `ensure_identity`, which drops the receiver. -/
def finishWaiter (s : Worker) (w : ℕ) (phase : WaiterPhase) : Worker :=
  (s.setWaiter w { s.waiters w with phase }).prunePendingIdentityWaiters

/-- Caller `w` starts an attempt; `sdk` is the error of the calls that this makes, if they fail. -/
def generateIdentity (s : Worker) (w : ℕ) (sdk : Option BlpError) : Worker :=
  match sdk with
  | some error => s.setWaiter w { phase := .finished (.error error) }
  | none =>
    { s.setWaiter w { attempt := s.identityCount } with
      identity := .pending [w] s.identityCount
      identityCount := s.identityCount + 1
      issued := s.issued ++ [.identity s.identityCount] }

/-- Caller `w` joins the pending attempt or starts one. -/
def requestIdentity (s : Worker) (w : ℕ) (sdk : Option BlpError) : Worker :=
  if s.shuttingDown then s.setWaiter w { phase := .finished (.error shutdownError) }
  else
    match s.identity with
    | .ready => s.setWaiter w { phase := .finished (.ok ()) }
    | .pending waiters attempt =>
      { s.setWaiter w { attempt := attempt } with
        identity := .pending ((waiters.filter fun w => !(s.waiters w).isClosed) ++ [w]) attempt }
    | .notRequested | .failed _ => s.generateIdentity w sdk

def ensureIdentity (s : Worker) (sdk : Option BlpError) : Worker :=
  { s with waiterCount := s.waiterCount + 1 }.requestIdentity s.waiterCount sdk

/-- The sender of the waiter is still held by the latch. -/
def holdsWaiter (s : Worker) (w : ℕ) : Bool :=
  match s.identity with
  | .pending waiters _ => waiters.contains w
  | _ => false

/-! ### The classic flow -/

def finishClassic (s : Worker) (n : ℕ) (result : Except BlpError Unit) : Worker :=
  s.setClassic n { s.classics n with phase := .finished result }

def setPhase (s : Worker) (n : ℕ) (phase : ClassicPhase) : Worker :=
  s.setClassic n { s.classics n with phase }

/-- Step one of attempt `n`; `sdk` is the error of `generate_token`, if it fails. -/
def requestToken (s : Worker) (n : ℕ) (sdk : Option BlpError) : Worker :=
  if s.shuttingDown then s.setClassic n { phase := .finished (.error shutdownError) }
  else
    match sdk with
    | some error =>
      { s.setClassic n { phase := .finished (.error error) } with pendingToken := none }
    | none =>
      { s.setClassic n {} with
        pendingToken := some n
        issued := s.issued ++ [.token n] }

def classicAuthorize (s : Worker) (sdk : Option BlpError) : Worker :=
  { s with classicCount := s.classicCount + 1 }.requestToken s.classicCount sdk

/-- Step two; `build` is the error of preparing the request and `send` that of sending it. -/
def sendAuthorizationRequest (s : Worker) (n : ℕ) (build send : Option BlpError) : Worker :=
  match build with
  | some error => s.finishClassic n (.error error)
  | none =>
    if s.shuttingDown then s.finishClassic n (.error shutdownError)
    else
      match send with
      | some error => { s.finishClassic n (.error error) with pendingIdentityAuth := none }
      | none =>
        { s.setPhase n .authorization with
          pendingIdentityAuth := some n
          issued := s.issued ++ [.authorization n] }

def receiveToken (s : Worker) (n : ℕ) (result : Except BlpError String) : Worker :=
  match result with
  | .ok token => s.setPhase n (.tokenReceived token)
  | .error error => s.finishClassic n (.error (hintEntitlementRequirements error))

def receiveAuthorization (s : Worker) (n : ℕ) (result : Except BlpError Unit) : Worker :=
  match result with
  | .error error => s.finishClassic n (.error (hintEntitlementRequirements error))
  | .ok () =>
    if s.shuttingDown then s.finishClassic n (.error shutdownError) else s.finishClassic n (.ok ())

end Worker

/-! ### Steps -/

inductive Action where
  | ensureIdentity (sdk : Option BlpError)
  | receive (waiter : ℕ)
  | expire (waiter : ℕ)
  | failExpired (waiter : ℕ)
  | returnTimeout (waiter : ℕ)
  | disconnect (waiter : ℕ)
  | cancel (waiter : ℕ)
  | classicAuthorize (sdk : Option BlpError)
  | receiveToken (attempt : ℕ)
  | expireToken (attempt : ℕ)
  | clearToken (attempt : ℕ)
  | disconnectToken (attempt : ℕ)
  | sendAuthorization (attempt : ℕ) (build send : Option BlpError)
  | receiveAuthorization (attempt : ℕ)
  | expireAuthorization (attempt : ℕ)
  | clearAuthorization (attempt : ℕ)
  | disconnectAuthorization (attempt : ℕ)
  /-- The SDK delivers a message that it produced for a call. -/
  | dispatch (call : Call) (message : Message)
  | shutDown
  /-- The session ends or the worker shuts down. An attempt that starts may have read the flag
  earlier, so this does not wait for `shutDown`. -/
  | failPending (reason : String)
  | continueAbort (call : ℕ)

def dropped (step : String) : BlpError :=
  hintEntitlementRequirements (.internal ("identity " ++ step ++ " dropped without resolution"))

/-- The classic steps of an attempt are taken by its own thread. -/
def stepClassic (s : Worker) (n : ℕ) (classic : Classic) : Action → Option Worker
  | .receiveToken _ =>
    match classic.phase, classic.tokenInbox with
    | .token, some delivery => some (s.receiveToken n delivery.result)
    | _, _ => none
  | .expireToken _ =>
    match classic.phase, classic.tokenInbox with
    | .token, none => some (s.setPhase n .tokenExpired)
    | _, _ => none
  | .clearToken _ =>
    match classic.phase with
    | .tokenExpired =>
      some { s.finishClassic n (.error .timeout) with pendingToken := none }
    | _ => none
  | .disconnectToken _ =>
    match classic.phase, classic.tokenInbox with
    | .token, none =>
      if s.pendingToken = some n then none
      else some (s.finishClassic n (.error (dropped "token generation")))
    | _, _ => none
  | .sendAuthorization _ build send =>
    match classic.phase with
    | .tokenReceived _ => some (s.sendAuthorizationRequest n build send)
    | _ => none
  | .receiveAuthorization _ =>
    match classic.phase, classic.authInbox with
    | .authorization, some delivery => some (s.receiveAuthorization n delivery.result)
    | _, _ => none
  | .expireAuthorization _ =>
    match classic.phase, classic.authInbox with
    | .authorization, none => some (s.setPhase n .authorizationExpired)
    | _, _ => none
  | .clearAuthorization _ =>
    match classic.phase with
    | .authorizationExpired =>
      some { s.finishClassic n (.error .timeout) with pendingIdentityAuth := none }
    | _ => none
  | .disconnectAuthorization _ =>
    match classic.phase, classic.authInbox with
    | .authorization, none =>
      if s.pendingIdentityAuth = some n then none
      else some (s.finishClassic n (.error (dropped "authorization")))
    | _, _ => none
  | _ => none

def stepWaiter (s : Worker) (w : ℕ) (waiter : Waiter) : Action → Option Worker
  | .receive _ =>
    match waiter.phase, waiter.inbox with
    | .waiting, some delivery => some (s.finishWaiter w (.finished delivery.result))
    | _, _ => none
  | .expire _ =>
    match waiter.phase, waiter.inbox with
    | .waiting, none => some (s.setWaiter w { waiter with phase := .expired })
    | _, _ => none
  | .failExpired _ =>
    match waiter.phase with
    | .expired =>
      some ((s.setWaiter w { waiter with phase := .failing }).failPendingIdentity
        "identity authorization timed out" (some w))
    | _ => none
  | .returnTimeout _ =>
    match waiter.phase with
    | .failing =>
      if s.aborts.any fun abort => abort.owner == some w then none
      else some (s.finishWaiter w (.finished (.error .timeout)))
    | _ => none
  | .disconnect _ =>
    match waiter.phase, waiter.inbox with
    | .waiting, none =>
      if s.holdsWaiter w then none
      else some (s.finishWaiter w (.finished (.error
        (.internal "identity authorization dropped without resolution"))))
    | _, _ => none
  | .cancel _ =>
    match waiter.phase with
    | .waiting => some (s.finishWaiter w .cancelled)
    | _ => none
  | _ => none

/-- The flow of a worker is fixed by whether auth is configured. -/
def step (s : Worker) (a : Action) : Option Worker :=
  match a with
  | .ensureIdentity sdk => if s.authConfigured then some (s.ensureIdentity sdk) else none
  | .classicAuthorize sdk => if s.authConfigured then none else some (s.classicAuthorize sdk)
  | .dispatch call message =>
    if s.issued.contains call && message.correlationIds == [call.correlationId] then
      some (s.dispatchEvent call message)
    else none
  | .shutDown => some { s with shuttingDown := true }
  | .failPending reason => some (s.failPendingIdentity reason none)
  | .continueAbort i => s.aborts[i]?.map fun abort => s.continueAbort i abort
  | .receive w | .expire w | .failExpired w | .returnTimeout w | .disconnect w | .cancel w =>
    if w < s.waiterCount then stepWaiter s w (s.waiters w) a else none
  | .receiveToken n | .expireToken n | .clearToken n | .disconnectToken n
  | .sendAuthorization n _ _ | .receiveAuthorization n | .expireAuthorization n
  | .clearAuthorization n | .disconnectAuthorization n =>
    if n < s.classicCount then stepClassic s n (s.classics n) a else none

end Xbbg.Identity
