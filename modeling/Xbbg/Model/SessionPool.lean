import Mathlib.Data.List.Basic

/-! The pool of subscription sessions, from `engine/subscription_pool.rs`: permits, the idle list,
the registry and the shutdown flag, with every caller between its critical sections. A session is
the number that it is created with. Whether a session is reusable, prepares for reuse or starts at
all is an input of the step that asks. -/

namespace Xbbg.SessionPool

/-- `registered` keeps sessions that the registry prunes once they are dropped. Dropping a
session signals it. -/
structure Shared where
  idle : List ℕ
  registered : List ℕ
  signalled : List ℕ
  shutdown : Bool
  nextId : ℕ
  deriving DecidableEq, Repr

/-- Where the holder of a permit is. `creating` to `spawned` are inside
`spawn_registered_worker`, `chosen` is before the last check of `claim_with_permit` and `cleared`
behind it, and `releasing` is a claim that is dropped, before the lock of `release`. -/
inductive Stage where
  | permit
  | entered
  | creating (id : ℕ)
  | spawning (id : ℕ)
  | spawned (id : ℕ)
  | chosen (id : ℕ)
  | cleared (id : ℕ)
  | claimed (id : ℕ)
  | releasing (id : ℕ)
  | leaving
  deriving DecidableEq, Repr

/-- The session that the holder has or is about to have. -/
def Stage.session : Stage → Option ℕ
  | .creating id | .spawning id | .spawned id | .chosen id | .cleared id | .claimed id
  | .releasing id => some id
  | .permit | .entered | .leaving => none

/-- The registered session that the holder owns. -/
def Stage.handle : Stage → Option ℕ
  | .chosen id | .cleared id | .claimed id | .releasing id => some id
  | _ => none

/-- The session of a claim that has been handed out. -/
def Stage.claim : Stage → Option ℕ
  | .claimed id | .releasing id => some id
  | _ => none

inductive HolderAction where
  | enter
  | pop (reusable : Bool)
  | create
  | start
  | spawn (ok : Bool)
  | register
  | check (reusable : Bool)
  | hand
  | dropClaim (clean reusable : Bool)
  | release (reusable prepared : Bool)
  deriving DecidableEq, Repr

def Shared.signal (s : Shared) (id : ℕ) : Shared :=
  { s with signalled := id :: s.signalled }

/-- One section of `claim_with_permit`, `spawn_registered_worker`, `SessionClaim::drop` and
`release`. -/
def advance (s : Shared) : Stage → HolderAction → Option (Stage × Shared)
  | .permit, .enter => some (if s.shutdown then .leaving else .entered, s)
  | .entered, .pop reusable =>
    match s.idle.getLast? with
    | none => none
    | some id =>
      let popped := { s with idle := s.idle.dropLast }
      some (if reusable then (.chosen id, popped) else (.entered, popped.signal id))
  | .entered, .create =>
    if s.idle = [] then some (.creating s.nextId, { s with nextId := s.nextId + 1 }) else none
  | .creating id, .start => some (if s.shutdown then .leaving else .spawning id, s)
  | .spawning id, .spawn ok => some (if ok then .spawned id else .leaving, s)
  | .spawned id, .register =>
    some (if s.shutdown then (.leaving, s.signal id)
      else (.chosen id, { s with registered := s.registered ++ [id] }))
  | .chosen id, .check reusable =>
    some (if s.shutdown || !reusable then (.leaving, s.signal id) else (.cleared id, s))
  | .cleared id, .hand => some (.claimed id, s)
  -- `clean` is a claim without active keys and outstanding commands.
  | .claimed id, .dropClaim clean reusable =>
    some (if clean && !s.shutdown && reusable then (.releasing id, s) else (.leaving, s.signal id))
  | .releasing id, .release reusable prepared =>
    some (if s.shutdown || !reusable || !prepared then (.leaving, s.signal id)
      else (.leaving, { s with idle := s.idle ++ [id] }))
  | _, _ => none

/-- Where the call of `signal_shutdown` is that has set the flag. -/
inductive Phase where
  | flagged
  | closed
  | listed (workers : List ℕ)
  | drained (workers : List ℕ)
  | done
  deriving DecidableEq, Repr

/-- `returned` records that some call of `signal_shutdown` has returned. -/
structure Pool where
  shared : Shared
  holders : List Stage
  permits : ℕ
  closed : Bool
  phase : Option Phase
  returned : Bool
  deriving DecidableEq, Repr

def Pool.new (size maxSessions : ℕ) : Pool :=
  ⟨⟨List.range size, List.range size, [], false, size⟩, [], maxSessions, false, none, false⟩

/-- Claimed sessions and those being created. -/
def Pool.held (p : Pool) : List ℕ :=
  p.holders.filterMap Stage.session

def Pool.claims (p : Pool) : List ℕ :=
  p.holders.filterMap Stage.claim

/-- Sessions whose handle exists in the idle list or with a holder. -/
def Pool.owned (p : Pool) : List ℕ :=
  p.shared.idle ++ p.holders.filterMap Stage.handle

inductive Action where
  | acquire
  | giveBack (holder : ℕ)
  | holder (holder : ℕ) (a : HolderAction)
  | signalShutdown
  | closeAdmission
  | listWorkers (workers : List ℕ)
  | drainAvailable
  | signalNext
  | finish
  deriving DecidableEq, Repr

/-- A call of `signal_shutdown` that finds the flag set returns at once. Workers that nobody owns
may be left out of its list. -/
def step (p : Pool) : Action → Option Pool
  | .acquire =>
    if p.closed ∨ p.permits = 0 then none
    else some { p with permits := p.permits - 1, holders := p.holders ++ [.permit] }
  | .giveBack i =>
    match p.holders[i]? with
    | some .permit | some .leaving =>
      some { p with permits := p.permits + 1, holders := p.holders.eraseIdx i }
    | _ => none
  | .holder i a =>
    match p.holders[i]? with
    | none => none
    | some stage => (advance p.shared stage a).map fun next =>
      { p with shared := next.2, holders := p.holders.set i next.1 }
  | .signalShutdown =>
    if p.shared.shutdown then some { p with returned := true }
    else some { p with shared := { p.shared with shutdown := true }, phase := some .flagged }
  | .closeAdmission =>
    if p.phase = some .flagged then some { p with closed := true, phase := some .closed } else none
  | .listWorkers workers =>
    if p.phase = some .closed ∧ ∀ id ∈ p.shared.registered, id ∈ p.owned → id ∈ workers then
      some { p with phase := some (.listed workers) }
    else none
  | .drainAvailable =>
    match p.phase with
    | some (.listed workers) => some { p with
        shared := { p.shared with idle := [], signalled := p.shared.idle ++ p.shared.signalled }
        phase := some (.drained workers) }
    | _ => none
  | .signalNext =>
    match p.phase with
    | some (.drained (id :: rest)) =>
      some { p with shared := p.shared.signal id, phase := some (.drained rest) }
    | _ => none
  | .finish =>
    match p.phase with
    | some (.drained []) => some { p with phase := some .done, returned := true }
    | _ => none

end Xbbg.SessionPool
