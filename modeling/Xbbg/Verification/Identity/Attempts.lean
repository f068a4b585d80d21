import Xbbg.Library.Lists
import Xbbg.Model.Identity

/-! Whose outcome an attempt to authorize an identity is completed by. The calls of all attempts
share their correlation identifiers, so the outcome of an earlier attempt is told from that of the
current one by nothing but the time at which it arrives. -/

namespace Xbbg.Identity

open List Dispatch Library

/-! ### Outcomes of the attempt's own calls -/

/-- What the SDK made of the call of a waiter's attempt is all that the waiter is notified of. -/
structure Waiter.Attributed (waiter : Waiter) : Prop where
  sent : ∀ delivery call, waiter.inbox = some delivery → delivery.source = some call →
    call = .identity waiter.attempt
  dropped : ∀ call, waiter.droppedBy = some call → call = .identity waiter.attempt

structure Classic.Attributed (n : ℕ) (classic : Classic) : Prop where
  token : ∀ delivery call, classic.tokenInbox = some delivery → delivery.source = some call →
    call = .token n
  authorization : ∀ delivery call, classic.authInbox = some delivery →
    delivery.source = some call → call = .authorization n

/-- No attempt is completed or failed by the outcome of another attempt's call, and the classic
flow succeeds only with its own authorization. -/
structure Attributed (s : Worker) : Prop where
  waiter : ∀ w, (s.waiters w).Attributed
  classic : ∀ n, (s.classics n).Attributed n
  success : ∀ n, (s.classics n).phase = .finished (.ok ()) → .authorization n ∈ s.succeeded

def latestCall (s : Worker) (cid : CorrelationId) : Option Call :=
  latest Call.correlationId s.issued cid

/-- The outcome of a call arrives before the next call under the same identifier is made. -/
def Timely (s : Worker) : Action → Prop
  | .dispatch call _ => latestCall s call.correlationId = some call
  | _ => True

/-! ### The invariant -/

/-- A success that the classic flow is sent comes from a call that succeeded. -/
structure Classic.Sound (n : ℕ) (succeeded : List Call) (classic : Classic) : Prop
    extends Classic.Attributed n classic where
  granted : ∀ delivery, classic.authInbox = some delivery → delivery.result = .ok () →
    ∃ call ∈ succeeded, delivery.source = some call
  finished : classic.phase = .finished (.ok ()) → .authorization n ∈ succeeded

/-- Whoever holds a slot or waits at the latch made the last call under its identifier. -/
structure Sound (s : Worker) : Prop where
  flow : 0 < s.classicCount → s.authConfigured = false
  tokenSlot : ∀ n, s.pendingToken = some n → latestCall s (.int identityTokenCid) = some (.token n)
  authorizationSlot : ∀ n, s.pendingIdentityAuth = some n → s.authConfigured = false ∧
    latestCall s (.int identityCid) = some (.authorization n)
  latch : ∀ waiters k, s.identity = .pending waiters k → s.authConfigured = true ∧
    latestCall s (.int identityCid) = some (.identity k) ∧
    ∀ w ∈ waiters, w < s.waiterCount ∧ (s.waiters w).attempt = k
  waiter : ∀ w, (s.waiters w).Attributed
  classic : ∀ n, (s.classics n).Sound n s.succeeded

theorem identityCid_ne_identityTokenCid :
    CorrelationId.int identityCid ≠ .int identityTokenCid := by
  decide

theorem Sound.attributed {s : Worker} (h : Sound s) : Attributed s where
  waiter := h.waiter
  classic n := (h.classic n).toAttributed
  success n := (h.classic n).finished

theorem Waiter.attributed_new (attempt : ℕ) (phase : WaiterPhase) :
    Waiter.Attributed { attempt, phase } where
  sent _ _ hinbox := by cases hinbox
  dropped _ hdropped := by cases hdropped

theorem Waiter.Attributed.setPhase {w : Waiter} (h : w.Attributed)
    (phase : WaiterPhase) : Waiter.Attributed { w with phase } :=
  ⟨h.sent, h.dropped⟩

variable {phase : ClassicPhase}

theorem Classic.sound_new (n : ℕ) (succeeded : List Call)
    (hphase : phase ≠ .finished (.ok ())) : Classic.Sound n succeeded { phase } where
  token _ _ hinbox := by cases hinbox
  authorization _ _ hinbox := by cases hinbox
  granted _ hinbox := by cases hinbox
  finished hfinished := absurd hfinished hphase

namespace Sound

theorem start (authConfigured : Bool) : Sound (.start authConfigured) where
  flow hcount := absurd hcount (Nat.lt_irrefl 0)
  tokenSlot _ hslot := by cases hslot
  authorizationSlot _ hslot := by cases hslot
  latch _ _ hlatch := by cases hlatch
  waiter _ := Waiter.attributed_new 0 .waiting
  classic n := Classic.sound_new n [] (by simp)

theorem identity_sendAuthorizationOutcome (s : Worker) (d : Delivery Unit) :
    (s.sendAuthorizationOutcome d).identity = s.identity := by
  unfold Worker.sendAuthorizationOutcome
  split <;> rfl

variable {s : Worker}

/-! ### Single updates -/

variable (h : Sound s)
include h

theorem setWaiter (w : ℕ) {waiter : Waiter} (hw : waiter.Attributed)
    (hlatest : ∀ ws k, s.identity = .pending ws k → w ∈ ws → waiter.attempt = k) :
    Sound (s.setWaiter w waiter) where
  flow := h.flow
  tokenSlot := h.tokenSlot
  authorizationSlot := h.authorizationSlot
  latch ws k hpending := by
    obtain ⟨hauth, hl, ha⟩ := h.latch ws k hpending
    refine ⟨hauth, hl, ?_⟩
    intro v hv
    refine ⟨(ha v hv).1, ?_⟩
    by_cases hsame : v = w
    · subst hsame
      simpa [Worker.setWaiter] using hlatest ws k hpending hv
    · simpa [Worker.setWaiter, hsame] using (ha v hv).2
  waiter v := by
    by_cases hsame : v = w
    · subst hsame
      simpa [Worker.setWaiter] using hw
    · simpa [Worker.setWaiter, hsame] using h.waiter v
  classic := h.classic

theorem setWaiterPhase (w : ℕ) (phase : WaiterPhase) :
    Sound (s.setWaiter w { s.waiters w with phase }) :=
  h.setWaiter w ((h.waiter w).setPhase phase) fun ws k hp hw =>
    ((h.latch ws k hp).2.2 w hw).2

theorem setClassic (n : ℕ) {classic : Classic} (hc : classic.Sound n s.succeeded) :
    Sound (s.setClassic n classic) where
  flow := h.flow
  tokenSlot := h.tokenSlot
  authorizationSlot := h.authorizationSlot
  latch := h.latch
  waiter := h.waiter
  classic m := by
    by_cases hequal : m = n
    · subst hequal
      simpa [Worker.setClassic] using hc
    · simpa [Worker.setClassic, hequal] using h.classic m

theorem setPhase (n : ℕ) (hp : phase ≠ .finished (.ok ())) : Sound (s.setPhase n phase) :=
  h.setClassic n { h.classic n with finished hfinished := absurd hfinished hp }

theorem finishClassic_error (n : ℕ) (e : BlpError) : Sound (s.finishClassic n (.error e)) :=
  h.setPhase n (by simp)

theorem clearToken : Sound { s with pendingToken := none } :=
  { h with tokenSlot := fun _ hs => by cases hs }

theorem clearAuthorization : Sound { s with pendingIdentityAuth := none } :=
  { h with authorizationSlot := fun _ hs => by cases hs }

theorem setAborts (aborts : List Abort) : Sound { s with aborts } :=
  ⟨h.flow, h.tokenSlot, h.authorizationSlot, h.latch, h.waiter, h.classic⟩

theorem shutDown : Sound { s with shuttingDown := true } :=
  ⟨h.flow, h.tokenSlot, h.authorizationSlot, h.latch, h.waiter, h.classic⟩

theorem addWaiter : Sound { s with waiterCount := s.waiterCount + 1 } :=
  { h with
    latch := fun ws k hp => by
      obtain ⟨hauth, hl, ha⟩ := h.latch ws k hp
      exact ⟨hauth, hl, fun w hw => ⟨Nat.lt_succ_of_lt (ha w hw).1, (ha w hw).2⟩⟩ }

theorem addClassic (ha : s.authConfigured = false) :
    Sound { s with classicCount := s.classicCount + 1 } :=
  ⟨fun _ => ha, h.tokenSlot, h.authorizationSlot, h.latch, h.waiter, h.classic⟩

theorem succeed (call : Call) : Sound { s with succeeded := call :: s.succeeded } where
  flow := h.flow
  tokenSlot := h.tokenSlot
  authorizationSlot := h.authorizationSlot
  latch := h.latch
  waiter := h.waiter
  classic n :=
    { h.classic n with
      granted := fun d hi hok => by
        obtain ⟨made, hm, hs⟩ := (h.classic n).granted d hi hok
        exact ⟨made, mem_cons_of_mem _ hm, hs⟩
      finished := fun hp => mem_cons_of_mem _ ((h.classic n).finished hp) }

/-! ### Outcomes -/

theorem sendTokenOutcome (d : Delivery String)
    (hsource : ∀ n call, s.pendingToken = some n → d.source = some call → call = .token n) :
    Sound (s.sendTokenOutcome d) := by
  unfold Worker.sendTokenOutcome
  cases hs : s.pendingToken with
  | none => exact h
  | some n =>
    apply clearToken
    apply h.setClassic
    exact { h.classic n with
      token := fun sent call hi hc => by
        cases hi
        exact hsource n call hs hc }

theorem sendAuthorizationOutcome (d : Delivery Unit)
    (hsource : ∀ n call, s.pendingIdentityAuth = some n → d.source = some call →
      call = .authorization n)
    (hok : d.result = .ok () → ∃ call ∈ s.succeeded, d.source = some call) :
    Sound (s.sendAuthorizationOutcome d) := by
  unfold Worker.sendAuthorizationOutcome
  cases hs : s.pendingIdentityAuth with
  | none => exact h
  | some n =>
    apply clearAuthorization
    apply h.setClassic
    exact { h.classic n with
      authorization := fun sent call hi hc => by
        cases hi
        exact hsource n call hs hc
      granted := fun sent hi hset => by
        cases hi
        exact hok hset }

theorem resolveIdentity (src : Option Call) (out : Except String Unit)
    (horigin : ∀ ws k call, s.identity = .pending ws k → src = some call → call = .identity k) :
    Sound (s.resolveIdentity src out) where
  flow := h.flow
  tokenSlot := h.tokenSlot
  authorizationSlot := h.authorizationSlot
  latch ws k hpending := by
    cases out <;> cases hpending
  waiter w := by
    cases hlatch : s.identity with
    | pending ws k =>
      simp only [Worker.resolveIdentity, hlatch]
      by_cases hw : ws.contains w
      · rw [if_pos hw]
        -- the waiter waits for the attempt of the latch, whose call is the source
        have hattempt := ((h.latch ws k hlatch).2.2 w (contains_iff_mem.mp hw)).2
        refine ⟨fun sent call hinbox hcall => ?_, (h.waiter w).dropped⟩
        cases hinbox
        simpa [hattempt] using horigin ws k call hlatch hcall
      · rw [if_neg hw]
        exact h.waiter w
    | notRequested | ready | failed detail =>
      simpa [Worker.resolveIdentity, hlatch] using h.waiter w
  classic := h.classic

theorem revokeIdentity (src : Call) (reason : Option String)
    (horigin : ∀ ws k, s.identity = .pending ws k → src = .identity k) :
    Sound (s.revokeIdentity src reason) where
  flow := h.flow
  tokenSlot := h.tokenSlot
  authorizationSlot := h.authorizationSlot
  latch ws k hpending := by cases hpending
  waiter w := by
    cases hlatch : s.identity with
    | pending ws k =>
      simp only [Worker.revokeIdentity, hlatch]
      by_cases hw : ws.contains w
      · rw [if_pos hw]
        have hattempt := ((h.latch ws k hlatch).2.2 w (contains_iff_mem.mp hw)).2
        refine ⟨(h.waiter w).sent, fun call hdropped => ?_⟩
        cases hdropped
        simpa [hattempt] using horigin ws k hlatch
      · rw [if_neg hw]
        exact h.waiter w
    | notRequested | ready | failed detail => simpa [Worker.revokeIdentity, hlatch] using h.waiter w
  classic := h.classic

/-! ### Messages of the SDK -/

variable {call : Call} {n : ℕ}

/-- The holder of the token slot made the last token call. -/
theorem eq_token_of_latest (hl : latestCall s (.int identityTokenCid) = some call)
    (hs : s.pendingToken = some n) : call = .token n :=
  Option.some.inj (hl.symm.trans (h.tokenSlot n hs))

theorem eq_authorization_of_latest (hl : latestCall s (.int identityCid) = some call)
    (hs : s.pendingIdentityAuth = some n) : call = .authorization n :=
  Option.some.inj (hl.symm.trans (h.authorizationSlot n hs).2)

variable {ws : List ℕ} {k : ℕ}

theorem eq_identity_of_latest (hl : latestCall s (.int identityCid) = some call)
    (hp : s.identity = .pending ws k) : call = .identity k :=
  Option.some.inj (hl.symm.trans (h.latch ws k hp).2.1)

variable {src : Call}

theorem resolveIdentityOutcome {out : Except String Unit}
    (hl : latestCall s (.int identityCid) = some src) (hok : out = .ok () → src ∈ s.succeeded) :
    Sound (s.resolveIdentityOutcome src out) := by
  have hs : Sound (s.sendAuthorizationOutcome ⟨rebuild out, some src⟩) := by
    apply h.sendAuthorizationOutcome
    · intro n call hslotted hc
      cases hc
      exact h.eq_authorization_of_latest hl hslotted
    · intro hr
      cases out with
      | ok => exact ⟨src, hok rfl, rfl⟩
      | error detail => cases hr
  apply hs.resolveIdentity
  intro ws k call hp hc
  cases hc
  rw [identity_sendAuthorizationOutcome] at hp
  exact h.eq_identity_of_latest hl hp

theorem handleTokenStatus (msg : Message)
    (hl : .int identityTokenCid ∈ msg.correlationIds →
      latestCall s (.int identityTokenCid) = some src) : Sound (s.handleTokenStatus src msg) := by
  unfold Worker.handleTokenStatus
  split
  · exact h
  · rename_i hours
    have hs : ∀ n call, s.pendingToken = some n → some src = some call → call = .token n := by
      intro n call hslotted hc
      cases hc
      exact h.eq_token_of_latest (hl (by simpa using hours)) hslotted
    split
    · exact h.sendTokenOutcome _ hs
    · exact h.sendTokenOutcome _ hs
    · exact h.sendTokenOutcome _ hs
    · exact h

theorem handleIdentityAuthorizationMessage (msg : Message)
    (hl : latestCall s (.int identityCid) = some src) :
    Sound (s.handleIdentityAuthorizationMessage src msg) := by
  unfold Worker.handleIdentityAuthorizationMessage
  split
  · exact (h.succeed src).resolveIdentityOutcome hl fun _ => mem_cons_self
  · exact h.resolveIdentityOutcome hl fun hok => by cases hok
  · exact h.revokeIdentity src _ fun ws k hp =>
      h.eq_identity_of_latest hl hp
  · exact h

theorem dispatchEvent {source : Call} {message : Message}
    (hcids : message.correlationIds = [source.correlationId])
    (hlatest : latestCall s source.correlationId = some source) :
    Sound (s.dispatchEvent source message) := by
  have hl : ∀ cid, cid ∈ message.correlationIds → latestCall s cid = some source := by
    intro cid hc
    rw [hcids, mem_singleton] at hc
    rwa [hc]
  have hidentity : Worker.isIdentityAuthMessage message = true →
      latestCall s (.int identityCid) = some source := by
    intro hours
    exact hl _ (contains_iff_mem.mp hours)
  unfold Worker.dispatchEvent
  split
  · exact h.handleTokenStatus message (hl _)
  · split
    · split
      · rename_i hours
        exact h.resolveIdentityOutcome (hidentity hours) fun hok => by cases hok
      · exact h
    · exact h
  · split
    · rename_i hours
      exact h.handleIdentityAuthorizationMessage message (hidentity hours)
    · exact h

/-! ### Attempts -/

theorem continueAbort (i : ℕ) (abort : Abort) : Sound (s.continueAbort i abort) := by
  unfold Worker.continueAbort
  cases abort.stage with
  | check => exact h.setAborts _
  | identity =>
    apply setAborts
    apply h.resolveIdentity
    intro ws k call _ hc
    cases hc
  | token =>
    apply setAborts
    apply h.sendTokenOutcome
    intro n call _ hc
    cases hc
  | authorization =>
    apply setAborts
    apply h.sendAuthorizationOutcome
    · intro n call _ hc
      cases hc
    · intro hok
      cases hok

theorem filterWaiters (keep : ℕ → Bool) (hp : s.identity = .pending ws k) :
    Sound { s with identity := .pending (ws.filter keep) k } :=
  { h with
    latch := fun kept j hk => by
      obtain ⟨rfl, rfl⟩ := IdentityAuthState.pending.inj hk
      obtain ⟨ha, hl, hall⟩ := h.latch ws k hp
      exact ⟨ha, hl, fun w hw => hall w (mem_of_mem_filter hw)⟩ }

theorem prunePendingIdentityWaiters : Sound s.prunePendingIdentityWaiters := by
  unfold Worker.prunePendingIdentityWaiters
  cases hl : s.identity with
  | pending ws k => exact h.filterWaiters _ hl
  | notRequested => exact h
  | ready => exact h
  | failed detail => exact h

theorem finishWaiter (w : ℕ) (phase : WaiterPhase) : Sound (s.finishWaiter w phase) :=
  (h.setWaiterPhase w phase).prunePendingIdentityWaiters

variable {w : ℕ}

theorem joinLatch (hw : w < s.waiterCount) (keep : ℕ → Bool) (hp : s.identity = .pending ws k) :
    Sound { s.setWaiter w { attempt := k } with
      identity := .pending (ws.filter keep ++ [w]) k } := by
  have hs : Sound (s.setWaiter w { attempt := k }) := by
    apply h.setWaiter w (Waiter.attributed_new k .waiting)
    intro others j ho _
    rw [hp] at ho
    exact (IdentityAuthState.pending.inj ho).2
  refine { hs with latch := fun joined j hj => ?_ }
  obtain ⟨rfl, rfl⟩ := IdentityAuthState.pending.inj hj
  obtain ⟨ha, hl, hall⟩ := hs.latch ws k hp
  refine ⟨ha, hl, fun v hv => ?_⟩
  rcases mem_snoc.mp hv with hold | rfl
  · exact hall v (mem_of_mem_filter hold)
  · exact ⟨hw, by simp [Worker.setWaiter]⟩

/-- A first waiter makes the call of its attempt; no classic attempt holds the slot. -/
theorem openLatch (hw : w < s.waiterCount) (k : ℕ) (ha : s.authConfigured = true)
    (hi : ∀ ws j, s.identity ≠ .pending ws j) :
    Sound { s.setWaiter w { attempt := k } with
      identity := .pending [w] k
      identityCount := s.identityCount + 1
      issued := s.issued ++ [.identity k] } := by
  have hset : Sound (s.setWaiter w { attempt := k }) := by
    apply h.setWaiter w (Waiter.attributed_new k .waiting)
    intro ws j hp
    exact absurd hp (hi ws j)
  refine ⟨hset.flow, fun n hs => ?_, fun n hs => ?_, fun ws j hp => ?_, hset.waiter, hset.classic⟩
  · rw [← h.tokenSlot n hs]
    exact latest_append_of_ne _ _ identityCid_ne_identityTokenCid
  · have hc := (h.authorizationSlot n hs).1
    rw [ha] at hc
    cases hc
  · obtain ⟨rfl, rfl⟩ := IdentityAuthState.pending.inj hp
    refine ⟨ha, latest_append_of_eq Call.correlationId _ (.identity k), fun v hv => ?_⟩
    obtain rfl := mem_singleton.mp hv
    exact ⟨hw, by simp [Worker.setWaiter]⟩

theorem requestIdentity (hw : w < s.waiterCount) (hf : ∀ ws k, s.identity = .pending ws k → w ∉ ws)
    (sdk : Option BlpError) (ha : s.authConfigured = true) : Sound (s.requestIdentity w sdk) := by
  have hr : ∀ res, Sound (s.setWaiter w { phase := .finished res }) := by
    intro res
    apply h.setWaiter w (Waiter.attributed_new 0 _)
    intro ws k hp hm
    exact absurd hm (hf ws k hp)
  have ho : (∀ ws k, s.identity ≠ .pending ws k) → Sound (s.generateIdentity w sdk) := by
    intro hi
    cases sdk with
    | some e => exact hr _
    | none => exact h.openLatch hw s.identityCount ha hi
  unfold Worker.requestIdentity
  split
  · exact hr _
  · cases hl : s.identity with
    | ready => exact hr _
    | pending ws k => exact h.joinLatch hw _ hl
    | notRequested | failed detail => exact ho (by simp [hl])

theorem ensureIdentity (sdk : Option BlpError) (ha : s.authConfigured = true) :
    Sound (s.ensureIdentity sdk) := by
  apply h.addWaiter.requestIdentity (Nat.lt_succ_self _) _ sdk ha
  intro ws k hp hm
  exact absurd ((h.latch ws k hp).2.2 _ hm).1 (Nat.lt_irrefl _)

/-- No waiter is at the latch when the classic flow is in use. -/
theorem not_pending (ha : s.authConfigured = false) (ws : List ℕ) (k : ℕ) :
    s.identity ≠ .pending ws k := by
  intro hp
  have hl := (h.latch ws k hp).1
  rw [ha] at hl
  cases hl

theorem requestToken (n : ℕ) (sdk : Option BlpError) (ha : s.authConfigured = false) :
    Sound (s.requestToken n sdk) := by
  have hr : ∀ e, Sound (s.setClassic n { phase := .finished (.error e) }) := by
    intro e
    exact h.setClassic n (Classic.sound_new n _ (by simp))
  unfold Worker.requestToken
  split
  · exact hr _
  · cases sdk with
    | some e => exact (hr e).clearToken
    | none =>
      have hset : Sound (s.setClassic n {}) := h.setClassic n (Classic.sound_new n _ (by simp))
      refine ⟨hset.flow, fun m hs => ?_, fun m hs => ⟨ha, ?_⟩,
        fun ws k hp => absurd hp (h.not_pending ha ws k),
        hset.waiter, hset.classic⟩
      · cases hs
        exact latest_append_of_eq Call.correlationId _ (.token n)
      · rw [← (h.authorizationSlot m hs).2]
        exact latest_append_of_ne _ _ identityCid_ne_identityTokenCid.symm

theorem sendAuthorizationRequest (n : ℕ) (build send : Option BlpError)
    (ha : s.authConfigured = false) : Sound (s.sendAuthorizationRequest n build send) := by
  unfold Worker.sendAuthorizationRequest
  cases build with
  | some e => exact h.finishClassic_error n e
  | none =>
    dsimp only
    split
    · exact h.finishClassic_error n _
    · cases send with
      | some e => exact (h.finishClassic_error n e).clearAuthorization
      | none =>
        have hset : Sound (s.setPhase n .authorization) := h.setPhase n (by simp)
        refine ⟨hset.flow, fun m hs => ?_, fun m hs => ?_,
          fun ws k hp => absurd hp (h.not_pending ha ws k),
          hset.waiter, hset.classic⟩
        · rw [← h.tokenSlot m hs]
          exact latest_append_of_ne _ _ identityCid_ne_identityTokenCid
        · cases hs
          exact ⟨ha, latest_append_of_eq Call.correlationId _ (.authorization n)⟩

theorem receiveToken (n : ℕ) (res : Except BlpError String) : Sound (s.receiveToken n res) := by
  cases res with
  | ok token => exact h.setPhase n (by simp)
  | error e => exact h.finishClassic_error n _

theorem receiveAuthorization (n : ℕ) {d : Delivery Unit} (hi : (s.classics n).authInbox = some d) :
    Sound (s.receiveAuthorization n d.result) := by
  unfold Worker.receiveAuthorization
  cases hr : d.result with
  | error e => exact h.finishClassic_error n _
  | ok =>
    dsimp only
    split
    · exact h.finishClassic_error n _
    · obtain ⟨call, hc, hs⟩ := (h.classic n).granted d hi hr
      rw [(h.classic n).authorization d call hi hs] at hc
      exact h.setClassic n { h.classic n with finished := fun _ => hc }

/-! ### Steps -/

variable {a : Action} {t : Worker}

theorem stepWaiter (w : ℕ) (hs : stepWaiter s w (s.waiters w) a = some t) : Sound t := by
  cases a
  case receive | cancel =>
    simp only [Identity.stepWaiter] at hs
    split at hs
    · cases hs
      exact h.finishWaiter w _
    · cases hs
  case expire =>
    simp only [Identity.stepWaiter] at hs
    split at hs
    · cases hs
      exact h.setWaiterPhase w _
    · cases hs
  case failExpired =>
    simp only [Identity.stepWaiter] at hs
    split at hs
    · cases hs
      exact (h.setWaiterPhase w _).setAborts _
    · cases hs
  case returnTimeout | disconnect =>
    simp only [Identity.stepWaiter] at hs
    split at hs
    · split at hs
      · cases hs
      · cases hs
        exact h.finishWaiter w _
    · cases hs
  all_goals cases hs

theorem stepClassic (n : ℕ) (ha : s.authConfigured = false)
    (hs : stepClassic s n (s.classics n) a = some t) : Sound t := by
  cases a
  case receiveToken =>
    simp only [Identity.stepClassic] at hs
    split at hs
    · cases hs
      exact h.receiveToken n _
    · cases hs
  case expireToken | expireAuthorization =>
    simp only [Identity.stepClassic] at hs
    split at hs
    · cases hs
      exact h.setPhase n (by simp)
    · cases hs
  case clearToken =>
    simp only [Identity.stepClassic] at hs
    split at hs
    · cases hs
      exact (h.finishClassic_error n _).clearToken
    · cases hs
  case disconnectToken | disconnectAuthorization =>
    simp only [Identity.stepClassic] at hs
    split at hs
    · split at hs
      · cases hs
      · cases hs
        exact h.finishClassic_error n _
    · cases hs
  case sendAuthorization build send =>
    simp only [Identity.stepClassic] at hs
    split at hs
    · cases hs
      exact h.sendAuthorizationRequest n build send ha
    · cases hs
  case receiveAuthorization =>
    simp only [Identity.stepClassic] at hs
    split at hs
    · rename_i hi
      cases hs
      exact h.receiveAuthorization n hi
    · cases hs
  case clearAuthorization =>
    simp only [Identity.stepClassic] at hs
    split at hs
    · cases hs
      exact (h.finishClassic_error n _).clearAuthorization
    · cases hs
  all_goals cases hs

/-- A number in use says which flow the worker runs. -/
theorem auth_of_lt (hn : n < s.classicCount) : s.authConfigured = false :=
  h.flow (Nat.zero_lt_of_lt hn)

theorem step (hok : Timely s a) (hs : step s a = some t) : Sound t := by
  cases a
  case ensureIdentity sdk =>
    simp only [Identity.step] at hs
    split at hs
    · rename_i ha
      cases hs
      exact h.ensureIdentity sdk ha
    · cases hs
  case classicAuthorize sdk =>
    simp only [Identity.step] at hs
    split at hs
    · cases hs
    · rename_i ha
      have ha : s.authConfigured = false := by simpa using ha
      cases hs
      exact (h.addClassic ha).requestToken _ sdk ha
  case dispatch call msg =>
    simp only [Identity.step] at hs
    split at hs
    · rename_i hm
      cases hs
      have hc : msg.correlationIds = [call.correlationId] :=
        beq_iff_eq.mp (Bool.and_eq_true_iff.mp hm).2
      exact h.dispatchEvent hc hok
    · cases hs
  case shutDown =>
    cases hs
    exact h.shutDown
  case failPending reason =>
    cases hs
    exact h.setAborts _
  case continueAbort i =>
    obtain ⟨abort, -, rfl⟩ := Option.map_eq_some_iff.mp hs
    exact h.continueAbort i abort
  all_goals
    simp only [Identity.step] at hs
    split at hs
    · rename_i hn
      first
        | exact h.stepWaiter _ hs
        | exact h.stepClassic _ (h.auth_of_lt hn) hs
    · cases hs

end Sound

/-- In every run of a worker in which each outcome arrives before the next call under its
identifier, attempts are completed by the outcomes of their own calls only. -/
theorem attributed_of_run (authConfigured : Bool) {actions : List Action} {s : Worker}
    (hrun : Run step Timely (.start authConfigured) actions s) : Attributed s := by
  have hsound : Sound s :=
    hrun.invariant (fun _ _ _ h hok hstep => h.step hok hstep) (.start authConfigured)
  exact hsound.attributed

/-! ### Late outcomes -/

def outcomeOf (call : Call) (eventType : EventType) (messageType : MessageType) : Action :=
  .dispatch call ⟨eventType, messageType, [call.correlationId]⟩

def tokenFor (n : ℕ) (token : String) : Action :=
  outcomeOf (.token n) .tokenStatus (.tokenGenerationSuccess (some token))

def authorized (n : ℕ) : Action :=
  outcomeOf (.authorization n) .response .authorizationSuccess

/-- Attempt 0 times out without its token, which attempt 1 receives. Attempt 1 times out without
its authorization, which attempt 2 receives. -/
def lateClassic : List Action :=
  [.classicAuthorize none, .expireToken 0, .clearToken 0,
    .classicAuthorize none, tokenFor 0 "late", .receiveToken 1, .sendAuthorization 1 none none,
    .expireAuthorization 1, .clearAuthorization 1,
    .classicAuthorize none, tokenFor 2 "own", .receiveToken 2, .sendAuthorization 2 none none,
    authorized 1, .receiveAuthorization 2]

/-- The attempt of caller 0 times out; its failure arrives when caller 1 waits for the next. -/
def lateIdentity : List Action :=
  [.ensureIdentity none, .expire 0, .failExpired 0, .continueAbort 0, .continueAbort 0,
    .continueAbort 0, .continueAbort 0, .returnTimeout 0, .ensureIdentity none,
    outcomeOf (.identity 0) .authorizationStatus (.authorizationFailure none), .receive 1]

/-- Outcomes of attempts that have timed out complete and fail later attempts, and the classic flow
succeeds although its own request was never answered. -/
theorem exists_run_confuses_attempts : (∃ s, FreeRun step (.start false) lateClassic s ∧
      (s.classics 0).phase = .finished (.error .timeout) ∧
      (s.classics 1).tokenInbox = some ⟨.ok "late", some (.token 0)⟩ ∧
      (s.classics 1).phase = .finished (.error .timeout) ∧
      (s.classics 2).authInbox = some ⟨.ok (), some (.authorization 1)⟩ ∧
      (s.classics 2).phase = .finished (.ok ()) ∧ .authorization 2 ∉ s.succeeded) ∧
    ∃ s, FreeRun step (.start true) lateIdentity s ∧
      (s.waiters 0).phase = .finished (.error .timeout) ∧ (s.waiters 1).attempt = 1 ∧
      (s.waiters 1).phase = .finished (.error (.internal
        "internal error: identity authorization failed: AuthorizationFailure")) ∧
      (s.waiters 1).inbox.map Delivery.source = some (some (.identity 0)) := by
  constructor
  · exact ⟨_, .of_runActions rfl, rfl, rfl, rfl, rfl, rfl, by decide⟩
  · exact ⟨_, .of_runActions rfl, rfl, rfl, rfl, rfl⟩

/-- A token that arrives late, but before the next attempt asks for its own, does no harm. -/
theorem attributed_of_run_late_token : ∃ s, Run step Timely (.start false)
        [.classicAuthorize none, .expireToken 0, .clearToken 0, tokenFor 0 "late",
          .classicAuthorize none, tokenFor 1 "own", .receiveToken 1,
          .sendAuthorization 1 none none, authorized 1, .receiveAuthorization 1] s ∧
      (s.classics 1).phase = .finished (.ok ()) ∧ Attributed s := by
  exact Run.exists_imp (fun _ hrun hend => ⟨hend, attributed_of_run false hrun⟩)
    ⟨_, .cons trivial rfl (.cons trivial rfl (.cons trivial rfl (.cons rfl rfl (.cons trivial rfl
      (.cons rfl rfl (.cons trivial rfl (.cons trivial rfl (.cons rfl rfl (.cons trivial rfl
        (.nil _)))))))))), rfl⟩

end Xbbg.Identity
