import Xbbg.Library.Lists
import Xbbg.Library.Machine
import Xbbg.Model.FeedSystem

/-! The recovery of a feed after a data loss. `RecoveryStep` says once what a step can do to it;
that no queued resubscribe is forgotten and which paint ends a recovery are read off that. -/

namespace Xbbg.Feed

open List Library FeedState

variable {recovery : Option FeedRecovery} {initpaint : Bool}

/-- The recovery task has left its turn and has not issued its resubscribe yet. -/
def Worker.isSending : Worker → Bool
  | .recoveryCall | .recoveryReady => true
  | _ => false

theorem paintEffect_eq_none (h : paintEffect recovery initpaint = .none) : recovery = none := by
  obtain _ | ⟨stage, restart⟩ := recovery
  · rfl
  · cases stage <;> cases initpaint <;> cases restart <;> cases h

theorem paintEffect_eq_recovered (h : paintEffect recovery initpaint = .recovered) :
    initpaint = true ∧ (recovery = some ⟨.waitingInitialPaint, false⟩ ∨
      ∃ restart, recovery = some ⟨.waitingRestartPaint, restart⟩) := by
  obtain _ | ⟨stage, restart⟩ := recovery
  · simp [paintEffect] at h
  · cases stage <;> cases initpaint <;> cases restart <;> simp_all [paintEffect]

theorem paintEffect_eq_restart (h : paintEffect recovery initpaint = .restart) :
    initpaint = true ∧ recovery = some ⟨.waitingInitialPaint, true⟩ := by
  obtain _ | ⟨stage, restart⟩ := recovery
  · simp [paintEffect] at h
  · cases stage <;> cases initpaint <;> cases restart <;> simp_all [paintEffect]

/-- What a data loss makes of a recovery. -/
def FeedRecovery.afterLoss : Option FeedRecovery → FeedRecovery
  | some recovery =>
    if recovery.stage == .queuedInitial || recovery.stage == .waitingInitialPaint then
      { recovery with restartRequested := true }
    else recovery
  | none => ⟨.queuedInitial, false⟩

variable {ks : List (String × FieldKind)} {fs : List String} {tp : String} {mktdata : Bool}

namespace FeedState

variable {st : FeedState}

/-- Nothing about the recovery or the life of the feed changes. -/
structure SameCourse (st st' : FeedState) : Prop where
  recovery : st'.recovery = st.recovery
  scheduled : st'.recoveryTaskScheduled = st.recoveryTaskScheduled
  lifecycle : st'.lifecycle = st.lifecycle

variable {st' : FeedState}

theorem SameCourse.isDead (h : SameCourse st st') : st'.isDead = st.isDead := by
  rw [FeedState.isDead, FeedState.isDead, h.lifecycle]

theorem sameCourse_seedImageKinds (st : FeedState) (ks : List (String × FieldKind)) :
    SameCourse st (st.seedImageKinds ks) := by
  unfold seedImageKinds
  dsimp only
  split <;> exact ⟨rfl, rfl, rfl⟩

theorem new_course (fs : List String) (ks : List (String × FieldKind)) :
    (new fs ks).recovery = none ∧ (new fs ks).recoveryTaskScheduled = false := by
  unfold new
  have h := fun st => sameCourse_seedImageKinds st ks
  exact ⟨(h _).recovery, (h _).scheduled⟩

/-- The union of fields grows and its kinds are seeded; all else is about the consumers. -/
def Grown (st st' : FeedState) : Prop :=
  ∃ fs ks revision consumers,
    st' = { (st.growUnion fs).2.seedImageKinds ks with revision, consumers }

theorem grown_of_attach {created : Bool} {now : ℤ} {subscriber : Subscriber}
    {accepts growth : Bool} {closed closed' : ℕ → Bool}
    (h : st.attach mktdata created tp now subscriber fs ks accepts closed = some (st',
      closed', growth)) : Grown st st' := by
  unfold attach at h
  split at h
  · cases h
  · obtain ⟨rfl, -⟩ := Prod.mk.inj (Option.some.inj h)
    exact ⟨fs, ks, _, _, rfl⟩

theorem Grown.sameCourse (h : Grown st st') : SameCourse st st' := by
  obtain ⟨fs, ks, revision, consumers, rfl⟩ := h
  have h := sameCourse_seedImageKinds (st.growUnion fs).2 ks
  exact ⟨h.recovery, h.scheduled, h.lifecycle⟩

theorem isDead_onError (st : FeedState) : st.onError.isDead = true := by
  unfold onError
  split
  · assumption
  · rfl

theorem onError_course (st : FeedState) : st.onError.recovery = st.recovery ∧
    st.onError.recoveryTaskScheduled = st.recoveryTaskScheduled := by
  unfold onError
  split <;> exact ⟨rfl, rfl⟩

theorem sameCourse_onStreamAvailability (st : FeedState) (active : Bool) :
    SameCourse st (st.onStreamAvailability active) := by
  unfold onStreamAvailability
  split <;> exact ⟨rfl, rfl, rfl⟩

theorem collectStatus_course (st : FeedState) (change : StatusChange) (closed : ℕ → Bool) :
    ((st.collectStatus change closed).recovery = st.recovery ∨
      (st.collectStatus change closed).recovery = st.subscriptionStarted.recovery) ∧
    (st.collectStatus change closed).recoveryTaskScheduled = st.recoveryTaskScheduled ∧
    (st.isDead = true → (st.collectStatus change closed).isDead = true) := by
  refine ⟨?_, ?_, ?_⟩
  · cases h : change.started
    · exact .inl (by simp [collectStatus, h])
    · exact .inr (by simp [collectStatus, h])
  · cases h : change.started <;> simp [collectStatus, h, subscriptionStarted]
  · intro hd
    cases h : change.terminal || change.sessionEnd
    · simpa [collectStatus, h, isDead] using hd
    · simp [collectStatus, h, isDead]

theorem onUpdate_of_dead (hd : st.isDead = true) (mktdata : Bool) (accepts : ℕ → ℕ → Bool)
    (u : SubscriptionUpdate) (closed : ℕ → Bool) :
    st.onUpdate mktdata accepts u closed = (st, closed, false) := by
  simp [onUpdate, hd]

theorem onUpdate_of_live (hl : st.isDead = false) (mktdata : Bool) (accepts : ℕ → ℕ → Bool)
    (u : SubscriptionUpdate) (closed : ℕ → Bool) :
    st.onUpdate mktdata accepts u closed = let painted := (st.paint mktdata u).1
      let visited := visitConsumers (fun isOpen c => c.onUpdate (st.paint mktdata u).2 isOpen
          (accepts c.owner c.key)) painted.consumers closed
      ({ painted with consumers := visited.1 }, visited.2,
        painted.recoveryTaskScheduled && !st.recoveryTaskScheduled) := by
  simp [onUpdate, hl]

theorem paint_course (st : FeedState) (mktdata : Bool) (u : SubscriptionUpdate) :
    let effect := paintEffect st.recovery (isInitpaint u)
    (st.paint mktdata u).1.recovery = (match effect with
      | .recovered => none
      | .restart => st.recovery.map fun recovery => { recovery with stage := .queuedRestart }
      | _ => st.recovery) ∧
    (st.paint mktdata u).1.recoveryTaskScheduled =
      (st.recoveryTaskScheduled || decide (effect = .restart)) := by
  cases h : paintEffect st.recovery (isInitpaint u) <;>
    simp [paint, h, PaintEffect.isFrozen, store]

theorem onDataLoss_course (hl : st.isDead = false) (closed : ℕ → Bool) :
    let res := st.onDataLoss closed
    (res.1.isDead = true ∧ res.1.recovery = st.recovery ∧
      res.1.recoveryTaskScheduled = st.recoveryTaskScheduled ∧ res.2.2 = false) ∨
    (res.1.recovery = some (.afterLoss st.recovery) ∧
      res.1.recoveryTaskScheduled = (st.recoveryTaskScheduled || res.2.2) ∧
      res.2.2 = ((FeedRecovery.afterLoss st.recovery).stage.isQueued &&
        !st.recoveryTaskScheduled)) := by
  unfold onDataLoss
  simp only [hl, Bool.false_eq_true, if_false]
  split
  · refine .inr ⟨?_, rfl, ?_⟩ <;> cases st.recovery <;> rfl
  · exact .inl ⟨rfl, rfl, rfl, rfl⟩

end FeedState

variable {consumerFields : ℕ → List String} {a : System.Action} {acts : List System.Action}

namespace System

variable {s t : System}

/-- A recovery task is under way or about to be spawned. -/
def Pending (s : System) : Prop :=
  0 < s.schedules ∨ s.workers.any Worker.isRecovery = true

/-- Since the latest data loss a resubscribe was issued or is about to be; a dead feed needs
none. -/
def Resends (s : System) : Prop :=
  s.resubscribed = true ∨ s.workers.any Worker.isSending = true ∨ s.state.isDead = true

/-- A step that leaves a recovery where it is, up to the start of its subscription. -/
structure Quiet (s t : System) : Prop where
  recovery : t.state.recovery = s.state.recovery ∨
    t.state.recovery = s.state.subscriptionStarted.recovery
  scheduled : t.state.recoveryTaskScheduled = s.state.recoveryTaskScheduled
  pending : t.registered = true → s.registered = true ∧ (s.Pending → t.Pending)
  resends : s.Resends → t.Resends
  failed : .recoveryFailed ∈ t.workers → .recoveryFailed ∈ s.workers ∨ t.state.isDead = true
  dead : s.state.isDead = true → t.state.isDead = true

/-- What one step can do to a recovery and to its task. -/
inductive RecoveryStep (s : System) : Action → System → Prop where
  | quiet {a : Action} {t : System} (quiet : Quiet s t) : RecoveryStep s a t
  | restart {update : SubscriptionUpdate} {accepts : ℕ → ℕ → Bool} {t : System}
      (live : s.state.isDead = false) (paint : isInitpaint update = true)
      (before : s.state.recovery = some ⟨.waitingInitialPaint, true⟩)
      (after : t.state.recovery = some ⟨.queuedRestart, true⟩)
      (scheduled : t.state.recoveryTaskScheduled = true)
      (schedules : t.schedules = s.schedules + (!s.state.recoveryTaskScheduled).toNat)
      (workers : t.workers = s.workers) (registered : t.registered = s.registered) :
      RecoveryStep s (.session (.update update accepts)) t
  | recovered {update : SubscriptionUpdate} {accepts : ℕ → ℕ → Bool} {t : System}
      (live : s.state.isDead = false) (paint : isInitpaint update = true)
      (before : s.state.recovery = some ⟨.waitingInitialPaint, false⟩ ∨
        ∃ restart, s.state.recovery = some ⟨.waitingRestartPaint, restart⟩)
      (after : t.state.recovery = none)
      (scheduled : t.state.recoveryTaskScheduled = s.state.recoveryTaskScheduled)
      (schedules : t.schedules = s.schedules)
      (workers : t.workers = s.workers) (registered : t.registered = s.registered) :
      RecoveryStep s (.session (.update update accepts)) t
  | lost {t : System} (live : s.state.isDead = false)
      (after : t.state.recovery = some (.afterLoss s.state.recovery))
      (scheduled : t.state.recoveryTaskScheduled =
        (s.state.recoveryTaskScheduled || (FeedRecovery.afterLoss s.state.recovery).stage.isQueued))
      (schedules : t.schedules = s.schedules +
        ((FeedRecovery.afterLoss s.state.recovery).stage.isQueued &&
          !s.state.recoveryTaskScheduled).toNat)
      (workers : t.workers = s.workers) (registered : t.registered = s.registered) :
      RecoveryStep s (.session .dataLoss) t
  | resume {index : ℕ} {recovery : FeedRecovery} {t : System} (live : s.state.isDead = false)
      (before : s.state.recovery = some recovery) (queued : recovery.stage.isQueued = true)
      (worker : s.workers[index]? = some .recovery)
      (after : ∃ stage, t.state.recovery = some { recovery with stage := stage } ∧
        stage.isQueued = false)
      (schedules : t.schedules = s.schedules)
      (workers : t.workers = s.workers.set index .recoveryCall)
      (lifecycle : t.state.isDead = s.state.isDead) : RecoveryStep s (.worker .turn index) t
  | rest {index : ℕ} {t : System} (after : t.state.recovery = s.state.recovery)
      (waiting : ∀ recovery, s.state.recovery = some recovery → recovery.stage.isQueued = false)
      (scheduled : t.state.recoveryTaskScheduled = false)
      (worker : s.workers[index]? = some .recovery)
      (workers : t.workers = s.workers.eraseIdx index)
      (resubscribed : t.resubscribed = s.resubscribed)
      (lifecycle : t.state.isDead = s.state.isDead) : RecoveryStep s (.worker .turn index) t
  | ended {a : WorkerAction} {index : ℕ} {t : System} (after : t.state.recovery = none)
      (scheduled : t.state.recoveryTaskScheduled = false)
      (reason : s.shutdown = true ∨ s.state.isDead = true ∨ .recoveryFailed ∈ s.workers)
      (workers : t.workers = s.workers.eraseIdx index)
      (lifecycle : t.state.isDead = s.state.isDead) : RecoveryStep s (.worker a index) t

theorem Quiet.of_sameCourse (hs : s.state.SameCourse t.state)
    (hr : t.registered = true → s.registered = true)
    (hsc : t.schedules = s.schedules) (hre : t.resubscribed = s.resubscribed)
    (hwo : t.workers = s.workers ∨ t.workers = s.workers ++ [.growth]) : Quiet s t := by
  have ha : ∀ p : Worker → Bool, s.workers.any p = true → t.workers.any p = true := by
    intro p h
    rcases hwo with hw | hw <;> simp [hw, h]
  refine ⟨.inl hs.recovery, hs.scheduled, fun h => ⟨hr h, ?_⟩, ?_, ?_, ?_⟩
  · exact Or.imp (fun h => hsc ▸ h) (ha _)
  · exact Or.imp (fun h => hre.trans h) (Or.imp (ha _) fun h => hs.isDead.trans h)
  · intro h
    rcases hwo with hw | hw
    · exact .inl (hw ▸ h)
    · exact .inl (by simpa [hw] using h)
  · exact fun h => hs.isDead.trans h

theorem Quiet.of_dead (hr : t.state.recovery = s.state.recovery)
    (hs : t.state.recoveryTaskScheduled = s.state.recoveryTaskScheduled)
    (hp : t.registered = true → s.registered = true ∧ (s.Pending → t.Pending))
    (hd : t.state.isDead = true) : Quiet s t :=
  ⟨.inl hr, hs, hp, fun _ => .inr (.inr hd), fun _ => .inr hd, fun _ => hd⟩

theorem recoveryStep_update {u : SubscriptionUpdate} {accepts : ℕ → ℕ → Bool}
    (h : s.stepSession (.update u accepts) = some t) :
    RecoveryStep s (.session (.update u accepts)) t := by
  simp only [stepSession] at h
  split at h
  case isFalse => cases h
  case isTrue =>
    cases h
    cases hd : s.state.isDead with
    | true =>
      rw [onUpdate_of_dead hd]
      exact .quiet (.of_sameCourse ⟨rfl, rfl, rfl⟩ id rfl rfl (.inl rfl))
    | false =>
      have hc := s.state.paint_course s.mktdata u
      rw [onUpdate_of_live hd]
      cases he : paintEffect s.state.recovery (isInitpaint u) with
      | none | held =>
        rw [he] at hc
        apply RecoveryStep.quiet
        refine ⟨.inl hc.1, by simpa using hc.2, ?_, ?_, .inl, by simp [hd]⟩
        · exact fun h => ⟨h, Or.imp (fun hpo => Nat.lt_add_right _ hpo) fun ha => ha⟩
        · rintro (h | h | h)
          · exact .inl h
          · exact .inr (.inl h)
          · simp [hd] at h
      | restart =>
        obtain ⟨hp, hb⟩ := paintEffect_eq_restart he
        rw [he] at hc
        refine .restart hd hp hb ?_ ?_ ?_ rfl rfl
        · simp [hc.1, hb]
        · simp [hc.2]
        · simp [hc.2]
      | recovered =>
        obtain ⟨hp, hb⟩ := paintEffect_eq_recovered he
        rw [he] at hc
        refine .recovered hd hp hb hc.1 ?_ ?_ rfl rfl
        · simp [hc.2]
        · simp [hc.2]

theorem recoveryStep_dataLoss (h : s.stepSession .dataLoss = some t) :
    RecoveryStep s (.session .dataLoss) t := by
  simp only [stepSession] at h
  split at h
  case isFalse => cases h
  case isTrue =>
    cases h
    cases hd : s.state.isDead with
    | true =>
      have hsa : s.state.onDataLoss s.closed = (s.state, s.closed, false) := by
        simp [onDataLoss, hd]
      apply RecoveryStep.quiet
      refine .of_dead ?_ ?_ ?_ ?_ <;> simp [hsa, hd, Pending]
    | false =>
      rcases onDataLoss_course hd s.closed with
        ⟨hd', hr, hs, hsc⟩ | ⟨hr, hs, hsc⟩
      · apply RecoveryStep.quiet
        refine .of_dead hr hs (fun h => ⟨h, ?_⟩) hd'
        simp [Pending, hsc]
      · refine .lost hd hr ?_ ?_ rfl rfl
        · rw [hs, hsc]
          cases s.state.recoveryTaskScheduled <;> simp
        · rw [hsc]

theorem recoveryStep_session {a : SessionAction} (h : s.stepSession a = some t) :
    RecoveryStep s (.session a) t := by
  cases a with
  | update u accepts => exact recoveryStep_update h
  | dataLoss => exact recoveryStep_dataLoss h
  | error =>
    cases h
    have hc := s.state.onError_course
    exact .quiet (.of_dead hc.1 hc.2 (fun h => ⟨h, id⟩) s.state.isDead_onError)
  | fieldError element scalar =>
    cases h
    exact .quiet (.of_sameCourse ⟨rfl, rfl, rfl⟩ id rfl rfl (.inl rfl))
  | streamAvailability active =>
    cases h
    exact .quiet
      (.of_sameCourse (s.state.sameCourse_onStreamAvailability active) id rfl rfl (.inl rfl))
  | status change =>
    cases h
    obtain ⟨hr, hs, hd⟩ := s.state.collectStatus_course change s.closed
    exact .quiet ⟨hr, hs, fun h => ⟨h, id⟩, Or.imp id (Or.imp id hd), .inl, hd⟩

theorem recoveryStep_hub {a : HubAction} (h : s.stepHub a = some t) :
    RecoveryStep s (.hub a) t := by
  apply RecoveryStep.quiet
  cases a with
  | attach subscriber ks now accepts =>
    simp only [stepHub] at h
    split at h
    · cases h
    · obtain ⟨⟨st, closed, growth⟩, hatt, rfl⟩ := Option.map_eq_some_iff.mp h
      refine .of_sameCourse (grown_of_attach hatt).sameCourse id rfl rfl ?_
      dsimp only
      split
      · exact .inr rfl
      · exact .inl rfl
  | addFields owner fs ks now accepts =>
    simp only [stepHub] at h
    split at h
    · cases h
    · cases h
      refine .of_sameCourse (Grown.sameCourse ⟨_, _, _, _, rfl⟩) id rfl rfl ?_
      dsimp only
      split
      · exact .inr rfl
      · exact .inl rfl
  | detach owner key | cleanup | closeStream owner | shutdown =>
    cases h
    exact .of_sameCourse ⟨rfl, rfl, rfl⟩ id rfl rfl (.inl rfl)
  | unregister =>
    simp only [stepHub] at h
    split at h
    · cases h
      exact .of_sameCourse ⟨rfl, rfl, rfl⟩ (by simp) rfl rfl (.inl rfl)
    · cases h
  | closeFeed =>
    simp only [stepHub] at h
    split at h
    · cases h
    · cases h
      exact .of_dead rfl rfl (fun h => ⟨h, id⟩) rfl
  | schedule =>
    simp only [stepHub] at h
    split at h
    · cases h
    · cases h
      refine ⟨.inl rfl, rfl, fun hr => ⟨hr, fun _ => .inr ?_⟩, ?_, ?_, id⟩
      · simp [show s.registered = true from hr, Worker.isRecovery]
      · refine Or.imp id (Or.imp (fun ha => ?_) id)
        dsimp only
        split <;> simp [ha]
      · dsimp only
        split <;> simp +contextual
  | scheduleOther =>
    simp only [stepHub] at h
    split at h
    · cases h
      refine ⟨.inl rfl, rfl, fun hr => ⟨hr, fun _ => .inr ?_⟩, ?_, ?_, id⟩
      · simp [Worker.isRecovery]
      · exact Or.imp id (Or.imp (fun ha => by simp [ha]) id)
      · simp +contextual
    · cases h

theorem recoveryStep_turn {i : ℕ} (hw : s.workers[i]? = some .recovery) :
    RecoveryStep s (.worker .turn i)
      { s with
        state := (s.state.recoveryTurn s.shutdown).1
        workers := if (s.state.recoveryTurn s.shutdown).2 then s.workers.set i .recoveryCall
          else s.workers.eraseIdx i } := by
  cases ho : s.shutdown || s.state.isDead with
  | true =>
    have hra : s.shutdown = true ∨ s.state.isDead = true := by simpa using ho
    have ht : s.state.recoveryTurn s.shutdown = (s.state.abandonRecovery, false) := by
      simp [recoveryTurn, abandonRecovery, hra]
    rw [ht]
    exact .ended rfl rfl (hra.imp id .inl) rfl rfl
  | false =>
    have hd : s.state.isDead = false := by simp_all
    cases hre : s.state.recovery with
    | none =>
      have ht : s.state.recoveryTurn s.shutdown =
          ({ s.state with recoveryTaskScheduled := false }, false) := by
        simp [recoveryTurn, ho, hre]
      rw [ht]
      exact .rest rfl (by simp [hre]) rfl hw rfl rfl rfl
    | some recovery =>
      cases hq : recovery.stage.isQueued with
      | true =>
        obtain ⟨stage, ht, hs⟩ : ∃ stage, s.state.recoveryTurn s.shutdown =
            ({ s.state with recovery := some { recovery with stage := stage } }, true) ∧
            stage.isQueued = false := by
          obtain ⟨stage, restart⟩ := recovery
          cases stage with
          | queuedInitial =>
            exact ⟨.waitingInitialPaint, by simp [recoveryTurn, ho, hre], rfl⟩
          | queuedRestart =>
            exact ⟨.waitingRestartStart, by simp [recoveryTurn, ho, hre], rfl⟩
          | waitingInitialPaint | waitingRestartStart | waitingRestartPaint => cases hq
        rw [ht]
        exact .resume hd hre hq hw ⟨stage, rfl, hs⟩ rfl rfl rfl
      | false =>
        have ht : s.state.recoveryTurn s.shutdown =
            ({ s.state with recoveryTaskScheduled := false }, false) := by
          obtain ⟨stage, restart⟩ := recovery
          cases stage with
          | queuedInitial | queuedRestart => cases hq
          | waitingInitialPaint | waitingRestartStart | waitingRestartPaint =>
            simp [recoveryTurn, ho, hre]
        rw [ht]
        refine .rest rfl ?_ rfl hw rfl rfl rfl
        intro r hr
        obtain rfl : recovery = r := by simpa [hre] using hr
        exact hq

theorem Quiet.of_workers (hs : s.state.SameCourse t.state)
    (hr : t.registered = s.registered) (hsc : t.schedules = s.schedules)
    (ha : t.workers.any Worker.isRecovery = s.workers.any Worker.isRecovery)
    (hf : .recoveryFailed ∈ t.workers → .recoveryFailed ∈ s.workers)
    (hre : s.Resends → t.Resends) : Quiet s t := by
  refine ⟨.inl hs.recovery, hs.scheduled, fun h => ⟨hr ▸ h, ?_⟩, hre,
    fun h => .inl (hf h), fun h => hs.isDead.trans h⟩
  rw [Pending, Pending, hsc, ha]
  exact id

theorem recoveryStep_worker {a : WorkerAction} {i : ℕ} (h : s.stepWorker a i = some t) :
    RecoveryStep s (.worker a i) t := by
  have hs : ∀ {worker : Worker}, .recoveryFailed ∈ s.workers.set i worker →
      worker ≠ .recoveryFailed → .recoveryFailed ∈ s.workers := by
    intro worker hm hne
    exact (mem_or_eq_of_mem_set hm).resolve_right hne.symm
  unfold stepWorker at h
  split at h
  case h_1 hw =>
    cases h
    exact recoveryStep_turn hw
  case h_2 hw =>
    cases h
    apply RecoveryStep.quiet
    refine .of_workers ⟨rfl, rfl, rfl⟩ rfl rfl (any_set hw rfl) (fun h => hs h (by decide)) ?_
    exact Or.imp id (Or.imp (fun h => (any_set (b := .growthReady) hw rfl).trans h) id)
  case h_3 hw =>
    cases h
    apply RecoveryStep.quiet
    refine .of_workers ⟨rfl, rfl, rfl⟩ rfl rfl (any_set hw rfl) (fun h => hs h (by decide)) ?_
    exact Or.imp id (Or.imp (fun h => (any_set (b := .recoveryReady) hw rfl).trans h) id)
  case h_4 hw =>
    cases h
    apply RecoveryStep.quiet
    exact .of_workers ⟨rfl, rfl, rfl⟩ rfl rfl (any_eraseIdx hw rfl)
      mem_of_mem_eraseIdx fun _ => .inl rfl
  case h_5 hw =>
    cases h
    have hc := s.state.onError_course
    refine .quiet (.of_dead hc.1 hc.2 (fun h => ⟨h, ?_⟩) s.state.isDead_onError)
    exact Or.imp id fun h => (any_eraseIdx hw rfl).trans h
  case h_6 hw =>
    cases h
    apply RecoveryStep.quiet
    exact .of_workers ⟨rfl, rfl, rfl⟩ rfl rfl (any_set hw rfl) (fun h => hs h (by decide))
      fun _ => .inl rfl
  case h_7 hw =>
    cases h
    have hc := s.state.onError_course
    refine .quiet (.of_dead hc.1 hc.2 (fun h => ⟨h, ?_⟩) s.state.isDead_onError)
    exact Or.imp id fun h => (any_set (b := .recoveryFailed) hw rfl).trans h
  case h_8 hw =>
    cases h
    exact .ended rfl rfl (.inr (.inr (mem_of_getElem? hw))) rfl rfl
  case h_9 => cases h

theorem recoveryStep_of_step (h : s.step a = some t) : RecoveryStep s a t := by
  cases a with
  | session a => exact recoveryStep_session (act_of_step h)
  | hub a => exact recoveryStep_hub (act_of_step h)
  | worker a i => exact recoveryStep_worker (act_of_step h)

theorem Quiet.exists_of_recovery (h : Quiet s t) {after : FeedRecovery}
    (ha : t.state.recovery = some after) : ∃ before, s.state.recovery = some before ∧
      after.restartRequested = before.restartRequested ∧ (after.stage = before.stage ∨
        before.stage = .waitingRestartStart ∧ after.stage = .waitingRestartPaint) := by
  rcases h.recovery with hsa | hs
  · exact ⟨after, hsa ▸ ha, rfl, .inl rfl⟩
  · rw [ha] at hs
    obtain ⟨before, hb, rfl⟩ := Option.map_eq_some_iff.mp hs.symm
    refine ⟨before, hb, ?_, ?_⟩
    · split <;> rfl
    · split
      · rename_i hst
        exact .inr ⟨hst, rfl⟩
      · exact .inl rfl

theorem Quiet.recovery_eq_none_iff (h : Quiet s t) :
    t.state.recovery = none ↔ s.state.recovery = none := by
  rcases h.recovery with hs | hst
  · rw [hs]
  · rw [hst, subscriptionStarted, Option.map_eq_none_iff]

/-- A queued recovery has its task, and a failed resubscribe has killed the feed. -/
structure Tasks (s : System) : Prop where
  queued : ∀ recovery, s.state.recovery = some recovery → recovery.stage.isQueued = true →
    s.state.recoveryTaskScheduled = true
  pending : s.state.recoveryTaskScheduled = true → s.registered = true → s.Pending
  failed : .recoveryFailed ∈ s.workers → s.state.isDead = true

theorem tasks_new (mktdata : Bool) (tp : String) (fs : List String)
    (ks : List (String × FieldKind)) (consumerFields : ℕ → List String) :
    Tasks (new mktdata tp fs ks consumerFields) := by
  obtain ⟨hr, hs⟩ := new_course fs ks
  refine ⟨fun recovery h => ?_, fun h => ?_, by simp [new]⟩
  · cases hr.symm.trans h
  · cases hs.symm.trans h

theorem Tasks.step (hs : Tasks s) (h : RecoveryStep s a t) : Tasks t := by
  cases h with
  | quiet quiet =>
    refine ⟨?_, ?_, ?_⟩
    · intro after ha hq
      obtain ⟨before, hbef, -, hst | ⟨-, hst⟩⟩ := quiet.exists_of_recovery ha
      · exact quiet.scheduled.trans (hs.queued before hbef (hst ▸ hq))
      · rw [hst] at hq
        cases hq
    · intro hsc hr
      obtain ⟨hr', hp⟩ := quiet.pending hr
      exact hp (hs.pending (quiet.scheduled ▸ hsc) hr')
    · intro hm
      rcases quiet.failed hm with hm | hd
      · exact quiet.dead (hs.failed hm)
      · exact hd
  | restart live paint before after scheduled schedules workers registered =>
    refine ⟨fun _ _ _ => scheduled, fun _ hr => ?_, fun hm => ?_⟩
    · cases hf : s.state.recoveryTaskScheduled with
      | true =>
        have hp := hs.pending hf (registered ▸ hr)
        simpa [Pending, schedules, workers, hf] using hp
      | false => exact .inl (by simp [schedules, hf])
    · exact absurd (hs.failed (workers ▸ hm)) (by simp [live])
  | recovered live paint before after scheduled schedules workers registered =>
    refine ⟨by simp [after], fun hsc hr => ?_, fun hm => ?_⟩
    · rw [Pending, schedules, workers]
      exact hs.pending (scheduled ▸ hsc) (registered ▸ hr)
    · exact absurd (hs.failed (workers ▸ hm)) (by simp [live])
  | lost live after scheduled schedules workers registered =>
    refine ⟨?_, fun hsc hr => ?_, fun hm => ?_⟩
    · intro recovery hre hq
      obtain rfl : FeedRecovery.afterLoss s.state.recovery = recovery := by
        simpa [after] using hre
      simp [scheduled, hq]
    · cases hf : s.state.recoveryTaskScheduled with
      | true =>
        have hp := hs.pending hf (registered ▸ hr)
        simpa [Pending, schedules, workers, hf] using hp
      | false =>
        rw [scheduled, hf, Bool.false_or] at hsc
        exact .inl (by simp [schedules, hsc, hf])
    · exact absurd (hs.failed (workers ▸ hm)) (by simp [live])
  | resume live before queued worker after schedules workers lifecycle =>
    obtain ⟨stage, ha, hst⟩ := after
    refine ⟨?_, fun _ _ => ?_, ?_⟩
    · intro recovery hre hq
      rw [ha] at hre
      cases hre
      rw [hst] at hq
      cases hq
    · have han : s.workers.any Worker.isRecovery = true :=
        any_eq_true.mpr ⟨_, mem_of_getElem? worker, rfl⟩
      exact .inr (by rw [workers, any_set (b := .recoveryCall) worker rfl, han])
    · intro hm
      rw [workers] at hm
      rcases mem_or_eq_of_mem_set hm with hm | heq
      · exact lifecycle.trans (hs.failed hm)
      · cases heq
  | rest after waiting scheduled worker workers resubscribed lifecycle =>
    refine ⟨?_, fun h => ?_, fun hm => ?_⟩
    · intro recovery hre hq
      rw [waiting recovery (after ▸ hre)] at hq
      cases hq
    · simp [scheduled] at h
    · exact lifecycle.trans (hs.failed (mem_of_mem_eraseIdx (workers ▸ hm)))
  | ended after scheduled reason workers lifecycle =>
    refine ⟨by simp [after], fun h => ?_, fun hm => ?_⟩
    · simp [scheduled] at h
    · exact lifecycle.trans (hs.failed (mem_of_mem_eraseIdx (workers ▸ hm)))

theorem tasks_of_run {ok : System → Action → Prop}
    (h : Run step ok (new mktdata tp fs ks consumerFields) acts s) : Tasks s := by
  have hst : ∀ s a t, Tasks s → ok s a → s.step a = some t → Tasks t :=
    fun _ _ _ hs _ h => hs.step (recoveryStep_of_step h)
  exact h.invariant hst (tasks_new mktdata tp fs ks consumerFields)

end System

/-- The next paint of a started subscription ends the recovery. -/
def FeedRecovery.endsNext (recovery : FeedRecovery) : Bool :=
  match recovery.stage with
  | .waitingInitialPaint => !recovery.restartRequested
  | .waitingRestartStart | .waitingRestartPaint => true
  | .queuedInitial | .queuedRestart => false

namespace System

/-- No data loss arrives while a restart waits to start or for its paint, and no paint ends the
recovery while its task has not issued the resubscribe of its turn. -/
def PaintsInOrder (s : System) : Action → Prop
  | .session (.update update _) =>
    paintEffect s.state.recovery (isInitpaint update) = .recovered →
      s.workers.any Worker.isSending = false
  | .session .dataLoss => ∀ recovery, s.state.recovery = some recovery →
      recovery.stage ≠ .waitingRestartStart ∧ recovery.stage ≠ .waitingRestartPaint
  | _ => True

/-- A recovery that its next paint ends is newer than the latest data loss. -/
def Fresh (s : System) : Prop :=
  ∀ recovery, s.state.recovery = some recovery → recovery.endsNext = true → s.Resends

theorem endsNext_afterLoss {before : Option FeedRecovery} (h : ∀ recovery, before = some recovery →
      recovery.stage ≠ .waitingRestartStart ∧ recovery.stage ≠ .waitingRestartPaint) :
    (FeedRecovery.afterLoss before).endsNext = false := by
  obtain _ | ⟨stage, restart⟩ := before
  · rfl
  · have hs := h _ rfl
    cases stage <;> first | rfl | simp at hs

theorem Fresh.step {s t : System} (hs : Fresh s) (hok : PaintsInOrder s a)
    (h : RecoveryStep s a t) : Fresh t := by
  intro recovery hr he
  cases h with
  | quiet quiet =>
    obtain ⟨before, hb, hre, hst⟩ := quiet.exists_of_recovery hr
    apply quiet.resends
    apply hs before hb
    obtain ⟨stage, restart⟩ := before
    obtain ⟨stage', restart'⟩ := recovery
    rcases hst with rfl | ⟨rfl, -⟩
    · obtain rfl := hre
      exact he
    · rfl
  | restart live paint before after scheduled schedules workers registered =>
    obtain rfl := Option.some.inj (after.symm.trans hr)
    cases he
  | recovered live paint before after scheduled schedules workers registered
  | ended after scheduled reason workers lifecycle => cases after.symm.trans hr
  | lost live after scheduled schedules workers registered =>
    obtain rfl := Option.some.inj (after.symm.trans hr)
    rw [endsNext_afterLoss hok] at he
    cases he
  | resume live before queued worker after schedules workers lifecycle =>
    have hm : Worker.recoveryCall ∈ t.workers := by
      rw [workers]
      exact List.mem_set (List.getElem?_eq_some_iff.mp worker).1 _
    exact .inr (.inl (any_eq_true.mpr ⟨_, hm, rfl⟩))
  | rest after waiting scheduled worker workers resubscribed lifecycle =>
    have hrs := hs recovery (after ▸ hr) he
    rw [Resends, resubscribed, workers, any_eraseIdx worker rfl, lifecycle]
    exact hrs

theorem fresh_of_run
    {s : System} (h : Run step PaintsInOrder (new mktdata tp fs ks consumerFields) acts s) :
    Fresh s := by
  have hst : ∀ s a t, Fresh s → PaintsInOrder s a → s.step a = some t → Fresh t :=
    fun _ _ _ hs hok h => hs.step hok (recoveryStep_of_step h)
  refine h.invariant hst fun recovery hr => ?_
  cases (new_course fs ks).1.symm.trans hr

/-- In a run that meets `PaintsInOrder`, a live feed leaves its recovery only with a paint that
arrives after a resubscribe which was issued after the latest data loss. -/
theorem recovered_of_run {mktdata : Bool} {topic : String} {fields : List String}
    {kinds : List (String × FieldKind)} {consumerFields : ℕ → List String} {actions : List Action}
    {s t : System} {a : Action}
    (h : Run step PaintsInOrder (new mktdata topic fields kinds consumerFields) actions s)
    (hok : PaintsInOrder s a) (hs : s.step a = some t)
    (hlive : s.state.isDead = false) (hshutdown : s.shutdown = false)
    (hbefore : s.state.recovery.isSome = true) (hafter : t.state.recovery = none) :
    ∃ update accepts, a = .session (.update update accepts) ∧ isInitpaint update = true ∧
      s.resubscribed = true := by
  cases recoveryStep_of_step hs with
  | quiet quiet => simp [quiet.recovery_eq_none_iff.mp hafter] at hbefore
  | restart live paint before after scheduled schedules workers registered
  | lost live after scheduled schedules workers registered => cases after.symm.trans hafter
  | @recovered update accepts _ live paint before after scheduled schedules workers registered =>
    have hresends : s.Resends := by
      rcases before with hbefore | ⟨restart, hbefore⟩
      · exact fresh_of_run h _ hbefore rfl
      · exact fresh_of_run h _ hbefore rfl
    have heffect : paintEffect s.state.recovery (isInitpaint update) = .recovered := by
      rcases before with hbefore | ⟨restart, hbefore⟩ <;> simp [hbefore, paint, paintEffect]
    refine ⟨update, accepts, rfl, paint, ?_⟩
    rcases hresends with hresubscribed | hsending | hdead
    · exact hresubscribed
    · simp [hok heffect] at hsending
    · simp [hlive] at hdead
  | resume live before queued worker after schedules workers lifecycle =>
    obtain ⟨stage, hstage, -⟩ := after
    cases hstage.symm.trans hafter
  | rest after waiting scheduled worker workers resubscribed lifecycle =>
    simp [after.symm.trans hafter] at hbefore
  | ended after scheduled reason workers lifecycle =>
    rcases reason with hreason | hreason | hreason
    · simp [hshutdown] at hreason
    · simp [hlive] at hreason
    · simp [(tasks_of_run h).failed hreason] at hlive

def viewer : FeedState.Subscriber where
  owner := 0
  key := 0
  imageDelivery := true
  allFields := false
  delayedPolicy := .ignore
  fieldErrorPolicy := .ignore

def viewedFeed : System := new true "IBM" ["LAST_PRICE"] [] fun _ => ["LAST_PRICE"]

def initialPaint : SubscriptionUpdate where
  timestampUs := 0
  topicId := 0
  topic := "IBM"
  layout := ⟨1, [⟨eventSubtype, 0, .str, false⟩, ⟨"LAST_PRICE", 1, .i64, false⟩]⟩
  values := [⟨0, .str "INITPAINT"⟩, ⟨1, .i64 7⟩]

private def subscriptionStart : FeedState.StatusChange where
  started := true
  topicChanged := true
  terminal := false
  sessionEnd := false
  availability := none
  fieldErrors := none
  target := none

def lossAndRestart : List Action :=
  [.session .dataLoss, .hub .schedule, .worker .turn 0, .worker .prepare 0, .worker (.send true) 0,
    .worker .turn 0]

/-- A loss, its resubscribe and the paint that ends the recovery. -/
theorem recovered_of_run_repainted : ∃ actions s t, Run step PaintsInOrder viewedFeed actions s ∧
      s.step (.session (.update initialPaint fun _ _ => true)) = some t ∧
      t.state.recovery = none ∧ s.resubscribed = true := by
  have hrun : Run step PaintsInOrder viewedFeed
      (.hub (.attach viewer [] 0 true) :: lossAndRestart) _ :=
    .cons trivial rfl (.cons (by rintro _ ⟨⟩) rfl (.cons trivial rfl
      (.cons trivial rfl (.cons trivial rfl (.cons trivial rfl (.cons trivial rfl (.nil _)))))))
  have hpaint := recovered_of_run (a := .session (.update initialPaint fun _ _ => true)) hrun
    (fun _ => rfl) rfl rfl rfl rfl rfl
  obtain ⟨_, _, _, _, hresubscribed⟩ := hpaint
  exact ⟨_, _, _, hrun, rfl, rfl, hresubscribed⟩

/-- A loss that arrives while the restart of an earlier one waits to start is forgotten: the
paint of that restart ends the recovery, although no resubscribe was issued since the loss. -/
theorem exists_run_superseded_paint : ∃ actions s t, FreeRun step viewedFeed actions s ∧
      s.step (.session (.update initialPaint fun _ _ => true)) = some t ∧
      s.state.isDead = false ∧ s.shutdown = false ∧ s.state.recovery.isSome = true ∧
      t.state.recovery = none ∧ s.resubscribed = false := by
  have hrun : FreeRun step viewedFeed
      (.hub (.attach viewer [] 0 true) :: lossAndRestart ++ [.session .dataLoss,
        .session (.update initialPaint fun _ _ => true)] ++ lossAndRestart.tail ++
        [.session .dataLoss, .session (.status subscriptionStart)]) _ := .of_runActions rfl
  exact ⟨_, _, _, hrun, rfl, rfl, rfl, rfl, rfl, rfl⟩

end System

end Xbbg.Feed
