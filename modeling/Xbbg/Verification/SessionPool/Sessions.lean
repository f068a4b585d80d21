import Xbbg.Library.Lists
import Xbbg.Library.Machine
import Xbbg.Model.SessionPool

/-! Sessions of the pool: their number, who has them, and what a shutdown leaves. A session is
only created when the idle list is empty, so that there are never more than permits. -/

namespace Xbbg.SessionPool

open List Library Stage Pool Option

/-! ### One turn of a permit holder -/

/-- Sessions only move or get lost, but for one that is created when none is idle; a registered
session that is lost has been signalled, and under the flag nothing comes back. -/
structure Effect (s : Shared) (stage : Stage) (a : HolderAction) (s' : Shared) (stage' : Stage) :
    Prop where
  sessions : (s'.nextId = s.nextId ∧
      (s'.idle ++ stage'.session.toList).Subperm (s.idle ++ stage.session.toList)) ∨
    (s'.nextId = s.nextId + 1 ∧ s.idle = [] ∧ s'.idle = [] ∧ stage.session = none ∧
      stage'.session = some s.nextId)
  idle : s'.idle ⊆ s.idle ∨
    ∃ id, stage = .releasing id ∧ a = .release true true ∧ s'.idle = s.idle ++ [id]
  registered : ∀ id ∈ s'.registered, id ∈ s.registered ∨ stage'.handle = some id
  owned : ∀ id, id ∈ s.idle ∨ stage.handle = some id →
    id ∈ s'.idle ∨ stage'.handle = some id ∨ id ∈ s'.signalled
  signalled : s.signalled ⊆ s'.signalled
  shutdown : s'.shutdown = s.shutdown
  late : s.shutdown = true → s'.registered = s.registered ∧ s'.idle ⊆ s.idle ∧
    (∀ id, stage' ≠ .cleared id) ∧
    ∀ id, stage'.claim = some id → stage.claim = some id ∨ stage = .cleared id

variable {s s' : Shared} {stage stage' : Stage} {a : HolderAction} {p q : Pool}

theorem Effect.move (hs : stage'.session = stage.session ∨ stage'.session = none)
    (hh : ∀ id, stage.handle = some id → stage'.handle = some id)
    (hl : s.shutdown = true → (∀ id, stage' ≠ .cleared id) ∧
      ∀ id, stage'.claim = some id → stage.claim = some id ∨ stage = .cleared id) :
    Effect s stage a s stage' := by
  refine ⟨.inl ⟨rfl, ?_⟩, .inl (Subset.refl _), fun _ => .inl, ?_, Subset.refl _, rfl,
    fun h => ⟨rfl, Subset.refl _, hl h⟩⟩
  · rcases hs with h | h
    · rw [h]
    · rw [h, toList_none, append_nil]
      exact (sublist_append_left _ _).subperm
  · rintro id (h | h)
    · exact .inl h
    · exact .inr (.inl (hh id h))

variable {id : ℕ}

theorem Effect.discard (hh : ∀ o, stage.handle = some o → o = id) :
    Effect s stage a (s.signal id) .leaving := by
  refine ⟨.inl ⟨rfl, ?_⟩, .inl (Subset.refl _), fun _ => .inl, ?_, subset_cons_self _ _,
    rfl, fun _ => ⟨rfl, Subset.refl _, by simp, by simp [claim]⟩⟩
  · rw [session, toList_none, append_nil]
    exact (sublist_append_left _ _).subperm
  · rintro o (h | h)
    · exact .inl h
    · simp [Shared.signal, hh o h]

theorem Effect.pop (hl : s.idle.getLast? = some id) :
    Effect s .entered a { s with idle := s.idle.dropLast } (.chosen id) ∧
      Effect s .entered a ({ s with idle := s.idle.dropLast }.signal id) .entered := by
  obtain ⟨front, hi⟩ := getLast?_eq_some_iff.mp hl
  have hd : s.idle.dropLast = front := by simp [hi]
  have hs : front ⊆ s.idle := hi ▸ subset_append_left _ _
  rw [hd]
  constructor
  · refine ⟨.inl ⟨rfl, ?_⟩, .inl hs, fun _ => .inl, ?_, Subset.refl _, rfl,
      fun _ => ⟨rfl, hs, by simp, by simp [claim]⟩⟩
    · simp [session, hi, Subperm.refl]
    · simp [handle, hi, eq_comm]
      tauto
  · refine ⟨.inl ⟨rfl, ?_⟩, .inl hs, fun _ => .inl, ?_, subset_cons_self _ _, rfl,
      fun _ => ⟨rfl, hs, by simp, by simp [claim]⟩⟩
    · simpa [session, hi, Shared.signal] using (sublist_append_left front [id]).subperm
    · simp [handle, hi, Shared.signal]
      tauto

theorem effect_of_advance (h : advance s stage a = some (stage', s')) :
    Effect s stage a s' stage' := by
  unfold advance at h
  split at h
  · cases h
    split <;> exact .move (.inr rfl) (by simp [handle]) (by simp [claim])
  · rename_i reusable
    split at h
    · cases h
    · rename_i id hl
      cases reusable with
      | true =>
        cases h
        exact (Effect.pop hl).1
      | false =>
        cases h
        exact (Effect.pop hl).2
  · split at h
    · rename_i hi
      cases h
      refine ⟨.inr ⟨rfl, hi, hi, rfl, rfl⟩, .inl (Subset.refl _), fun _ => .inl, ?_,
        Subset.refl _, rfl, fun _ => ⟨rfl, Subset.refl _, by simp, by simp [claim]⟩⟩
      simp [hi, handle]
    · cases h
  · cases h
    split
    · exact .move (.inr rfl) (by simp [handle]) (by simp [claim])
    · exact .move (.inl rfl) (by simp [handle]) (by simp [claim])
  · cases h
    split
    · exact .move (.inl rfl) (by simp [handle]) (by simp [claim])
    · exact .move (.inr rfl) (by simp [handle]) (by simp [claim])
  · split at h
    · cases h
      exact .discard (by simp [handle])
    · rename_i hr
      cases h
      refine ⟨.inl ⟨rfl, Subperm.refl _⟩, .inl (Subset.refl _), ?_, ?_,
        Subset.refl _, rfl, fun hf => absurd hf hr⟩
      · simp [handle, eq_comm]
      · rintro o (hi | hn)
        · exact .inl hi
        · cases hn
  · split at h
    · cases h
      exact .discard (by simp [handle])
    · rename_i hr
      cases h
      exact .move (.inl rfl) (fun _ hid => hid) fun hf => absurd (by simp [hf]) hr
  · cases h
    exact .move (.inl rfl) (fun _ hid => hid) fun _ => ⟨by simp, by simp [claim]⟩
  · split at h
    · cases h
      exact .move (.inl rfl) (fun _ hid => hid) fun _ => ⟨by simp, fun _ => .inl⟩
    · cases h
      exact .discard (by simp [handle])
  · rename_i id reusable prepared
    split at h
    · cases h
      exact .discard (by simp [handle])
    · rename_i hr
      cases h
      refine ⟨.inl ⟨rfl, ?_⟩, .inr ⟨id, rfl, ?_, rfl⟩, fun _ => .inl, ?_, Subset.refl _, rfl,
        fun hf => absurd (by simp [hf]) hr⟩
      · simp [session, Subperm.refl]
      · cases reusable <;> cases prepared <;> simp_all
      · rintro o (hi | hm)
        · exact .inl (mem_append_left _ hi)
        · exact .inl (by simp [some.inj hm])
  · cases h

/-! ### Every state of the pool -/

/-- The workers that the shutdown still has to signal, once it has listed them. -/
def Phase.pending : Phase → Option (List ℕ)
  | .flagged | .closed => none
  | .listed workers | .drained workers => some workers
  | .done => some []

def Phase.isDrained : Phase → Bool
  | .drained _ | .done => true
  | _ => false

def Pool.sessions (p : Pool) : List ℕ :=
  p.shared.idle ++ p.held

structure Sound (maxSessions : ℕ) (p : Pool) : Prop where
  permits : p.holders.length + p.permits = maxSessions
  bound : p.sessions.length ≤ maxSessions
  nodup : p.sessions.Nodup
  lt : ∀ id ∈ p.sessions, id < p.shared.nextId
  alive : ∀ id ∈ p.shared.registered, id ∈ p.owned ∨ id ∈ p.shared.signalled
  flag : p.shared.shutdown = p.phase.isSome
  listed : ∀ workers, p.phase.bind Phase.pending = some workers →
    ∀ id ∈ p.shared.registered, id ∈ p.shared.signalled ∨ id ∈ workers
  drained : p.phase.any Phase.isDrained = true → p.shared.idle = []

theorem sound_new {size maxSessions : ℕ} (h : size ≤ maxSessions) :
    Sound maxSessions (.new size maxSessions) where
  permits := by simp [new]
  bound := by simpa [sessions, held, new] using h
  nodup := by simpa [sessions, held, new] using nodup_range
  lt := by simp [sessions, held, new]
  alive := by simp [owned, new]
  flag := rfl
  listed := by simp [new]
  drained := by simp [new]

theorem perm_sessions (idle : List ℕ) (front back : List Stage) (stage : Stage) :
    (idle ++ (front ++ stage :: back).filterMap session).Perm
      (idle ++ stage.session.toList ++ (front ++ back).filterMap session) := by
  rw [append_assoc]
  apply Perm.append_left
  cases hs : stage.session with
  | none => simp [hs]
  | some id => simp [hs, perm_middle]

theorem mem_owned {idle : List ℕ} {front back : List Stage} {stage : Stage} :
    id ∈ idle ++ (front ++ stage :: back).filterMap handle ↔
      (id ∈ idle ∨ stage.handle = some id) ∨ id ∈ (front ++ back).filterMap handle := by
  simp only [mem_append, mem_filterMap, mem_cons]
  grind

section Steps

variable {maxSessions : ℕ}

section

variable (h : Sound maxSessions p)
include h

/-- A session is created when none is idle, and then every session has a holder of a permit. -/
theorem Sound.holder_sessions {front back : List Stage} (hsp : p.holders = front ++ stage :: back)
    (he : Effect p.shared stage a s' stage') :
    let sessions := s'.idle ++ (front ++ stage' :: back).filterMap session
    sessions.length ≤ maxSessions ∧ sessions.Nodup ∧ ∀ id ∈ sessions, id < s'.nextId := by
  have hb := perm_sessions p.shared.idle front back stage
  have ha := perm_sessions s'.idle front back stage'
  have hbo := h.bound
  have hno := h.nodup
  have hlt := h.lt
  simp only [sessions, held, hsp] at hbo hno hlt
  rcases he.sessions with ⟨hne, hsb⟩ | ⟨hne, hn, hn', hs, hs'⟩
  · have hf := ((subperm_append_right _).mpr hsb).trans hb.symm.subperm
    have hw := ha.subperm.trans hf
    refine ⟨hw.length_le.trans hbo, ?_, fun id hid => hne ▸ hlt id (hw.subset hid)⟩
    obtain ⟨l, hpe, hsu⟩ := hw
    exact hpe.nodup_iff.mp (hsu.nodup hno)
  · rw [hn, nil_append] at hno hlt
    rw [hn, hs, toList_none, append_nil, nil_append, nil_append] at hb
    rw [hn', hs', toList_some, nil_append, nil_append, singleton_append] at ha
    dsimp only
    rw [hn', nil_append]
    refine ⟨?_, ha.nodup_iff.mpr (nodup_cons.mpr ⟨?_, hb.nodup_iff.mp hno⟩), ?_⟩
    · have hp := h.permits
      rw [hsp] at hp
      apply (length_filterMap_le _ _).trans
      simp only [length_append, length_cons] at hp ⊢
      omega
    · intro hm
      exact (hlt _ (hb.symm.subset hm)).false
    · intro id hid
      rw [hne]
      rcases mem_cons.mp (ha.subset hid) with rfl | hm
      · exact Nat.lt_succ_self _
      · exact (hlt id (hb.symm.subset hm)).trans (Nat.lt_succ_self _)

theorem Sound.holder {i : ℕ} (hg : p.holders[i]? = some stage)
    (he : Effect p.shared stage a s' stage') :
    Sound maxSessions { p with shared := s', holders := p.holders.set i stage' } := by
  obtain ⟨front, back, hsp, -, hmo⟩ := exists_split_of_getElem? hg
  have hse : p.holders.set i stage' = front ++ stage' :: back := by
    rw [set_eq_modify, hmo]
  have hl : p.phase ≠ none → p.shared.shutdown = true := fun hso => by
    rw [h.flag, isSome_iff_ne_none]
    exact hso
  obtain ⟨hb, hno, hlt⟩ := h.holder_sessions hsp he
  refine ⟨by simpa using h.permits, ?_, ?_, ?_, ?_, he.shutdown.trans h.flag, ?_, ?_⟩
  · simpa only [sessions, held, hse] using hb
  · simpa only [sessions, held, hse] using hno
  · simpa only [sessions, held, hse] using hlt
  · intro id hid
    have ha := h.alive
    simp only [owned, hsp, mem_owned] at ha
    simp only [owned, hse, mem_owned]
    rcases he.registered id hid with ho | hne
    · rcases ha id ho with (hm | hot) | hsi
      · rcases he.owned id hm with hi | hh | hsi
        · exact .inl (.inl (.inl hi))
        · exact .inl (.inl (.inr hh))
        · exact .inr hsi
      · exact .inl (.inr hot)
      · exact .inr (he.signalled hsi)
    · exact .inl (.inl (.inr hne))
  · intro workers hw id hid
    have hp : p.phase ≠ none := by
      rintro hn
      simp [hn] at hw
    rw [(he.late (hl hp)).1] at hid
    exact (h.listed workers hw id hid).imp_left fun hs => he.signalled hs
  · intro hd
    have hp : p.phase ≠ none := by
      rintro hn
      simp [hn] at hd
    have hi := (he.late (hl hp)).2.1
    rw [h.drained hd] at hi
    exact subset_nil.mp hi

theorem Sound.of_holders {holders : List Stage} {permits : ℕ}
    (hp : holders.length + permits = maxSessions)
    (hs : holders.filterMap session = p.holders.filterMap session)
    (hh : holders.filterMap handle = p.holders.filterMap handle) :
    Sound maxSessions { p with holders, permits } := by
  refine ⟨hp, ?_, ?_, ?_, ?_, h.flag, h.listed, h.drained⟩
  · simpa only [sessions, held, hs] using h.bound
  · simpa only [sessions, held, hs] using h.nodup
  · simpa only [sessions, held, hs] using h.lt
  · simpa only [owned, hh] using h.alive

theorem Sound.giveBack {i : ℕ} (hg : p.holders[i]? = some stage) (hse : stage.session = none)
    (hh : stage.handle = none) :
    Sound maxSessions { p with permits := p.permits + 1, holders := p.holders.eraseIdx i } := by
  obtain ⟨front, back, hs, he, -⟩ := exists_split_of_getElem? hg
  have hp := h.permits
  rw [hs, length_append, length_cons] at hp
  apply h.of_holders
  · rw [he, length_append]
    omega
  · rw [he, hs]
    simp [hse]
  · rw [he, hs]
    simp [hh]

theorem Sound.of_phase {closed returned : Bool} {phase : Phase} (hf : p.phase ≠ none)
    (hl : ∀ workers, phase.pending = some workers → ∀ id ∈ p.shared.registered,
      id ∈ p.shared.signalled ∨ id ∈ workers) (hd : phase.isDrained = true → p.shared.idle = []) :
    Sound maxSessions { p with closed, returned, phase := some phase } := by
  refine ⟨h.permits, h.bound, h.nodup, h.lt, h.alive, ?_, hl, hd⟩
  rw [h.flag, isSome_iff_ne_none.mpr hf]
  rfl

theorem Sound.step {a : Action} (hs : step p a = some q) : Sound maxSessions q := by
  cases a with
  | acquire =>
    simp only [SessionPool.step] at hs
    split at hs
    · cases hs
    · rename_i hf
      cases hs
      have hpe := h.permits
      apply h.of_holders
      · rw [length_append, length_singleton]
        omega
      · simp [session]
      · simp [handle]
  | giveBack i =>
    simp only [SessionPool.step] at hs
    split at hs
    · rename_i hg
      cases hs
      exact h.giveBack hg rfl rfl
    · rename_i hg
      cases hs
      exact h.giveBack hg rfl rfl
    · cases hs
  | holder i a =>
    simp only [SessionPool.step] at hs
    split at hs
    · cases hs
    · rename_i stage hg
      obtain ⟨next, hn, rfl⟩ := map_eq_some_iff.mp hs
      exact h.holder hg (effect_of_advance hn)
  | signalShutdown =>
    simp only [SessionPool.step] at hs
    split at hs
    · cases hs
      exact ⟨h.permits, h.bound, h.nodup, h.lt, h.alive, h.flag, h.listed, h.drained⟩
    · cases hs
      exact ⟨h.permits, h.bound, h.nodup, h.lt, h.alive, rfl, by simp [Phase.pending],
        by simp [Phase.isDrained]⟩
  | closeAdmission =>
    obtain ⟨hp, hq⟩ := ite_none_right_eq_some.mp hs
    cases hq
    exact h.of_phase (by simp [hp]) (by simp [Phase.pending]) (by simp [Phase.isDrained])
  | listWorkers workers =>
    obtain ⟨⟨hp, ha⟩, hq⟩ := ite_none_right_eq_some.mp hs
    cases hq
    apply h.of_phase (by simp [hp]) _ (by simp [Phase.isDrained])
    intro listed hl id hid
    cases hl
    exact (h.alive id hid).symm.imp_right (ha id hid)
  | drainAvailable =>
    simp only [SessionPool.step] at hs
    split at hs
    · rename_i workers hp
      cases hs
      have hsu : p.held.Sublist p.sessions := sublist_append_right _ _
      refine ⟨h.permits, hsu.length_le.trans h.bound, hsu.nodup h.nodup,
        fun id hid => h.lt id (hsu.subset hid), ?_, ?_, ?_, fun _ => rfl⟩
      · intro id hid
        have hal := h.alive id hid
        simp only [owned, mem_append] at hal
        simp only [owned, nil_append, mem_append]
        tauto
      · rw [h.flag, hp]
        rfl
      · intro listed hl id hid
        cases hl
        exact (h.listed workers (by rw [hp]; rfl) id hid).imp_left (mem_append_right _)
    · cases hs
  | signalNext =>
    simp only [SessionPool.step] at hs
    split at hs
    · rename_i worker rest hp
      cases hs
      refine ⟨h.permits, h.bound, h.nodup, h.lt, ?_, ?_, ?_, fun _ => h.drained (by rw [hp]; rfl)⟩
      · exact fun id hid => (h.alive id hid).imp_right (mem_cons_of_mem _)
      · exact h.flag.trans (by rw [hp]; rfl)
      · intro listed hl id hid
        cases hl
        have hwo := h.listed (worker :: rest) (by rw [hp]; rfl) id hid
        simp only [Shared.signal, mem_cons] at hwo ⊢
        tauto
    · cases hs
  | finish =>
    simp only [SessionPool.step] at hs
    split at hs
    · rename_i hp
      cases hs
      apply h.of_phase (by simp [hp])
      · exact fun workers hw => h.listed workers (by rw [hp]; exact hw)
      · exact fun _ => h.drained (by rw [hp]; rfl)
    · cases hs

end

theorem sound_of_run {size : ℕ} {acts : List Action} (hs : size ≤ maxSessions)
    (hr : FreeRun step (.new size maxSessions) acts p) : Sound maxSessions p :=
  hr.invariant (fun _ _ _ h _ hst => h.step hst) (sound_new hs)

/-- Permits are conserved, and no session is leaked: a registered session is idle, in the hands of
a permit's holder, or told to stop. -/
theorem permits_of_run {size : ℕ} {acts : List Action} (hs : size ≤ maxSessions)
    (hr : FreeRun step (.new size maxSessions) acts p) :
    p.holders.length + p.permits = maxSessions ∧
    ∀ id ∈ p.shared.registered, id ∈ p.owned ∨ id ∈ p.shared.signalled := by
  have hsound := sound_of_run hs hr
  exact ⟨hsound.permits, hsound.alive⟩

/-- Two callers have popped a session each when the shutdown starts, and one of them is behind its
last check. -/
theorem permits_of_run_overlapping : ∃ p, FreeRun step (.new 2 3)
      [.acquire, .acquire, .holder 0 .enter, .holder 1 .enter, .holder 0 (.pop true),
        .holder 1 (.pop true), .holder 0 (.check true), .signalShutdown,
        .holder 1 (.check true)] p ∧
    (p.holders = [.cleared 1, .leaving] ∧ p.shared.registered = [0, 1]) ∧
    p.holders.length + p.permits = 3 ∧
    ∀ id ∈ p.shared.registered, id ∈ p.owned ∨ id ∈ p.shared.signalled := by
  exact Run.exists_imp (fun _ hrun hend => ⟨hend, permits_of_run (by decide) hrun⟩)
    ⟨_, FreeRun.of_runActions rfl, rfl, rfl⟩

end Steps

/-- A session comes to the idle list through the last check of `release` only. -/
theorem released_of_step {act : Action} (hs : step p act = some q)
    (hn : id ∈ q.shared.idle) (ho : id ∉ p.shared.idle) :
    ∃ i, act = .holder i (.release true true) ∧ p.holders[i]? = some (.releasing id) := by
  cases act with
  | holder i a =>
    simp only [step] at hs
    split at hs
    · cases hs
    · rename_i hstage
      obtain ⟨next, hne, rfl⟩ := map_eq_some_iff.mp hs
      rcases (effect_of_advance hne).idle with hsu | ⟨back, rfl, rfl, hback⟩
      · exact absurd (hsu hn) ho
      · rw [hback, mem_append, mem_singleton] at hn
        rw [hn.resolve_left ho]
        exact ⟨i, rfl, hstage⟩
  | drainAvailable =>
    simp only [step] at hs
    split at hs <;> cases hs
    cases hn
  | acquire | giveBack _ | signalShutdown | closeAdmission | listWorkers _ | signalNext | finish =>
    simp only [step] at hs
    split at hs <;> cases hs <;> exact absurd hn ho

/-- What holds from the end of a shutdown on, without claims behind their last check. -/
structure Ended (maxSessions : ℕ) (p q : Pool) : Prop where
  sound : Sound maxSessions q
  phase : q.phase = some .done
  cleared : ∀ id, .cleared id ∉ q.holders
  claims : q.claims ⊆ p.claims

theorem Ended.step {maxSessions : ℕ} {r : Pool} {act : Action} (h : Ended maxSessions p q)
    (hs : step q act = some r) : Ended maxSessions p r := by
  have hf : q.shared.shutdown = true := by rw [h.sound.flag, h.phase]; rfl
  have hso := h.sound.step hs
  cases act with
  | acquire =>
    simp only [SessionPool.step] at hs
    split at hs
    · cases hs
    · cases hs
      refine ⟨hso, h.phase, by simpa using h.cleared, ?_⟩
      have hn : [permit].filterMap claim = [] := rfl
      rw [Pool.claims, filterMap_append, hn, append_nil]
      exact h.claims
  | giveBack i =>
    have he : q.holders.eraseIdx i ⊆ q.holders := eraseIdx_subset
    simp only [SessionPool.step] at hs
    split at hs
    all_goals cases hs
    all_goals exact ⟨hso, h.phase, fun id hid => h.cleared id (he hid),
      fun id hid => h.claims (filterMap_subset _ he hid)⟩
  | holder i a =>
    simp only [SessionPool.step] at hs
    split at hs
    · cases hs
    · rename_i stage hg
      obtain ⟨next, hne, rfl⟩ := map_eq_some_iff.mp hs
      obtain ⟨-, -, hc, hcl⟩ := (effect_of_advance hne).late hf
      have hm : stage ∈ q.holders := mem_of_getElem? hg
      refine ⟨hso, h.phase, ?_, ?_⟩
      · intro id hid
        rcases mem_or_eq_of_mem_set hid with hid | hid
        · exact h.cleared id hid
        · exact hc id hid.symm
      · intro id hid
        obtain ⟨o, ho, hid⟩ := mem_filterMap.mp hid
        rcases mem_or_eq_of_mem_set ho with ho | rfl
        · exact h.claims (mem_filterMap.mpr ⟨o, ho, hid⟩)
        · rcases hcl id hid with hol | rfl
          · exact h.claims (mem_filterMap.mpr ⟨stage, hm, hol⟩)
          · exact absurd hm (h.cleared id)
  | signalShutdown =>
    simp only [SessionPool.step, hf, if_true] at hs
    cases hs
    exact ⟨hso, h.phase, h.cleared, h.claims⟩
  | closeAdmission | listWorkers _ | drainAvailable | signalNext | finish =>
    simp [SessionPool.step, h.phase] at hs

/-- In every interleaving: idle, claimed and created sessions are distinct and no more than
`max_subscription_sessions`, only sessions that passed both checks of `release` become idle, and
once the shutdown that set the flag has returned, and the claims that were behind their last check
as well, no session is idle, none becomes idle or claimed, and all have been signalled. -/
theorem sessions_of_run {size maxSessions : ℕ} {actions : List Action} (hsize : size ≤ maxSessions)
    (hrun : FreeRun step (.new size maxSessions) actions p) :
    p.shared.idle.length + p.held.length ≤ maxSessions ∧ (p.shared.idle ++ p.held).Nodup ∧
    (∀ action q, step p action = some q → ∀ id ∈ q.shared.idle, id ∉ p.shared.idle →
      ∃ i, action = .holder i (.release true true) ∧ p.holders[i]? = some (.releasing id)) ∧
    (p.phase = some .done → (∀ id, .cleared id ∉ p.holders) →
      ∀ later q, FreeRun step p later q → q.shared.idle = [] ∧ q.claims ⊆ p.claims ∧
        ∀ id ∈ q.shared.registered, id ∈ q.shared.signalled) := by
  have hsound := sound_of_run hsize hrun
  refine ⟨?_, hsound.nodup, fun _ _ hstep _ hnew hold => released_of_step hstep hnew hold, ?_⟩
  · simpa only [sessions, length_append] using hsound.bound
  · intro hdone hcleared later q hlater
    have hended : Ended maxSessions p q := hlater.invariant (fun _ _ _ h _ hstep => h.step hstep)
      ⟨hsound, hdone, hcleared, Subset.refl _⟩
    refine ⟨hended.sound.drained (by rw [hended.phase]; rfl), hended.claims, fun id hid => ?_⟩
    simpa using hended.sound.listed [] (by rw [hended.phase]; rfl) id hid

/-- Two callers claim a session each, one of them releases it, and the other still has its claim
when the pool is shut down. -/
def claimThenShutdown : List Action :=
  [.acquire, .acquire, .holder 0 .enter, .holder 1 .enter, .holder 0 (.pop true),
    .holder 1 (.pop true), .holder 1 (.check true), .holder 0 (.check true), .holder 0 .hand,
    .holder 1 .hand, .holder 1 (.dropClaim true true), .holder 1 (.release true true), .giveBack 1,
    .signalShutdown, .closeAdmission, .listWorkers [0, 1], .drainAvailable, .signalNext,
    .signalNext, .finish]

theorem sessions_of_run_shutdown :
    ∃ p q, FreeRun step (.new 2 3) claimThenShutdown p ∧ p.holders = [.claimed 1] ∧
      p.shared.idle.length + p.held.length ≤ 3 ∧
      FreeRun step p [.holder 0 (.dropClaim true true)] q ∧ q.shared.registered = [0, 1] ∧
      q.shared.idle = [] ∧ q.claims ⊆ p.claims ∧
      ∀ id ∈ q.shared.registered, id ∈ q.shared.signalled := by
  have hend : ((runActions step (.new 2 3) claimThenShutdown).bind fun p =>
      (runActions step p [.holder 0 (.dropClaim true true)]).map fun q =>
        (p.phase, p.holders, q.shared.registered)) =
          some (some .done, [.claimed 1], [0, 1]) := by
    decide +kernel
  obtain ⟨p, hp, hend⟩ := bind_eq_some_iff.mp hend
  obtain ⟨q, hq, hfacts⟩ := map_eq_some_iff.mp hend
  simp only [Prod.mk.injEq] at hfacts
  obtain ⟨hdone, hholders, hregistered⟩ := hfacts
  have hrun := FreeRun.of_runActions hp
  obtain ⟨hbound, -, -, hended⟩ := sessions_of_run (show 2 ≤ 3 by decide) hrun
  obtain ⟨hidle, hclaims, hsignalled⟩ :=
    hended hdone (by simp [hholders]) _ q (FreeRun.of_runActions hq)
  exact ⟨p, q, hrun, hholders, hbound, FreeRun.of_runActions hq, hregistered, hidle, hclaims,
    hsignalled⟩

/-- A claim is behind its last check when a shutdown starts. -/
def shutdownDuringClaim : List Action :=
  [.acquire, .holder 0 .enter, .holder 0 (.pop true), .holder 0 (.check true), .signalShutdown,
    .closeAdmission, .listWorkers [0], .drainAvailable, .signalNext, .finish]

/-- A second call returns while the first has only set the flag, and the claim behind its last
check is handed out after the shutdown has returned. -/
theorem shutdown_returns_early :
    (∃ p, FreeRun step (.new 1 2) [.signalShutdown, .signalShutdown] p ∧ p.returned = true ∧
      p.shared.idle = [0] ∧ p.shared.registered = [0] ∧ p.shared.signalled = []) ∧
    ∃ p q, FreeRun step (.new 1 2) shutdownDuringClaim p ∧ p.phase = some .done ∧
      p.returned = true ∧ step p (.holder 0 .hand) = some q ∧ p.claims = [] ∧ q.claims = [0] := by
  constructor
  · exact ⟨_, .cons trivial rfl (.cons trivial rfl (.nil _)), rfl, rfl, rfl, rfl⟩
  · have hend : ((runActions step (.new 1 2) shutdownDuringClaim).bind fun p =>
        (step p (.holder 0 .hand)).map fun q => (p.phase, p.returned, p.claims, q.claims)) =
        some (some .done, true, [], [0]) := by
      decide +kernel
    obtain ⟨p, hp, hend⟩ := bind_eq_some_iff.mp hend
    obtain ⟨q, hq, hfacts⟩ := map_eq_some_iff.mp hend
    simp only [Prod.mk.injEq] at hfacts
    exact ⟨p, q, FreeRun.of_runActions hp, hfacts.1, hfacts.2.1, hq, hfacts.2.2⟩

end Xbbg.SessionPool
