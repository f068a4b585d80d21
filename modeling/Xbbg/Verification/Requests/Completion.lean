import Mathlib.Algebra.Order.BigOperators.Group.Finset
import Xbbg.Library.Handshake
import Xbbg.Library.Lists
import Xbbg.Model.Requests
import Xbbg.Verification.Dispatch.Generation

/-! Every request that leaves the slot table is settled once, after the partial responses that
found it there. A cell and its threads are one handshake, which only the slot table opens. -/

namespace Xbbg.Requests

open Function List Library Dispatch RequestStateCell Option
open scoped List

variable {ρ μ β : Type*} {d : Decoder ρ μ β}

/-! ### One cell -/

/-- How far a thread that took the slot has brought the handshake. -/
def Consumer.phase : Consumer ρ μ → Handshake.Phase ρ (Settlement μ)
  | .waiting w => .closing w
  | .ready w => .closed w
  | .taken w state => .gone w state

def Consumer.settled : Consumer ρ μ → List (Settlement μ × ρ)
  | .taken w state => [(w, state)]
  | _ => []

/-- The thread has not settled the request yet. -/
def Consumer.pending : Consumer ρ μ → Bool
  | .taken _ _ => false
  | _ => true

def Consumer.work : Consumer ρ μ → ℕ
  | .waiting _ => 3
  | .ready _ => 2
  | .taken _ _ => 1

def RequestPartialGuard.work (guard : RequestPartialGuard μ) : ℕ :=
  if guard.decoded then 1 else 2

theorem Consumer.work_pos (c : Consumer ρ μ) : 0 < c.work := by
  cases c <;> simp [Consumer.work]

namespace RequestStateCell

/-- The thread that took the slot and what it has done, in each phase of the handshake. -/
inductive Stage (d : Decoder ρ μ β) (cell : RequestStateCell ρ μ β)
    (phase : Handshake.Phase ρ (Settlement μ)) : Prop where
  | opened : phase = .opened → cell.consumers = [] → cell.settled = [] → cell.replies = [] →
      Stage d cell phase
  | held {c : Consumer ρ μ} : phase = c.phase → cell.consumers = [c] →
      cell.settled = c.settled → cell.replies = [] → Stage d cell phase
  | settled {w : Settlement μ} {state : ρ} : phase = .gone w state → cell.consumers = [] →
      cell.settled = [(w, state)] → cell.replies = (w.reply d state).toList → Stage d cell phase

/-- The partials of a cell as the readers of a handshake. -/
def handshake (cell : RequestStateCell ρ μ β) (phase : Handshake.Phase ρ (Settlement μ)) :
    Handshake ρ μ (Settlement μ) where
  state := cell.state
  inside := cell.activePartials
  pending := (cell.guards.filter (!·.decoded)).map (·.message)
  leaving := cell.guards.countP (·.decoded)
  phase := phase
  entered := cell.begun
  applied := cell.decoded

structure Runs (d : Decoder ρ μ β) (cell : RequestStateCell ρ μ β)
    (phase : Handshake.Phase ρ (Settlement μ)) : Prop where
  sound : (cell.handshake phase).Sound d.onPartial cell.initial
  stage : cell.Stage d phase

variable {cell next : RequestStateCell ρ μ β} {phase : Handshake.Phase ρ (Settlement μ)}

theorem runs_new (st : ρ) : (new st : RequestStateCell ρ μ β).Runs d .opened :=
  ⟨Handshake.sound_start, .opened rfl rfl rfl rfl⟩

theorem Stage.of_opened (h : cell.Stage d .opened) :
    cell.consumers = [] ∧ cell.settled = [] ∧ cell.replies = [] := by
  cases h with
  | opened _ hc hs hr => exact ⟨hc, hs, hr⟩
  | @held c hp _ _ _ => cases c <;> simp [Consumer.phase] at hp
  | settled hp _ _ _ => simp at hp

/-- At most one thread has taken the slot. -/
theorem Stage.of_consumer (h : cell.Stage d phase) {i : ℕ} {c : Consumer ρ μ}
    (hg : cell.consumers[i]? = some c) :
    i = 0 ∧ phase = c.phase ∧ cell.consumers = [c] ∧ cell.settled = c.settled ∧
      cell.replies = [] := by
  cases h with
  | opened _ hc _ _ | settled _ hc _ _ => simp [hc] at hg
  | @held c' hp hc hs hr =>
    rw [hc] at hg
    obtain ⟨rfl, rfl⟩ : i = 0 ∧ c' = c := by simpa [getElem?_singleton] using hg
    exact ⟨rfl, hp, hc, hs, hr⟩

theorem Stage.of_same (h : cell.Stage d phase) (hc : next.consumers = cell.consumers)
    (hs : next.settled = cell.settled) (hr : next.replies = cell.replies) :
    next.Stage d phase := by
  cases h with
  | opened hp h₁ h₂ h₃ =>
    exact .opened hp (hc.trans h₁) (hs.trans h₂) (hr.trans h₃)
  | held hp h₁ h₂ h₃ =>
    exact .held hp (hc.trans h₁) (hs.trans h₂) (hr.trans h₃)
  | settled hp h₁ h₂ h₃ =>
    exact .settled hp (hc.trans h₁) (hs.trans h₂) (hr.trans h₃)

theorem Runs.beginPartial (h : cell.Runs d .opened) (msg : μ) :
    (cell.beginPartial msg).Runs d .opened := by
  refine ⟨?_, h.stage.of_same rfl rfl rfl⟩
  have hs := h.sound.step (.enter msg rfl)
  simpa [handshake, RequestStateCell.beginPartial] using hs

variable {guard : ℕ} {a : System.CellAction}

theorem Runs.take (h : cell.Runs d .opened) (w : Settlement μ) :
    (cell.take w).Runs d (.closing w) := by
  obtain ⟨hc, hs, hr⟩ := h.stage.of_opened
  have hsi : (cell.take w).consumers = [.waiting w] := by
    simp [RequestStateCell.take, hc]
  exact ⟨h.sound.step (.close w rfl), .held rfl hsi hs hr⟩

section

variable (h : cell.Runs d phase)
include h

theorem Runs.state_of_guard {msg : μ} (hg : cell.guards[guard]? = some ⟨msg, false⟩) :
    cell.state = some (cell.decoded.foldl d.onPartial cell.initial) := by
  apply h.sound.state_of_pending
  have hm : msg ∈ (cell.handshake phase).pending :=
    mem_map.mpr ⟨_, mem_filter.mpr ⟨mem_of_getElem? hg, rfl⟩, rfl⟩
  exact ne_nil_of_mem hm

theorem Runs.onPartial (hs : cell.onPartial d guard = some next) : next.Runs d phase := by
  unfold RequestStateCell.onPartial at hs
  split at hs
  · rename_i msg hgu
    have hst := h.state_of_guard hgu
    rw [hst] at hs
    cases hs
    refine ⟨?_, h.stage.of_same rfl rfl rfl⟩
    obtain ⟨front, back, hg, -, hm⟩ := exists_split_of_getElem? hgu
    have hp : (cell.handshake phase).pending = (front.filter (!·.decoded)).map (·.message) ++
          msg :: (back.filter (!·.decoded)).map (·.message) := by
      simp [handshake, hg]
    have hset : cell.guards.set guard ⟨msg, true⟩ = front ++ ⟨msg, true⟩ :: back := by
      rw [set_eq_modify, hm]
    have hse := h.sound.step (.apply hp hst)
    rw [handshake, hset]
    simpa [handshake, hg, Nat.add_assoc] using hse
  · simp at hs

theorem Runs.dropGuard (hs : cell.dropGuard guard = some next) : next.Runs d phase := by
  unfold RequestStateCell.dropGuard at hs
  split at hs
  · rename_i msg hg
    cases hs
    refine ⟨?_, h.stage.of_same rfl rfl rfl⟩
    obtain ⟨front, back, hgu, he, -⟩ := exists_split_of_getElem? hg
    have hl : (cell.handshake phase).leaving =
        front.countP (·.decoded) + back.countP (·.decoded) + 1 := by
      simp [handshake, hgu, Nat.add_assoc]
    have hst := h.sound.step (.leave hl)
    rw [handshake, he]
    simpa [handshake, hgu] using hst
  · simp at hs

theorem Runs.waitForPartials {c : ℕ} (hs : cell.waitForPartials c = some next) :
    ∃ w, phase = .closing w ∧ next.Runs d (.closed w) := by
  unfold RequestStateCell.waitForPartials at hs
  split at hs
  · rename_i w hg
    split at hs
    · rename_i hz
      cases hs
      obtain ⟨rfl, rfl, hc, hse, hr⟩ := h.stage.of_consumer hg
      have hsi : cell.consumers.set 0 (.ready w) = [.ready w] := by simp [hc]
      exact ⟨w, rfl, h.sound.step (.pass rfl hz), .held rfl hsi hse hr⟩
    · simp at hs
  · simp at hs

theorem Runs.takeState {consumer : ℕ} (hs : cell.takeState consumer = some next) :
    ∃ w st, phase = .closed w ∧ next.Runs d (.gone w st) := by
  unfold RequestStateCell.takeState at hs
  split at hs
  · rename_i w hg
    obtain ⟨rfl, rfl, hc, hse, hr⟩ := h.stage.of_consumer hg
    -- The handshake has kept the decoder in the cell.
    have hst : cell.state = some (cell.decoded.foldl d.onPartial cell.initial) :=
      h.sound.phase.1
    rw [hst] at hs
    cases hs
    refine ⟨w, _, rfl, h.sound.step (.take rfl hst), .held (c := .taken w _) rfl ?_ ?_ hr⟩
    · simp [hc]
    · simp [hse, Consumer.settled]
  · simp at hs

theorem Runs.settle {c : ℕ} (hs : cell.settle d c = some next) : next.Runs d phase := by
  unfold RequestStateCell.settle at hs
  split at hs
  · rename_i w st hg
    cases hs
    obtain ⟨rfl, rfl, hc, hse, hr⟩ := h.stage.of_consumer hg
    exact ⟨h.sound, .settled rfl (by simp [hc]) hse (by simp [hr])⟩
  · simp at hs

theorem Runs.stepCell (hs : System.stepCell d cell a = some next) :
    ∃ phase', next.Runs d phase' ∧ (phase' = .opened ↔ phase = .opened) := by
  cases a with
  | onPartial guard => exact ⟨phase, h.onPartial hs, Iff.rfl⟩
  | dropGuard guard => exact ⟨phase, h.dropGuard hs, Iff.rfl⟩
  | waitForPartials c =>
    obtain ⟨w, rfl, hn⟩ := h.waitForPartials hs
    exact ⟨_, hn, by simp⟩
  | takeState c =>
    obtain ⟨w, st, rfl, hn⟩ := h.takeState hs
    exact ⟨_, hn, by simp⟩
  | settle c => exact ⟨phase, h.settle hs, Iff.rfl⟩

end

/-! ### Progress of one cell -/

/-- The steps that the threads of a cell still have to take. -/
def work (cell : RequestStateCell ρ μ β) : ℕ :=
  (cell.guards.map RequestPartialGuard.work).sum + (cell.consumers.map Consumer.work).sum

/-- Whatever the threads of a cell do brings them nearer to their end. -/
theorem work_of_stepCell (hs : System.stepCell d cell a = some next) : next.work < cell.work := by
  cases a with
  | onPartial guard =>
    simp only [System.stepCell, onPartial] at hs
    split at hs
    · rename_i msg hgu
      have hlt := sum_map_set_lt RequestPartialGuard.work (b := ⟨msg, true⟩) hgu
        (by simp [RequestPartialGuard.work])
      split at hs <;> obtain rfl := some.inj hs <;> simp only [work] <;> omega
    · simp at hs
  | dropGuard guard =>
    simp only [System.stepCell, dropGuard] at hs
    split at hs
    · rename_i msg hgu
      have hlt :=
        sum_map_eraseIdx_lt RequestPartialGuard.work hgu (by simp [RequestPartialGuard.work])
      cases hs
      simp only [work]
      omega
    · simp at hs
  | waitForPartials c =>
    simp only [System.stepCell, waitForPartials] at hs
    split at hs
    · rename_i w hg
      split at hs
      · have hlt := sum_map_set_lt Consumer.work (b := .ready w) hg (by simp [Consumer.work])
        cases hs
        simp only [work]
        omega
      · simp at hs
    · simp at hs
  | takeState c =>
    simp only [System.stepCell, takeState] at hs
    split at hs
    · rename_i w hg
      split at hs
      · rename_i st _
        have hlt := sum_map_set_lt Consumer.work (b := .taken w st) hg (by simp [Consumer.work])
        cases hs
        simp only [work]
        omega
      · have hlt := sum_map_eraseIdx_lt Consumer.work hg (Consumer.work_pos _)
        cases hs
        simp only [work]
        omega
    · simp at hs
  | settle c =>
    simp only [System.stepCell, settle] at hs
    split at hs
    · rename_i w st hg
      have hlt := sum_map_eraseIdx_lt Consumer.work hg (Consumer.work_pos _)
      cases hs
      simp only [work]
      omega
    · simp at hs

/-- As long as a cell has threads, one of them can take a step. -/
theorem Runs.exists_step (h : cell.Runs d phase) (hw : cell.work ≠ 0) :
    ∃ a, System.stepCell d cell a ≠ none := by
  cases hg : cell.guards with
  | cons guard rest =>
    obtain ⟨msg, decoded⟩ := guard
    cases decoded with
    | false =>
      have hge : cell.guards[0]? = some ⟨msg, false⟩ := by simp [hg]
      have hs := h.state_of_guard hge
      exact ⟨.onPartial 0, by simp [System.stepCell, RequestStateCell.onPartial, hg, hs]⟩
    | true => exact ⟨.dropGuard 0, by simp [System.stepCell, RequestStateCell.dropGuard, hg]⟩
  | nil =>
    have hz : cell.activePartials = 0 := by simpa [handshake, hg] using h.sound.inside
    cases h.stage with
    | opened _ hc _ _ | settled _ hc _ _ =>
      simp [work, hg, hc] at hw
    | @held c hp hc _ _ =>
      cases c with
      | waiting w =>
        exact ⟨.waitForPartials 0, by
          simp [System.stepCell, RequestStateCell.waitForPartials, hc, hz]⟩
      | ready w =>
        subst hp
        have hs : cell.state = some (cell.decoded.foldl d.onPartial cell.initial) :=
          h.sound.phase.1
        exact ⟨.takeState 0, by
          simp [System.stepCell, RequestStateCell.takeState, hc, hs]⟩
      | taken w st =>
        exact ⟨.settle 0, by simp [System.stepCell, RequestStateCell.settle, hc]⟩

/-! ### What a request is owed -/

/-- The threads that will settle the request: each stands for one settlement to come. -/
def owed (cell : RequestStateCell ρ μ β) : ℕ :=
  cell.consumers.countP Consumer.pending

theorem Runs.replies_length_le (h : cell.Runs d phase) : cell.replies.length ≤ 1 := by
  cases h.stage with
  | opened _ _ _ hr => simp [hr]
  | held _ _ _ hr => simp [hr]
  | @settled w state _ _ _ hr => cases w <;> simp [hr, Settlement.reply]

theorem Runs.owed_add_settled (h : cell.Runs d phase) (hp : phase ≠ .opened) :
    cell.owed + cell.settled.length = 1 := by
  cases h.stage with
  | opened ho _ _ _ => exact absurd ho hp
  | @held c _ hc hs _ =>
    cases c <;> simp [owed, hc, hs, Consumer.pending, Consumer.settled]
  | settled _ hc hs _ => simp [owed, hc, hs]

/-- What was settled is the decoder after every partial that began, and nothing else is replied. -/
theorem Runs.of_settled (h : cell.Runs d phase) {w : Settlement μ} {state : ρ}
    (hm : (w, state) ∈ cell.settled) :
    state = cell.decoded.foldl d.onPartial cell.initial ∧ cell.begun ~ cell.decoded ∧
      ∀ reply ∈ cell.replies, w.reply d state = some reply := by
  have hg : phase = .gone w state ∧ ∀ reply ∈ cell.replies, w.reply d state = some reply := by
    cases h.stage with
    | opened _ _ hs _ => simp [hs] at hm
    | @held c hp _ hs hr =>
      cases c with
      | waiting w' | ready w' => simp [hs, Consumer.settled] at hm
      | taken w' state' =>
        obtain ⟨rfl, rfl⟩ : w = w' ∧ state = state' := by
          simpa [hs, Consumer.settled] using hm
        exact ⟨hp, by simp [hr]⟩
    | @settled w' state' hp _ hs hr =>
      obtain ⟨rfl, rfl⟩ : w = w' ∧ state = state' := by simpa [hs] using hm
      exact ⟨hp, by simp [hr]⟩
  obtain ⟨hf, hpe⟩ := h.sound.of_gone hg.1
  exact ⟨hf, hpe, hg.2⟩

/-- Settled once, with its reply out and no thread left. -/
def Completed (d : Decoder ρ μ β) (cell : RequestStateCell ρ μ β) : Prop :=
  cell.guards = [] ∧ cell.consumers = [] ∧ ∃ w state, cell.settled = [(w, state)] ∧
    cell.replies = (w.reply d state).toList

theorem Runs.completed (h : cell.Runs d phase) (hp : phase ≠ .opened)
    (hw : cell.work = 0) : cell.Completed d := by
  have hg : cell.guards = [] := by
    cases hco : cell.guards with
    | nil => rfl
    | cons guard rest => cases hd : guard.decoded <;>
        simp [work, hco, RequestPartialGuard.work, hd] at hw
  cases h.stage with
  | opened ho _ _ _ => exact absurd ho hp
  | @held c _ hc _ _ => cases c <;> simp [work, hc, Consumer.work] at hw
  | @settled w st _ hc hs hr =>
    exact ⟨hg, hc, w, st, hs, hr⟩

end RequestStateCell

/-! ### The slot table -/

def Holds (shared : WorkerShared Unit) (r : ℕ) : Prop :=
  ∃ k slot, shared.requests.get? k = some slot ∧ slot.ordinal = r

namespace System

/-- A request's handshake is open while it is in the slot table. Ordinals are drawn once, so
no two slots are for one request. -/
structure Tracked (d : Decoder ρ μ β) (s : System ρ μ β) : Prop where
  cells : ∀ r cell, s.cells r = some cell →
    ∃ phase, cell.Runs d phase ∧ (phase = .opened ↔ Holds s.shared r)
  slots : ∀ r, Holds s.shared r → s.cells r ≠ none
  distinct : ∀ k k' slot slot', s.shared.requests.get? k = some slot →
    s.shared.requests.get? k' = some slot' → slot.ordinal = slot'.ordinal → k = k'
  drawn : ∀ p ∈ s.drawn, p.1 ≤ s.dispatched ∧ s.cells p.1 = none
  once : (s.drawn.map Prod.fst).Nodup
  bound : ∀ r, s.cells r ≠ none → r ≤ s.dispatched

variable {s t : System ρ μ β}

theorem tracked_new (id : ℕ) : (new id : System ρ μ β).Tracked d := by
  have he : ∀ k, (new id : System ρ μ β).shared.requests.get? k = none := fun k =>
    Slab.get?_empty k
  refine ⟨?_, ?_, ?_, ?_, nodup_nil, ?_⟩
  · intro r cell h
    simp [new] at h
  · rintro r ⟨k, slot, hg, -⟩
    simp [he] at hg
  · intro k k' slot slot' hg
    simp [he] at hg
  · intro p hp
    simp [new] at hp
  · intro r h
    simp [new] at h

theorem mem_inFlight (s : System ρ μ β) (r : ℕ) : r ∈ s.inFlight ↔ Holds s.shared r := by
  simp only [inFlight, Holds, mem_filterMap, Slab.mem_keys, map_eq_some_iff]
  constructor
  · rintro ⟨k, -, slot, hg, ho⟩
    exact ⟨k, slot, hg, ho⟩
  · rintro ⟨k, slot, hg, ho⟩
    exact ⟨k, ⟨slot, hg⟩, slot, hg, ho⟩

variable {shared : WorkerShared Unit} {r : ℕ} {slot : RequestSlot Unit}

theorem holds_insertSlot (shared : WorkerShared Unit) (generation : UInt32) (ordinal r : ℕ) :
    Holds (shared.insertSlot generation () ordinal).2 r ↔ Holds shared r ∨ r = ordinal := by
  simp only [Holds, WorkerShared.insertSlot, Slab.get?_insert]
  constructor
  · rintro ⟨k, slot, hg, rfl⟩
    split at hg
    · cases hg
      exact .inr rfl
    · exact .inl ⟨k, slot, hg, rfl⟩
  · rintro (⟨k, slot, hg, rfl⟩ | rfl)
    · refine ⟨k, slot, ?_, rfl⟩
      rw [if_neg, hg]
      rintro rfl
      simp [Slab.get?_vacantKey] at hg
    · exact ⟨_, _, if_pos rfl, rfl⟩

section

variable (h : s.Tracked d)
include h

theorem Tracked.of_cells {cs : ℕ → Option (RequestStateCell ρ μ β)}
    (hs : ∀ k slot, shared.requests.get? k = some slot → s.shared.requests.get? k = some slot)
    (hd : ∀ r, cs r = none ↔ s.cells r = none)
    (hce : ∀ r cell, cs r = some cell →
      ∃ phase, cell.Runs d phase ∧ (phase = .opened ↔ Holds shared r)) :
    { s with shared := shared, cells := cs }.Tracked d := by
  refine ⟨hce, ?_, ?_, ?_, h.once, ?_⟩
  · rintro r ⟨k, slot, hg, ho⟩
    exact (hd r).not.mpr (h.slots r ⟨k, slot, hs k slot hg, ho⟩)
  · intro k k' slot slot' hg hg'
    exact h.distinct k k' slot slot' (hs k slot hg) (hs k' slot' hg')
  · intro p hp
    obtain ⟨hle, hn⟩ := h.drawn p hp
    exact ⟨hle, (hd p.1).mpr hn⟩
  · intro r hc
    exact h.bound r ((hd r).not.mp hc)

theorem Tracked.update
    (hsh : ∀ k slot, shared.requests.get? k = some slot → s.shared.requests.get? k = some slot)
    {cell next : RequestStateCell ρ μ β} (ho : ∀ r', r' ≠ r → (Holds shared r' ↔ Holds s.shared r'))
    (hc : s.cells r = some cell) {phase : Handshake.Phase ρ (Settlement μ)} (hn : next.Runs d phase)
    (hop : phase = .opened ↔ Holds shared r) :
    { s with shared := shared, cells := update s.cells r (some next) }.Tracked d := by
  apply h.of_cells hsh
  · intro r'
    by_cases hr : r' = r
    · simp [hr, hc]
    · rw [update_of_ne hr]
  · intro r' found hf
    by_cases hr : r' = r
    · subst hr
      obtain rfl : next = found := by simpa using hf
      exact ⟨phase, hn, hop⟩
    · rw [update_of_ne hr] at hf
      obtain ⟨phase', hru, hs⟩ := h.cells r' found hf
      exact ⟨phase', hru, hs.trans (ho r' hr).symm⟩

theorem Tracked.stepCell {a : CellAction} (hs : s.step d (.cell r a) = some t) : t.Tracked d := by
  obtain ⟨cell, hc, hm⟩ := bind_eq_some_iff.mp hs
  obtain ⟨next, hn, rfl⟩ := map_eq_some_iff.mp hm
  obtain ⟨phase, hr, ho⟩ := h.cells r cell hc
  obtain ⟨phase', hr', hsa⟩ := hr.stepCell hn
  exact h.update (fun _ _ hg => hg) (fun _ _ => Iff.rfl) hc hr' (hsa.trans ho)

theorem Tracked.opened {k : ℕ} (hg : s.shared.requests.get? k = some slot) :
    ∃ cell, s.cells slot.ordinal = some cell ∧ cell.Runs d .opened := by
  have hh : Holds s.shared slot.ordinal := ⟨k, slot, hg, rfl⟩
  obtain ⟨cell, hc⟩ := ne_none_iff_exists'.mp (h.slots _ hh)
  obtain ⟨phase, hr, ho⟩ := h.cells _ cell hc
  obtain rfl := ho.mpr hh
  exact ⟨cell, hc, hr⟩

theorem Tracked.handlePartial (cid : CorrelationId) (msg : μ) :
    (s.handlePartial cid msg).Tracked d := by
  unfold System.handlePartial
  split
  · rename_i slot hma
    obtain ⟨key, -, hm⟩ := bind_eq_some_iff.mp hma
    obtain ⟨hg, -⟩ := (WorkerShared.matching_eq_some_iff _ key slot).mp hm
    obtain ⟨cell, hc, hr⟩ := h.opened hg
    rw [modify, hc]
    exact h.update (fun _ _ hg => hg) (fun _ _ => Iff.rfl) hc (hr.beginPartial msg)
      (by simpa using ⟨_, slot, hg, rfl⟩)
  · exact h

theorem Tracked.holds_remove {k : ℕ} (hg : s.shared.requests.get? k = some slot) (r : ℕ) :
    Holds { s.shared with requests := s.shared.requests.remove k } r ↔
      Holds s.shared r ∧ r ≠ slot.ordinal := by
  simp only [Holds, Slab.get?_remove]
  constructor
  · rintro ⟨k', slot', hg', rfl⟩
    split at hg'
    · simp at hg'
    · rename_i hne
      exact ⟨⟨k', slot', hg', rfl⟩, fun heq => hne (h.distinct _ _ _ _ hg' hg heq)⟩
  · rintro ⟨⟨k', slot', hg', rfl⟩, hne⟩
    refine ⟨k', slot', ?_, rfl⟩
    rw [if_neg, hg']
    rintro rfl
    exact hne (by rw [some.inj (hg'.symm.trans hg)])

theorem Tracked.takeSlot (key : DispatchKey) (w : Settlement μ) : (s.takeSlot key w).Tracked d := by
  unfold System.takeSlot
  cases hm : s.shared.matching key with
  | none => simpa [WorkerShared.takeSlot_of_matching_none hm] using h
  | some slot =>
    obtain ⟨hg, -⟩ := (WorkerShared.matching_eq_some_iff _ key slot).mp hm
    obtain ⟨cell, hc, hru⟩ := h.opened hg
    have hre := h.holds_remove hg
    have hs := (s.shared.shrinks_takeSlot key).slots
    simp only [WorkerShared.takeSlot_of_matching hm] at hs ⊢
    rw [modify, hc]
    refine h.update hs (fun r hr => ?_) hc (hru.take w) ?_
    · simpa [hr] using hre r
    · simpa using (hre slot.ordinal).not.mpr (by simp)

theorem Tracked.takeMessage (cid : CorrelationId) (w : Settlement μ) :
    (s.takeMessage cid w).Tracked d := by
  unfold System.takeMessage
  split
  · exact h.takeSlot _ w
  · exact h

theorem Tracked.takeTicket {ticket : RequestTicket} {w : Settlement μ}
    (hs : s.takeTicket ticket w = some t) : t.Tracked d := by
  obtain ⟨key, -, rfl⟩ := map_eq_some_iff.mp hs
  exact h.takeSlot key w

theorem Tracked.drain (reason : String) : (s.drain reason).Tracked d := by
  have he : ∀ r, ¬ Holds s.shared.drainInFlight r := by
    rintro r ⟨k, slot, hg, -⟩
    simp [WorkerShared.drainInFlight] at hg
  apply h.of_cells
  · intro k slot hg
    simp [WorkerShared.drainInFlight] at hg
  · intro r
    split <;> simp
  · intro r found hf
    split at hf
    · rename_i hin
      obtain ⟨k, slot, hg, rfl⟩ := (mem_inFlight s r).mp hin
      obtain ⟨cell, hc, hr⟩ := h.opened hg
      obtain rfl : cell.take _ = found := by simpa [hc] using hf
      exact ⟨_, hr.take _, by simpa using he _⟩
    · rename_i hin
      obtain ⟨phase, hr, ho⟩ := h.cells r found hf
      have hou : ¬ Holds s.shared r := fun hh => hin ((mem_inFlight s r).mpr hh)
      exact ⟨phase, hr, by simpa [he r] using ho.not.mpr hou⟩

theorem Tracked.draw (hs : s.step d .draw = some t) : t.Tracked d := by
  cases hs
  have hf : s.cells (s.dispatched + 1) = none := by
    by_contra hc
    have := h.bound _ hc
    omega
  refine ⟨h.cells, h.slots, h.distinct, ?_, ?_, ?_⟩
  · intro p hp
    rcases mem_cons.mp hp with rfl | hp
    · exact ⟨le_rfl, hf⟩
    · obtain ⟨hle, hn⟩ := h.drawn p hp
      exact ⟨hle.trans (Nat.le_succ _), hn⟩
  · refine nodup_cons.mpr ⟨?_, h.once⟩
    intro hm
    obtain ⟨p, hp, heq⟩ := mem_map.mp hm
    have := (h.drawn p hp).1
    simp only at heq
    omega
  · intro r hc
    exact (h.bound r hc).trans (Nat.le_succ _)

theorem Tracked.insert {ordinal : ℕ} {generation : UInt32} {state : ρ}
    (hs : s.step d (.insert ordinal generation state) = some t) : t.Tracked d := by
  simp only [step] at hs
  split at hs
  · rename_i hco
    cases hs
    have hm : (ordinal, generation) ∈ s.drawn := contains_iff_mem.mp hco
    obtain ⟨hle, hn⟩ := h.drawn _ hm
    have hh := holds_insertSlot s.shared generation ordinal
    have ho : ¬ Holds s.shared ordinal := fun hin => h.slots _ hin hn
    refine ⟨?_, ?_, ?_, ?_, ?_, ?_⟩
    · intro r found hf
      by_cases hr : r = ordinal
      · subst hr
        obtain rfl : RequestStateCell.new state = found := by simpa using hf
        exact ⟨.opened, RequestStateCell.runs_new state, by simpa using (hh r).mpr (.inr rfl)⟩
      · simp only [update_of_ne hr] at hf
        obtain ⟨phase, hru, hop⟩ := h.cells r found hf
        exact ⟨phase, hru, hop.trans (by simpa [hr] using (hh r).symm)⟩
    · intro r hin
      by_cases hr : r = ordinal
      · simp [hr]
      · simpa [update_of_ne hr] using h.slots r (((hh r).mp hin).resolve_right hr)
    · intro k k' slot slot' hg hg' heq
      simp only [WorkerShared.insertSlot, Slab.get?_insert] at hg hg'
      split at hg <;> split at hg'
      · simp_all
      · cases hg
        exact absurd ⟨k', slot', hg', heq.symm⟩ ho
      · cases hg'
        exact absurd ⟨k, slot, hg, heq⟩ ho
      · exact h.distinct k k' slot slot' hg hg' heq
    · intro p hp
      obtain ⟨hle', hn'⟩ := h.drawn p (mem_of_mem_erase hp)
      have hne : p.1 ≠ ordinal := by
        intro heq
        have hsa : p = (ordinal, generation) :=
          inj_on_of_nodup_map h.once (mem_of_mem_erase hp) hm heq
        have hno : s.drawn.Nodup := h.once.of_map
        exact List.Nodup.not_mem_erase hno (hsa ▸ hp)
      exact ⟨hle', by simpa [update_of_ne hne] using hn'⟩
    · exact h.once.sublist (erase_sublist.map _)
    · intro r hc
      by_cases hr : r = ordinal
      · exact hr ▸ hle
      · exact h.bound r (by simpa [update_of_ne hr] using hc)
  · simp at hs

theorem Tracked.step {a : Action ρ μ} (hs : s.step d a = some t) : t.Tracked d := by
  cases a with
  | draw => exact h.draw hs
  | insert ordinal generation st => exact h.insert hs
  | partialResponse cid msg =>
    cases hs
    exact h.handlePartial cid msg
  | response cid msg | requestFailure cid reason =>
    cases hs
    exact h.takeMessage cid _
  | cancelRequest ticket | timeoutRequest ticket | sendFailure ticket error
  | quarantine ticket detail => exact h.takeTicket hs
  | drainInFlight reason =>
    cases hs
    exact h.drain reason
  | cell r act => exact h.stepCell hs

end

theorem tracked_of_run {id : ℕ} {acts : List (Action ρ μ)}
    (h : FreeRun (step d) (new id) acts s) : s.Tracked d :=
  h.invariant (fun _ _ _ ht _ hs => ht.step hs) (tracked_new id)

/-! ### Completion -/

theorem handlePartial_eq (s : System ρ μ β) (h : s.Tracked d) (cid : CorrelationId) (msg : μ) :
    s.handlePartial cid msg = s ∨ ∃ r cell, Holds s.shared r ∧ s.cells r = some cell ∧
      s.handlePartial cid msg =
        { s with cells := update s.cells r (some (cell.beginPartial msg)) } := by
  unfold System.handlePartial
  split
  · rename_i slot hma
    obtain ⟨key, -, hm⟩ := bind_eq_some_iff.mp hma
    obtain ⟨hg, -⟩ := (WorkerShared.matching_eq_some_iff _ key slot).mp hm
    obtain ⟨cell, hc, -⟩ := h.opened hg
    exact .inr ⟨slot.ordinal, cell, ⟨_, slot, hg, rfl⟩, hc, by simp [modify, hc]⟩
  · exact .inl rfl

/-- The steps that the threads of all cells still have to take. -/
def work (s : System ρ μ β) : ℕ :=
  ∑ r ∈ Finset.range (s.dispatched + 1), ((s.cells r).map RequestStateCell.work).getD 0

theorem Tracked.work_lt (h : s.Tracked d) {a : CellAction}
    (hs : s.step d (.cell r a) = some t) : t.work < s.work := by
  obtain ⟨cell, hc, hm⟩ := bind_eq_some_iff.mp hs
  obtain ⟨next, hn, rfl⟩ := map_eq_some_iff.mp hm
  have hlt := work_of_stepCell hn
  have hle : r ≤ s.dispatched := h.bound r (by simp [hc])
  apply Finset.sum_lt_sum
  · intro r' _
    by_cases hr' : r' = r
    · simpa [hr', hc] using hlt.le
    · simp [update_of_ne hr']
  · exact ⟨r, by simpa using Nat.lt_succ_of_le hle, by simpa [hc] using hlt⟩

/-- Steps of threads that already hold a cell. -/
def OnCells (_ : System ρ μ β) (a : Action ρ μ) : Prop :=
  ∃ r action, a = .cell r action

theorem Tracked.length_le_work (h : s.Tracked d) {rest : List (Action ρ μ)}
    (hr : Run (System.step d) OnCells s rest t) : t.Tracked d ∧ rest.length ≤ s.work := by
  induction hr with
  | nil => exact ⟨h, Nat.zero_le _⟩
  | cons hok hs _ ih =>
    obtain ⟨r, a, rfl⟩ := hok
    obtain ⟨ht, hle⟩ := ih (h.step hs)
    have hlt := h.work_lt hs
    exact ⟨ht, by simp only [length_cons]; omega⟩

/-- Where no thread of a cell can go on, the requests out of the table are completed. -/
theorem Tracked.completed (h : s.Tracked d) (hst : ∀ r a, s.step d (.cell r a) = none)
    {cell : RequestStateCell ρ μ β} (hc : s.cells r = some cell)
    (ho : ¬ Holds s.shared r) : cell.Completed d := by
  obtain ⟨phase, hr, hop⟩ := h.cells r cell hc
  apply hr.completed (hop.not.mpr ho)
  by_contra hwork
  obtain ⟨a, hs⟩ := hr.exists_step hwork
  apply hs
  simpa [System.step, hc] using hst r a

/-- In every interleaving: a request is replied to at most once; in the table nothing has been
settled, and out of it one thread has settled it or is going to; what is settled is the decoder
after every partial that began; a partial begins in the table or changes nothing. The threads
that hold a cell come to an end in any order, and then every removed request is completed. -/
theorem completion_of_run (d : Decoder ρ μ β) {id : ℕ} {actions : List (Action ρ μ)}
    {s : System ρ μ β} (h : FreeRun (step d) (new id) actions s) :
    (∀ r cell, s.cells r = some cell → cell.replies.length ≤ 1 ∧
      (Holds s.shared r → cell.consumers = [] ∧ cell.settled = [] ∧ cell.replies = []) ∧
      (¬ Holds s.shared r → cell.owed + cell.settled.length = 1) ∧
      ∀ w state, (w, state) ∈ cell.settled →
        state = cell.decoded.foldl d.onPartial cell.initial ∧ cell.begun ~ cell.decoded ∧
          ∀ reply ∈ cell.replies, w.reply d state = some reply) ∧
    (∀ cid message t, s.step d (.partialResponse cid message) = some t →
      t = s ∨ ∃ r cell, Holds s.shared r ∧ s.cells r = some cell ∧
        t = { s with cells := Function.update s.cells r (some (cell.beginPartial message)) }) ∧
    ∃ bound, ∀ rest t, Run (step d) OnCells s rest t → rest.length ≤ bound ∧
      ((∀ r action, t.step d (.cell r action) = none) →
        ∀ r cell, t.cells r = some cell → ¬ Holds t.shared r → cell.Completed d) := by
  have htracked := tracked_of_run h
  refine ⟨?_, ?_, s.work, ?_⟩
  · intro r cell hcell
    obtain ⟨phase, hruns, hopened⟩ := htracked.cells r cell hcell
    refine ⟨hruns.replies_length_le, ?_, ?_, fun w state hmem => hruns.of_settled hmem⟩
    · intro hin
      obtain rfl := hopened.mpr hin
      exact hruns.stage.of_opened
    · intro hout
      exact hruns.owed_add_settled (hopened.not.mpr hout)
  · intro cid message t hs
    cases hs
    exact handlePartial_eq s htracked cid message
  · intro rest t hrun
    obtain ⟨htracked', hle⟩ := htracked.length_le_work hrun
    exact ⟨hle, fun hstuck r cell hcell hout => htracked'.completed hstuck hcell hout⟩

/-- A timeout that takes the slot while a partial is inside waits for it to be decoded. -/
theorem completion_of_run_overtaken :
    ∃ (s : System (List ℕ) ℕ (List ℕ)) (cell : RequestStateCell (List ℕ) ℕ (List ℕ)),
      FreeRun (step ⟨fun seen m => seen ++ [m], fun seen m => seen ++ [m], fun seen _ => seen⟩)
        (new 0)
        [.draw, .insert 1 1 [], .partialResponse (.int (2 ^ 32 + 1)) 7, .timeoutRequest ⟨0, 1⟩,
          .cell 1 (.onPartial 0), .cell 1 (.dropGuard 0), .cell 1 (.waitForPartials 0),
          .cell 1 (.takeState 0)] s ∧
      s.cells 1 = some cell ∧ cell.settled = [(.fail .requestTimeout, [7])] ∧
      cell.replies.length ≤ 1 ∧ [7] = cell.decoded.foldl (fun seen m => seen ++ [m]) [] ∧
      cell.begun ~ cell.decoded := by
  have hrun : FreeRun
      (step ⟨fun seen m => seen ++ [m], fun seen m => seen ++ [m], fun seen _ => seen⟩)
      (new 0 : System (List ℕ) ℕ (List ℕ))
      [.draw, .insert 1 1 [], .partialResponse (.int (2 ^ 32 + 1)) 7, .timeoutRequest ⟨0, 1⟩,
        .cell 1 (.onPartial 0), .cell 1 (.dropGuard 0), .cell 1 (.waitForPartials 0),
        .cell 1 (.takeState 0)] _ :=
    .cons trivial rfl (.cons trivial rfl (.cons trivial rfl (.cons trivial rfl
      (.cons trivial rfl (.cons trivial rfl (.cons trivial rfl (.cons trivial rfl (.nil _))))))))
  obtain ⟨hlength, -, -, hsettled⟩ := (completion_of_run _ hrun).1 1 _ rfl
  obtain ⟨hfold, hperm, -⟩ := hsettled (.fail .requestTimeout) [7] (List.mem_singleton.mpr rfl)
  exact ⟨_, _, hrun, rfl, rfl, hlength, hfold, hperm⟩

end System

end Xbbg.Requests
