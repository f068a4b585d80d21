import Xbbg.Library.Machine
import Xbbg.Verification.Dispatch.Keys

/-! The generation check of the slot table. A slot keeps the whole generation counter and a
correlation identifier its low thirty bits, so the check accepts a live request in the first
quarter of every counter cycle only. -/

namespace Xbbg.Dispatch

open List Library DispatchKey Worker WorkerShared UInt32

variable {ρ : Type*}
variable {key : DispatchKey} {dispatched ordinal : ℕ} {generation : UInt32} {t w : Worker ρ}
  {slot : RequestSlot ρ}

namespace WorkerShared

variable {w : WorkerShared ρ} {key : DispatchKey}

theorem matching_eq_some_iff (w : WorkerShared ρ) (key : DispatchKey) (slot : RequestSlot ρ) :
    w.matching key = some slot ↔
      w.requests.get? key.toSlabKey = some slot ∧ slot.generation = key.generation := by
  unfold matching
  cases hge : w.requests.get? key.toSlabKey with
  | none => simp
  | some x =>
    simp only [Option.some.injEq]
    split <;> rename_i hg
    · constructor
      · rintro h
        cases h
        exact ⟨rfl, hg⟩
      · rintro ⟨rfl, _⟩
        rfl
    · constructor
      · simp
      · rintro ⟨rfl, h⟩
        exact absurd h hg

theorem takeSlot_of_matching (h : w.matching key = some slot) :
    w.takeSlot key = (some slot, { w with requests := w.requests.remove key.toSlabKey }) := by
  simp [takeSlot, h]

theorem takeSlot_of_matching_none (h : w.matching key = none) : w.takeSlot key = (none, w) := by
  simp [takeSlot, h]

/-- The second table has lost slots at most. -/
structure Shrinks (w w' : WorkerShared ρ) : Prop where
  slots : ∀ k slot, w'.requests.get? k = some slot → w.requests.get? k = some slot
  counter : w'.nextGeneration = w.nextGeneration

theorem Shrinks.refl (w : WorkerShared ρ) : Shrinks w w :=
  ⟨fun _ _ h => h, rfl⟩

theorem Shrinks.trans {w' w'' : WorkerShared ρ} (h : Shrinks w w') (h' : Shrinks w' w'') :
    Shrinks w w'' :=
  ⟨fun k slot hg => h.slots k slot (h'.slots k slot hg), h'.counter.trans h.counter⟩

theorem Shrinks.matching_none {w' : WorkerShared ρ} (h : Shrinks w w')
    (hn : w.matching key = none) : w'.matching key = none := by
  by_contra hsome
  obtain ⟨slot, hs⟩ := Option.ne_none_iff_exists'.mp hsome
  obtain ⟨hg, hge⟩ := (matching_eq_some_iff w' key slot).mp hs
  have := (matching_eq_some_iff w key slot).mpr ⟨h.slots _ _ hg, hge⟩
  simp [hn] at this

theorem shrinks_takeSlot (w : WorkerShared ρ) (key : DispatchKey) :
    Shrinks w (w.takeSlot key).2 := by
  cases hm : w.matching key with
  | none =>
    rw [takeSlot_of_matching_none hm]
    exact Shrinks.refl w
  | some slot =>
    rw [takeSlot_of_matching hm]
    refine ⟨?_, rfl⟩
    intro k x hg
    rw [Slab.get?_remove] at hg
    split at hg
    · simp at hg
    · exact hg

theorem shrinks_settleOne (w : WorkerShared ρ) (cid : CorrelationId) :
    Shrinks w (w.settleOne cid).2 := by
  unfold settleOne
  split
  · exact shrinks_takeSlot w _
  · exact Shrinks.refl w

theorem shrinks_settleAll (w : WorkerShared ρ) (cids : List CorrelationId) :
    Shrinks w (w.settleAll cids).2 := by
  induction cids generalizing w with
  | nil => exact Shrinks.refl w
  | cons cid rest ih => exact (shrinks_settleOne w cid).trans (ih _)

theorem shrinks_handleResponse (w : WorkerShared ρ) (cids : List CorrelationId) :
    Shrinks w (w.handleResponse cids).2 := by
  unfold handleResponse
  split
  · exact Shrinks.refl w
  · exact shrinks_settleAll w cids

variable {cid : CorrelationId}

/-- A slot that one of the identifiers addresses is settled by the message, whatever the
other identifiers are. -/
theorem mem_settleAll_of_matching
    {cids : List CorrelationId} (hk : fromCorrelationId cid = some key)
    (hm : w.matching key = some slot) (hme : cid ∈ cids) : slot ∈ (w.settleAll cids).1 := by
  induction cids generalizing w with
  | nil => simp at hme
  | cons first rest ih =>
    simp only [settleAll, mem_append, Option.mem_toList]
    rcases mem_cons.mp hme with rfl | hr
    · exact .inl (by simp [settleOne, hk, takeSlot_of_matching hm])
    · cases hf : fromCorrelationId first with
      | none => exact .inr (ih (by simpa [settleOne, hf] using hm) hr)
      | some other =>
        obtain ⟨hg, hge⟩ := (matching_eq_some_iff w key slot).mp hm
        cases ho : w.matching other with
        | none =>
          refine .inr (ih ?_ hr)
          simpa [settleOne, hf, takeSlot_of_matching_none ho] using hm
        | some found =>
          by_cases hs : key.toSlabKey = other.toSlabKey
          · obtain ⟨hfo, _⟩ := (matching_eq_some_iff w other found).mp ho
            obtain rfl : slot = found := Option.some.inj (by rw [← hg, hs, hfo])
            exact .inl (by simp [settleOne, hf, takeSlot_of_matching ho])
          · refine .inr (ih ?_ hr)
            rw [settleOne, hf]
            simp only [takeSlot_of_matching ho]
            refine (matching_eq_some_iff _ key slot).mpr ⟨?_, hge⟩
            simp [Slab.get?_remove, hs, hg]

theorem settleAll_append_cons_of_matching_none
    (hk : fromCorrelationId cid = some key) (hn : w.matching key = none)
    (front back : List CorrelationId) :
    w.settleAll (front ++ cid :: back) = w.settleAll (front ++ back) := by
  induction front generalizing w with
  | nil => simp [settleAll, settleOne, hk, takeSlot_of_matching_none hn]
  | cons a rest ih =>
    simp only [cons_append, settleAll]
    rw [ih ((shrinks_settleOne w a).matching_none hn)]

end WorkerShared

/-- A message with the identifier of `key` gets through to the request in `slot`, as a
partial and as a final response. -/
def WorkerShared.Reaches (w : WorkerShared ρ) (key : DispatchKey) (slot : RequestSlot ρ) : Prop :=
  ∀ cids : List CorrelationId, key.toCorrelationId ∈ cids → .int identityCid ∉ cids →
    slot ∈ w.handlePartialResponse cids ∧ slot ∈ (w.handleResponse cids).1

/-- Messages are handled as if they did not bear the identifier of `key`, and a
cancellation or a timeout of its ticket does nothing. -/
structure WorkerShared.Rejects (w : WorkerShared ρ) (ticket : RequestTicket)
    (key : DispatchKey) : Prop where
  partialResponse : ∀ front back, w.handlePartialResponse (front ++ key.toCorrelationId :: back) =
    w.handlePartialResponse (front ++ back)
  response : ∀ front back, w.handleResponse (front ++ key.toCorrelationId :: back) =
    w.handleResponse (front ++ back)
  settle : w.takeTicket ticket = some (none, w)

variable {k : ℕ}

theorem WorkerShared.reaches_iff {w : WorkerShared ρ} (hg : w.requests.get? k = some slot)
    (hk : withGeneration k slot.generation = some key) :
    w.Reaches key slot ↔ slot.generation = key.generation := by
  have hd := fromCorrelationId_toCorrelationId hk
  have hs := toSlabKey_of_withGeneration hk
  constructor
  · intro h
    have hm := (h [key.toCorrelationId] (by simp)
      (by simpa using (toCorrelationId_ne_identityCid hk).symm)).1
    simp only [handlePartialResponse] at hm
    split at hm
    · simp at hm
    · simp only [filterMap_cons, filterMap_nil, hd, Option.bind_some] at hm
      split at hm
      · simp at hm
      · rename_i found hf
        obtain rfl : slot = found := by simpa using hm
        exact ((matching_eq_some_iff w key slot).mp hf).2
  · intro hge cids hm hide
    have hma : w.matching key = some slot :=
      (matching_eq_some_iff w key slot).mpr ⟨by rw [hs, hg], hge⟩
    constructor
    · rw [handlePartialResponse, if_neg hide]
      exact mem_filterMap.mpr ⟨_, hm, by simp [hd, hma]⟩
    · rw [handleResponse, if_neg hide]
      exact mem_settleAll_of_matching hd hma hm

variable {ticket : RequestTicket}

theorem WorkerShared.rejects_of_matching_none {w : WorkerShared ρ}
    (hk : withGeneration ticket.key ticket.generation = some key)
    (hn : w.matching key = none) : w.Rejects ticket key := by
  have hd := fromCorrelationId_toCorrelationId hk
  have hide := (toCorrelationId_ne_identityCid hk).symm
  refine ⟨?_, ?_, ?_⟩
  · intro front back
    simp [handlePartialResponse, hd, hn, hide]
  · intro front back
    simp [handleResponse, hide, settleAll_append_cons_of_matching_none hd hn]
  · simp [takeTicket, hk, takeSlot_of_matching_none hn]

/-- The generation is the wrapped ordinal of a dispatch that has happened. -/
structure Numbered (dispatched ordinal : ℕ) (generation : UInt32) : Prop where
  le : ordinal ≤ dispatched
  generation_eq : generation = UInt32.ofNat ordinal

theorem Numbered.mono {dispatched' : ℕ} (h : Numbered dispatched ordinal generation)
    (hle : dispatched ≤ dispatched') : Numbered dispatched' ordinal generation :=
  ⟨h.le.trans hle, h.generation_eq⟩

theorem Numbered.toNat_generation (h : Numbered dispatched ordinal generation) :
    generation.toNat = ordinal % 2 ^ 32 := by
  rw [h.generation_eq, toNat_ofNat']

/-- Every generation in the worker is the wrapped ordinal of its dispatch. -/
structure Worker.Counted (w : Worker ρ) : Prop where
  counter : w.shared.nextGeneration = UInt32.ofNat w.dispatched
  drawn : ∀ d ∈ w.drawn, Numbered w.dispatched d.1 d.2
  slots : ∀ k slot, w.shared.requests.get? k = some slot →
    Numbered w.dispatched slot.ordinal slot.generation
  issued : ∀ i ∈ w.issued, Numbered w.dispatched i.ordinal i.generation

theorem Worker.counted_new : (new : Worker ρ).Counted :=
  ⟨rfl, by simp [new], by simp [new, WorkerShared.new], by simp [new]⟩

theorem Worker.Counted.of_shrinks (h : w.Counted) {shared : WorkerShared ρ}
    (hs : w.shared.Shrinks shared) : { w with shared := shared }.Counted :=
  ⟨hs.counter.trans h.counter, h.drawn,
    fun k slot hg => h.slots k slot (hs.slots k slot hg), h.issued⟩

theorem Worker.Counted.draw (h : w.Counted) (hs : w.step .draw = some t) : t.Counted := by
  cases hs
  have hn : w.shared.nextGeneration + 1 = ofNat (w.dispatched + 1) := by
    rw [h.counter]
    simp
  have hle : w.dispatched ≤ w.dispatched + 1 := Nat.le_succ _
  refine ⟨hn, ?_, fun k slot hg => (h.slots k slot hg).mono hle,
    fun i hi => (h.issued i hi).mono hle⟩
  intro d hd
  rcases mem_cons.mp hd with rfl | hd
  · exact ⟨le_rfl, hn⟩
  · exact (h.drawn d hd).mono hle

theorem Worker.Counted.insert (h : w.Counted) {st : ρ}
    (hs : w.step (.insert ordinal generation st) = some t) : t.Counted := by
  simp only [step] at hs
  split at hs
  · rename_i hm
    cases hs
    have hn := h.drawn _ hm
    refine ⟨h.counter, fun d hd => h.drawn d (mem_of_mem_erase hd), ?_, ?_⟩
    · intro k slot hg
      simp only [insertSlot, Slab.get?_insert] at hg
      split at hg
      · cases hg
        exact hn
      · exact h.slots k slot hg
    · intro i hi
      rcases mem_cons.mp hi with rfl | hi
      · exact hn
      · exact h.issued i hi
  · simp at hs

theorem Worker.Counted.settleTicket (h : w.Counted)
    (hs : w.settleTicket ticket = some t) : t.Counted := by
  simp only [Worker.settleTicket, takeTicket, Option.map_map,
    Option.map_eq_some_iff, Function.comp_apply] at hs
  obtain ⟨key, _, rfl⟩ := hs
  exact h.of_shrinks (w.shared.shrinks_takeSlot key)

theorem Worker.Counted.step {a : Action ρ} (h : w.Counted) (hs : w.step a = some t) :
    t.Counted := by
  cases a with
  | draw => exact h.draw hs
  | insert ordinal generation st => exact h.insert hs
  | response cids =>
    cases hs
    exact h.of_shrinks (w.shared.shrinks_handleResponse cids)
  | cancel ticket | timeout ticket | sendFailure ticket => exact h.settleTicket hs
  | drain =>
    cases hs
    exact h.of_shrinks ⟨by simp [drainInFlight], rfl⟩

theorem Worker.counted_of_run {acts : List (Action ρ)} (h : FreeRun step new acts w) : w.Counted :=
  h.invariant (fun _ _ _ hc _ hs => hc.step hs) counted_new

/-- A slot accepts its own identifier while the generation fits thirty bits. -/
theorem Numbered.generation_eq_key_iff (h : Numbered dispatched ordinal generation)
    (hk : withGeneration k generation = some key) :
    generation = key.generation ↔ ordinal % 2 ^ 32 < 2 ^ 30 := by
  rw [← UInt32.toNat_inj, toNat_generation_of_withGeneration hk, h.toNat_generation]
  constructor
  · intro heq
    rw [heq]
    exact Nat.mod_lt _ (by decide)
  · intro hlt
    exact (Nat.mod_eq_of_lt hlt).symm

/-- Ordinals less than `2 ^ 30` apart are told apart by the masked generation. -/
theorem Numbered.generation_ne_key {ordinal' : ℕ} {generation' : UInt32}
    (h : Numbered dispatched ordinal generation) (h' : Numbered dispatched ordinal' generation')
    (hk : withGeneration k generation = some key) (hne : ordinal' ≠ ordinal)
    (hlt : ordinal' < ordinal + 2 ^ 30) (hgt : ordinal < ordinal' + 2 ^ 30) :
    generation' ≠ key.generation := by
  intro heq
  have hn := congrArg toNat heq
  rw [toNat_generation_of_withGeneration hk, h.toNat_generation, h'.toNat_generation] at hn
  omega

/-- In every run, a message for a live request reaches it exactly when the ordinal of its
dispatch, wrapped at `2 ^ 32`, is below `2 ^ 30`; the identifier of a request that has left
its slot is rejected while both it and the slot's occupant are recent. -/
theorem generation_check_of_run {w : Worker ρ} {actions : List (Action ρ)}
    (h : FreeRun Worker.step Worker.new actions w) :
    (∀ k slot key, w.shared.requests.get? k = some slot →
      DispatchKey.withGeneration k slot.generation = some key →
      (w.shared.Reaches key slot ↔ slot.ordinal % 2 ^ 32 < 2 ^ 30)) ∧
    ∀ i ∈ w.issued, ∀ key, DispatchKey.withGeneration i.key i.generation = some key →
      w.dispatched < i.ordinal + 2 ^ 30 →
      (∀ slot, w.shared.requests.get? i.key = some slot →
        slot.ordinal ≠ i.ordinal ∧ i.ordinal < slot.ordinal + 2 ^ 30) →
      w.shared.Rejects i.ticket key := by
  have hc := counted_of_run h
  constructor
  · intro k slot key hget hkey
    rw [reaches_iff hget hkey]
    exact (hc.slots k slot hget).generation_eq_key_iff hkey
  · intro i hi key hkey hrecent hslot
    refine rejects_of_matching_none hkey ?_
    by_contra hsome
    obtain ⟨slot, hmatch⟩ := Option.ne_none_iff_exists'.mp hsome
    obtain ⟨hget, hgen⟩ := (matching_eq_some_iff _ key slot).mp hmatch
    rw [toSlabKey_of_withGeneration hkey] at hget
    obtain ⟨hne, hgt⟩ := hslot slot hget
    have hnumbered := hc.slots _ slot hget
    have hlt : slot.ordinal < i.ordinal + 2 ^ 30 := hnumbered.le.trans_lt hrecent
    exact (hc.issued i hi).generation_ne_key hnumbered hkey hne hlt hgt hgen

/-- A worker between two dispatches, with its next slot at key zero. -/
structure Worker.Idle (w : Worker ρ) (dispatched : ℕ) : Prop where
  dispatched_eq : w.dispatched = dispatched
  drawn_eq : w.drawn = []
  vacantKey_eq : w.shared.requests.vacantKey = 0

theorem Worker.Idle.dispatch {n : ℕ} (h : w.Idle n) (hc : w.Counted) (st : ρ) :
    ∃ (acts : List (Action ρ)) (t : Worker ρ), FreeRun step w acts t ∧
      t.dispatched = n + 1 ∧ t.drawn = [] ∧
      t.shared.requests.get? 0 = some ⟨ofNat (n + 1), st, n + 1⟩ := by
  have hg : w.shared.nextGeneration + 1 = ofNat (n + 1) := by
    rw [hc.counter, h.dispatched_eq]
    simp
  refine ⟨[.draw, .insert (n + 1) (ofNat (n + 1)) st],
    { shared := (w.shared.drawGeneration.2.insertSlot (ofNat (n + 1)) st (n + 1)).2
      dispatched := n + 1
      drawn := []
      issued := ⟨0, ofNat (n + 1), n + 1⟩ :: w.issued },
    .cons trivial rfl (.cons trivial ?_ (.nil _)), rfl, rfl, ?_⟩
  · simp [step, drawGeneration, insertSlot, hg, h.dispatched_eq, h.drawn_eq, h.vacantKey_eq]
  · have hs := w.shared.requests.get?_insert_self
      (⟨ofNat (n + 1), st, n + 1⟩ : RequestSlot ρ)
    rw [h.vacantKey_eq] at hs
    exact hs

/-- A worker can answer any number of requests below `2 ^ 30`, one after the other. -/
theorem exists_run_idle (st : ρ) {n : ℕ} (hn : n < 2 ^ 30) :
    ∃ (acts : List (Action ρ)) (w : Worker ρ), FreeRun step new acts w ∧ w.Idle n := by
  induction n with
  | zero => exact ⟨[], _, .nil _, rfl, rfl, rfl⟩
  | succ n ih =>
    obtain ⟨front, w, hr, hi⟩ := ih (by omega)
    obtain ⟨back, t, hb, hd, hdr, hg⟩ :=
      hi.dispatch (counted_of_run hr) st
    have hr' := hr.append hb
    obtain ⟨key, hk⟩ :=
      exists_withGeneration (k := 0) (by decide) (ofNat (n + 1))
    have hge : ofNat (n + 1) = key.generation :=
      ((counted_of_run hr').slots 0 _ hg).generation_eq_key_iff hk |>.mpr (by
        show (n + 1) % 2 ^ 32 < 2 ^ 30
        omega)
    have hs := toSlabKey_of_withGeneration hk
    have hm : t.shared.matching key = some ⟨ofNat (n + 1), st, n + 1⟩ :=
      (matching_eq_some_iff _ key _).mpr ⟨by rw [hs, hg], hge⟩
    have hst : t.step (.response [key.toCorrelationId]) =
        some { t with shared := (t.shared.handleResponse [key.toCorrelationId]).2 } := rfl
    refine ⟨_, _, hr'.snoc trivial hst, hd, hdr, ?_⟩
    have hide := (toCorrelationId_ne_identityCid hk).symm
    simp [handleResponse, settleAll, settleOne, hide, fromCorrelationId_toCorrelationId hk,
      takeSlot_of_matching hm, hs, Slab.vacantKey_remove _ hg]

/-- The reply to the request of dispatch `2 ^ 30` is dropped while the request waits. -/
theorem exists_run_reply_dropped :
    ∃ (actions : List (Action Unit)) (w : Worker Unit) (slot : RequestSlot Unit)
      (key : DispatchKey), FreeRun Worker.step Worker.new actions w ∧
      w.shared.requests.get? 0 = some slot ∧
      DispatchKey.withGeneration 0 slot.generation = some key ∧
      w.shared.handlePartialResponse [key.toCorrelationId] = [] ∧
      w.shared.handleResponse [key.toCorrelationId] = ([], w.shared) := by
  obtain ⟨front, w, hrun, hidle⟩ := exists_run_idle (n := 2 ^ 30 - 1) () (by decide)
  obtain ⟨back, t, hback, -, -, hget⟩ := hidle.dispatch (counted_of_run hrun) ()
  obtain ⟨key, hkey⟩ :=
    exists_withGeneration (k := 0) (by decide) (ofNat (2 ^ 30 - 1 + 1))
  have hnone : t.shared.matching key = none := by
    by_contra hsome
    obtain ⟨slot, hslot⟩ := Option.ne_none_iff_exists'.mp hsome
    obtain ⟨hget', hgen⟩ := (matching_eq_some_iff _ key slot).mp hslot
    rw [toSlabKey_of_withGeneration hkey, hget] at hget'
    cases hget'
    have hnumbered := (counted_of_run (hrun.append hback)).slots 0 _ hget
    have := (hnumbered.generation_eq_key_iff hkey).mp hgen
    simp at this
  have hrejects : t.shared.Rejects ⟨0, ofNat (2 ^ 30 - 1 + 1)⟩ key :=
    rejects_of_matching_none hkey hnone
  refine ⟨_, t, _, key, hrun.append hback, hget, hkey, ?_, ?_⟩
  · exact hrejects.partialResponse [] []
  · exact hrejects.response [] []

/-- A second request takes the slot of an answered one: it is reached, and the identifier of the
first is rejected. -/
theorem generation_check_of_run_reused : ∃ w : Worker Unit, FreeRun Worker.step Worker.new
        [.draw, .insert 1 1 (), .response [.int (2 ^ 32 + 1)], .draw, .insert 2 2 ()] w ∧
      w.shared.requests.get? 0 = some ⟨2, (), 2⟩ ∧
      w.shared.Reaches ⟨2 * 2 ^ 32 + 1⟩ ⟨2, (), 2⟩ ∧
      ⟨0, 1, 1⟩ ∈ w.issued ∧ w.shared.Rejects ⟨0, 1⟩ ⟨2 ^ 32 + 1⟩ := by
  have hrun : FreeRun step (new : Worker Unit)
      [.draw, .insert 1 1 (), .response [.int (2 ^ 32 + 1)], .draw, .insert 2 2 ()] _ :=
    .cons trivial rfl (.cons trivial rfl (.cons trivial rfl (.cons trivial rfl
      (.cons trivial rfl (.nil _)))))
  obtain ⟨hlive, hstale⟩ := generation_check_of_run hrun
  refine ⟨_, hrun, by decide, ?_, by decide, ?_⟩
  · exact (hlive 0 ⟨2, (), 2⟩ ⟨2 * 2 ^ 32 + 1⟩ (by decide) (by decide)).mpr (by decide)
  · exact hstale ⟨0, 1, 1⟩ (by decide) ⟨2 ^ 32 + 1⟩ (by decide) (by decide) (by decide)

end Xbbg.Dispatch
