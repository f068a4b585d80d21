import Xbbg.Model.StateDelivery

/-! The FIFO of dirty members: its keys are exactly the members marked as queued, and no
queued member is held by a receipt. -/

namespace Xbbg.StateDelivery

open DirtyState List Library Table

/-- The queue lists every queued member once, and queued members are not in flight. -/
structure QueueMatches (members : Table DirtyMember) (queue : List ℕ) : Prop where
  nodup : queue.Nodup
  mem_iff : ∀ k, k ∈ queue ↔ ∃ member, members.get k = some member ∧ member.queued = true
  exclusive : ∀ k member, members.get k = some member → member.queued = true →
    member.inFlight = false

/-- Members with an unacknowledged change are queued or in flight. -/
def NoneStalled (members : Table DirtyMember) : Prop :=
  ∀ k member, members.get k = some member → DirtyState.owes member = true →
    member.queued = true ∨ member.inFlight = true

variable {old : DirtyMember}

namespace QueueMatches

variable {members : Table DirtyMember} {queue : List ℕ}
variable {key : ℕ} {member : DirtyMember}

theorem empty : QueueMatches empty [] :=
  ⟨nodup_nil, by simp, by simp⟩

section

variable (h : QueueMatches members queue)
include h

theorem not_mem_of_not_queued
    (hk : ∀ member, members.get key = some member → member.queued = false) : key ∉ queue := by
  intro hm
  obtain ⟨member, hg, hq⟩ := (h.mem_iff key).mp hm
  simp [hk member hg] at hq

theorem of_insert {queue' : List ℕ} (hn : queue'.Nodup)
    (ho : ∀ k, k ≠ key → (k ∈ queue' ↔ k ∈ queue)) (hm : key ∈ queue' ↔ member.queued = true)
    (he : member.queued = true → member.inFlight = false) :
    QueueMatches (members.insert key member) queue' := by
  refine ⟨hn, ?_, ?_⟩
  · intro k
    rw [get_insert]
    by_cases hk : k = key
    · simp [hk, hm]
    · rw [ho k hk, h.mem_iff, if_neg hk]
  · intro k x hf hq
    rw [get_insert] at hf
    split at hf
    · cases hf
      exact he hq
    · exact h.exclusive k x hf hq

theorem insert (hg : members.get key = some old) (hqu : member.queued = old.queued)
    (he : member.queued = true → member.inFlight = false) :
    QueueMatches (members.insert key member) queue := by
  refine h.of_insert h.nodup (fun _ _ => Iff.rfl) ?_ he
  rw [h.mem_iff]
  simp [hg, hqu]

theorem push (hke : ∀ old, members.get key = some old → old.queued = false)
    (hqu : member.queued = true) (hi : member.inFlight = false) :
    QueueMatches (members.insert key member) (queue ++ [key]) := by
  have hn : (queue ++ [key]).Nodup := by
    rw [nodup_append_comm, singleton_append]
    exact nodup_cons.mpr ⟨h.not_mem_of_not_queued hke, h.nodup⟩
  exact h.of_insert hn (fun k hk => by simp [hk]) (by simp [hqu]) fun _ => hi

theorem filter {ms' : Table DirtyMember} {keep : ℕ → Bool}
    (hg : ∀ k, ms'.get k = if keep k then members.get k else none) :
    QueueMatches ms' (queue.filter keep) := by
  refine ⟨h.nodup.filter _, ?_, ?_⟩
  · intro k
    rw [mem_filter, h.mem_iff, hg]
    by_cases hk : keep k = true <;> simp [hk]
  · intro k x hf hq
    rw [hg] at hf
    split at hf
    · exact h.exclusive k x hf hq
    · simp at hf

theorem erase (hke : key ∉ queue) :
    QueueMatches (members.erase key) queue := by
  have hg : ∀ k, (members.erase key).get k = if decide (k ≠ key) then members.get k else none := by
    intro k
    rw [get_erase]
    by_cases hk : k = key <;> simp [hk]
  have hf := h.filter hg
  have hs : queue.filter (fun k => decide (k ≠ key)) = queue := by
    rw [filter_eq_self]
    intro k hk
    simp only [decide_eq_true_eq]
    rintro rfl
    exact hke hk
  rwa [hs] at hf

end

theorem pop (h : QueueMatches members (key :: queue)) (hqu : member.queued = false) :
    QueueMatches (members.insert key member) queue := by
  obtain ⟨hn, hno⟩ := nodup_cons.mp h.nodup
  exact h.of_insert hno (fun k hk => by simp [hk]) (by simp [hn, hqu]) (by simp [hqu])

end QueueMatches

theorem NoneStalled.insert {members : Table DirtyMember} (h : NoneStalled members) (key : ℕ)
    {member : DirtyMember}
    (hm : owes member = true → member.queued = true ∨ member.inFlight = true) :
    NoneStalled (members.insert key member) := by
  intro k x hf ho
  rw [get_insert] at hf
  split at hf
  · cases hf
    exact hm ho
  · exact h k x hf ho

theorem NoneStalled.erase {members : Table DirtyMember} (h : NoneStalled members) (key : ℕ) :
    NoneStalled (members.erase key) := by
  intro k member hg
  rw [get_erase] at hg
  split at hg
  · simp at hg
  · exact h k member hg

namespace DirtyState

variable {st st' : DirtyState} {member : DirtyMember} {committed : Bool} {keys : List ReceiptKey}
  {entry : ReceiptKey} {members : Table DirtyMember} {selected : List SelectedMember}

/-- What marks and retirements have in common: an accepted change of one member. -/
def touch (st : DirtyState) (key : ℕ) (change : DirtyMember → DirtyMember) : DirtyState :=
  if st.rejects then st
  else
    match st.members.get key with
    | none => st
    | some member => st.updateAndQueue key (change member)

def marked (freezing : Bool) (revision : ℕ) (invalidated : Bool) (member : DirtyMember) :
    DirtyMember :=
  { member with
    revision := max member.revision revision
    invalidated :=
      if invalidated && member.invalidated.isNone then some revision else member.invalidated
    queued := member.queued || (!freezing && !member.inFlight) }

def retiredWith (freezing : Bool) (row : ImageRow) (member : DirtyMember) : DirtyMember :=
  { member with
    revision := member.revision + 1
    invalidated := none
    retired := true
    finalImage := some (member.revision + 1, row)
    queued := member.queued || (!freezing && !member.inFlight) }

variable (st) (key : ℕ)

theorem updateAndQueue_eq (member : DirtyMember) :
    st.updateAndQueue key member = if st.freezing || member.queued || member.inFlight then
        { st with members := st.members.insert key member }
      else
        { st with
          members := st.members.insert key { member with queued := true }
          queue := st.queue ++ [key] } := by
  simp [updateAndQueue, enqueue, modify_insert]

theorem get_updateAndQueue (member : DirtyMember) (k : ℕ) :
    (st.updateAndQueue key member).members.get k = if k = key then
        some { member with
          queued := member.queued || (!st.freezing && !member.inFlight) }
      else st.members.get k := by
  rw [updateAndQueue_eq]
  obtain ⟨feed, label, rev, acknowledged, invalidated, queued, inFlight, retired, final⟩ :=
    member
  cases hf : st.freezing <;> cases queued <;> cases inFlight <;> simp [get_insert]

theorem get_touch (change : DirtyMember → DirtyMember) (k : ℕ) :
    (st.touch key change).members.get k = if k = key ∧ st.rejects = false then
        (st.members.get k).map fun member =>
          { change member with
            queued := (change member).queued || (!st.freezing && !(change member).inFlight) }
      else st.members.get k := by
  unfold touch
  cases hr : st.rejects with
  | true => simp
  | false =>
    cases hg : st.members.get key with
    | none =>
      by_cases hk : k = key <;> simp [hk, hg]
    | some member =>
      simp only [Bool.false_eq_true, if_false, get_updateAndQueue]
      by_cases hk : k = key <;> simp [hk, hg]

theorem get_mark (rev : ℕ) (invalidated : Bool) (k : ℕ) :
    (st.mark key rev invalidated).members.get k = if k = key ∧ st.rejects = false then
        (st.members.get k).map (marked st.freezing rev invalidated)
      else st.members.get k :=
  get_touch st key _ k

theorem get_retire (row : ImageRow) (k : ℕ) :
    (st.retire key row).members.get k = if k = key ∧ st.rejects = false then
        (st.members.get k).map (retiredWith st.freezing row)
      else st.members.get k :=
  get_touch st key _ k

theorem get_remove (k : ℕ) :
    (st.remove key).members.get k = if k = key then none else st.members.get k :=
  get_erase st.members key k

theorem get_detach (k : ℕ) : (st.detach key).members.get k =
      if k = key ∧ st.closing = false then none else st.members.get k := by
  unfold detach
  cases hc : st.frozen || st.freezing with
  | true => simp [closing, hc]
  | false => simp [closing, hc, get_remove]

theorem get_register (feed rev : ℕ) (label : String) (k : ℕ) :
    (st.register key feed rev label).members.get k =
      if st.sourceClosed || st.receiverClosed || st.freezing || st.frozen then st.members.get k
      else if k = key then
        some ⟨feed, label, rev, none, none, true, false, false, none⟩
      else (st.members.get k).filter fun member => !member.retired || member.label != label := by
  unfold register
  split
  · rfl
  · simp only [get_insert, get_retain]

variable {st} {key}

theorem queueMatches_updateAndQueue (h : QueueMatches st.members st.queue)
    (hg : st.members.get key = some old)
    (hq : member.queued = old.queued) (hin : member.inFlight = old.inFlight) :
    QueueMatches (st.updateAndQueue key member).members (st.updateAndQueue key member).queue := by
  have he : member.queued = true → member.inFlight = false := by
    rw [hq, hin]
    exact h.exclusive key old hg
  rw [updateAndQueue_eq]
  split
  · exact h.insert hg hq he
  · rename_i hi
    simp only [Bool.or_eq_true, not_or, Bool.not_eq_true] at hi
    refine h.push ?_ rfl hi.2
    intro x hf
    cases hg.symm.trans hf
    rw [← hq]
    exact hi.1.2

theorem noneStalled_updateAndQueue (h : NoneStalled st.members) (hfr : st.freezing = false)
    (key : ℕ) (member : DirtyMember) : NoneStalled (st.updateAndQueue key member).members := by
  rw [updateAndQueue_eq]
  split
  · rename_i hb
    exact h.insert key fun _ => by simpa [hfr] using hb
  · exact h.insert key fun _ => .inl rfl

variable {change : DirtyMember → DirtyMember}

theorem queueMatches_touch (h : QueueMatches st.members st.queue) (key : ℕ)
    (hq : ∀ member, (change member).queued = member.queued)
    (hi : ∀ member, (change member).inFlight = member.inFlight) :
    QueueMatches (st.touch key change).members (st.touch key change).queue := by
  unfold touch
  split
  · exact h
  · split
    · exact h
    · rename_i member hg
      exact queueMatches_updateAndQueue h hg (hq member) (hi member)

theorem noneStalled_touch (h : NoneStalled st.members) (hf : st.freezing = false) (key : ℕ)
    (change : DirtyMember → DirtyMember) : NoneStalled (st.touch key change).members := by
  unfold touch
  split
  · exact h
  · split
    · exact h
    · exact noneStalled_updateAndQueue h hf key _

theorem queueMatches_remove (h : QueueMatches st.members st.queue) (key : ℕ) :
    QueueMatches (st.remove key).members (st.remove key).queue := by
  refine h.filter ?_
  intro k
  simp only [remove, get_erase, bne_iff_ne, ne_eq, ite_not]

theorem noneStalled_remove (h : NoneStalled st.members) (key : ℕ) :
    NoneStalled (st.remove key).members :=
  h.erase key

theorem queueMatches_register (h : QueueMatches st.members st.queue)
    (hf : st.members.get key = none) (feed rev : ℕ) (label : String) :
    QueueMatches (st.register key feed rev label).members
      (st.register key feed rev label).queue := by
  unfold register
  split
  · exact h
  · refine QueueMatches.push ?_ ?_ rfl rfl
    · refine ⟨h.nodup.filter _, ?_, ?_⟩
      · intro k
        rw [mem_filter, h.mem_iff, get_retain]
        constructor
        · rintro ⟨⟨member, hg, hq⟩, hkept⟩
          obtain ⟨kept, hs⟩ := Option.isSome_iff_exists.mp hkept
          obtain ⟨hm, -⟩ := Option.filter_eq_some_iff.mp hs
          cases hg.symm.trans hm
          exact ⟨member, hs, hq⟩
        · rintro ⟨member, hs, hq⟩
          obtain ⟨hg, -⟩ := Option.filter_eq_some_iff.mp hs
          exact ⟨⟨member, hg, hq⟩, by rw [hs]; rfl⟩
      · intro k member hg hq
        rw [get_retain] at hg
        exact h.exclusive k member (Option.filter_eq_some_iff.mp hg).1 hq
    · intro old ho
      rw [get_retain, hf] at ho
      simp at ho

theorem noneStalled_register (h : NoneStalled st.members) (key feed rev : ℕ) (label : String) :
    NoneStalled (st.register key feed rev label).members := by
  unfold register
  split
  · exact h
  · refine NoneStalled.insert ?_ key fun _ => .inl rfl
    intro k member hg
    rw [get_retain] at hg
    exact h k member (Option.filter_eq_some_iff.mp hg).1

/-- The three things that can happen to the member of a receipt that is given back: it is
removed, queued again, or left alone. -/
theorem finishOne_cases (committed : Bool) (st : DirtyState) (r : ReceiptKey)
    (hg : st.members.get r.key = some member) :
    (st.closing = false ∧ member.retired = true ∧ committed = true ∧
      owes (settleMember member r committed) = false ∧
      finishOne committed st r = { st with members := st.members.erase r.key }) ∨
    (st.canQueue = true ∧ (settleMember member r committed).queued = false ∧
      finishOne committed st r = { st with
          members := st.members.insert r.key
            { settleMember member r committed with queued := true }
          queue := st.queue ++ [r.key] }) ∨
    ((st.canQueue = true → (settleMember member r committed).queued = true ∨
        owes (settleMember member r committed) = false) ∧
      finishOne committed st r = { st with
          members := st.members.insert r.key (settleMember member r committed) }) := by
  have hre : (settleMember member r committed).retired = member.retired := by
    unfold settleMember
    split <;> rfl
  unfold finishOne
  simp only [hg, hre, enqueue, modify_insert]
  split
  · rename_i hr
    simp only [Bool.and_eq_true, Bool.not_eq_true', Bool.or_eq_false_iff] at hr
    exact .inl ⟨hr.1.1.1, hr.1.1.2, hr.1.2, hr.2.2, rfl⟩
  · split
    · rename_i hq
      simp only [Bool.and_eq_true, Bool.not_eq_true'] at hq
      exact .inr (.inl ⟨hq.1.1, hq.2, rfl⟩)
    · rename_i hl
      refine .inr (.inr ⟨?_, rfl⟩)
      intro hc
      simp only [hc, Bool.true_and, Bool.and_eq_true, Bool.or_eq_true, Bool.not_eq_true',
        not_and, Bool.not_eq_false] at hl
      by_cases ho : owes (settleMember member r committed) = true
      · exact .inl (hl (.inr ho))
      · exact .inr (by simpa using ho)

theorem settleMember_queued (member : DirtyMember) (r : ReceiptKey) (committed : Bool) :
    (settleMember member r committed).queued = member.queued := by
  unfold settleMember
  split <;> rfl

theorem settleMember_inFlight (member : DirtyMember) (r : ReceiptKey) (committed : Bool) :
    (settleMember member r committed).inFlight = false := by
  unfold settleMember
  split <;> rfl

theorem queueMatches_finishOne (h : QueueMatches st.members st.queue) (committed : Bool)
    (r : ReceiptKey) (hfl : ∀ member, st.members.get r.key = some member → member.inFlight = true) :
    QueueMatches (finishOne committed st r).members (finishOne committed st r).queue := by
  cases hg : st.members.get r.key with
  | none => simpa [finishOne, hg] using h
  | some member =>
    have hqu : member.queued = false := by
      by_contra hq
      have := h.exclusive _ member hg (by simpa using hq)
      simp [hfl member hg] at this
    rcases finishOne_cases committed st r hg with
      ⟨-, -, -, -, heq⟩ | ⟨-, -, heq⟩ | ⟨-, heq⟩
    · rw [heq]
      refine h.erase (h.not_mem_of_not_queued ?_)
      intro x hf
      cases hg.symm.trans hf
      exact hqu
    · rw [heq]
      refine h.push ?_ rfl (settleMember_inFlight member r committed)
      intro x hf
      cases hg.symm.trans hf
      exact hqu
    · rw [heq]
      exact h.insert hg (settleMember_queued member r committed)
        fun _ => settleMember_inFlight member r committed

theorem noneStalled_finishOne (h : NoneStalled st.members) (hc : st.canQueue = true)
    (committed : Bool) (r : ReceiptKey) :
    NoneStalled (finishOne committed st r).members := by
  cases hg : st.members.get r.key with
  | none => simpa [finishOne, hg] using h
  | some member =>
    rcases finishOne_cases committed st r hg with
      ⟨-, -, -, -, heq⟩ | ⟨-, -, heq⟩ | ⟨hl, heq⟩
    · rw [heq]
      exact h.erase r.key
    · rw [heq]
      exact h.insert r.key fun _ => .inl rfl
    · rw [heq]
      exact h.insert r.key fun ho => .inl ((hl hc).resolve_right (by simp [ho]))

/-- The two states differ in members and queue at most. -/
structure SameStream (st st' : DirtyState) : Prop where
  frozenImages : st'.frozenImages = st.frozenImages
  frozenQueue : st'.frozenQueue = st.frozenQueue
  terminal : st'.terminal = st.terminal
  terminalInFlight : st'.terminalInFlight = st.terminalInFlight
  terminalDelivered : st'.terminalDelivered = st.terminalDelivered
  sourceClosed : st'.sourceClosed = st.sourceClosed
  receiverClosed : st'.receiverClosed = st.receiverClosed
  freezing : st'.freezing = st.freezing
  frozen : st'.frozen = st.frozen

theorem SameStream.of_members (st : DirtyState) (members : Table DirtyMember) (queue : List ℕ) :
    SameStream st { st with members := members, queue := queue } :=
  ⟨rfl, rfl, rfl, rfl, rfl, rfl, rfl, rfl, rfl⟩

theorem SameStream.refl (st : DirtyState) : SameStream st st :=
  .of_members st st.members st.queue

theorem SameStream.trans {st'' : DirtyState} (h : SameStream st st') (h' : SameStream st' st'') :
    SameStream st st'' :=
  ⟨h'.frozenImages.trans h.frozenImages, h'.frozenQueue.trans h.frozenQueue,
    h'.terminal.trans h.terminal, h'.terminalInFlight.trans h.terminalInFlight,
    h'.terminalDelivered.trans h.terminalDelivered, h'.sourceClosed.trans h.sourceClosed,
    h'.receiverClosed.trans h.receiverClosed, h'.freezing.trans h.freezing,
    h'.frozen.trans h.frozen⟩

theorem SameStream.closing (h : SameStream st st') : st'.closing = st.closing := by
  simp [DirtyState.closing, h.frozen, h.freezing]

theorem SameStream.canQueue (h : SameStream st st') : st'.canQueue = st.canQueue := by
  simp [DirtyState.canQueue, h.closing, h.sourceClosed, h.receiverClosed, h.terminal,
    h.terminalInFlight, h.terminalDelivered]

variable (st) (key)

theorem sameStream_updateAndQueue (member : DirtyMember) :
    SameStream st (st.updateAndQueue key member) := by
  rw [updateAndQueue_eq]
  split
  · exact .of_members st _ _
  · exact .of_members st _ _

theorem sameStream_register (feed rev : ℕ) (label : String) :
    SameStream st (st.register key feed rev label) := by
  unfold register
  split
  · exact .refl st
  · exact .of_members st _ _

theorem sameStream_touch (change : DirtyMember → DirtyMember) :
    SameStream st (st.touch key change) := by
  unfold touch
  split
  · exact .refl st
  · split
    · exact .refl st
    · exact sameStream_updateAndQueue st key _

theorem sameStream_mark (rev : ℕ) (invalidated : Bool) :
    SameStream st (st.mark key rev invalidated) :=
  sameStream_touch st key _

theorem sameStream_retire (row : ImageRow) : SameStream st (st.retire key row) :=
  sameStream_touch st key _

theorem sameStream_remove : SameStream st (st.remove key) :=
  .of_members st _ _

theorem sameStream_detach : SameStream st (st.detach key) := by
  unfold detach
  split
  · exact .refl st
  · exact sameStream_remove st key

variable {st} {key}

theorem sameStream_finishOne (committed : Bool) (st : DirtyState) (r : ReceiptKey) :
    SameStream st (finishOne committed st r) := by
  cases hg : st.members.get r.key with
  | none =>
    simp only [finishOne, hg]
    exact .refl st
  | some member =>
    rcases finishOne_cases committed st r hg with
      ⟨-, -, -, -, heq⟩ | ⟨-, -, heq⟩ | ⟨-, heq⟩
    all_goals
      rw [heq]
      exact .of_members st _ _

theorem sameStream_finish (st : DirtyState) (keys : List ReceiptKey) (committed : Bool) :
    SameStream st (st.finish keys committed) := by
  unfold finish
  induction keys generalizing st with
  | nil => exact .refl st
  | cons r rest ih => exact (sameStream_finishOne committed st r).trans (ih _)

theorem get_finishOne_of_ne {r : ReceiptKey} {k : ℕ} (hk : k ≠ r.key) :
    (finishOne committed st r).members.get k = st.members.get k := by
  cases hg : st.members.get r.key with
  | none => simp [finishOne, hg]
  | some member =>
    rcases finishOne_cases committed st r hg with
      ⟨-, -, -, -, heq⟩ | ⟨-, -, heq⟩ | ⟨-, heq⟩
    · simp [heq, get_erase, hk]
    · simp [heq, get_insert, hk]
    · simp [heq, get_insert, hk]

theorem get_finish_of_notMem {k : ℕ} (hk : k ∉ keys.map (·.key)) :
    (st.finish keys committed).members.get k = st.members.get k := by
  unfold finish
  induction keys generalizing st with
  | nil => rfl
  | cons r rest ih =>
    obtain ⟨hne, hr⟩ : k ≠ r.key ∧ k ∉ rest.map (·.key) := by simpa using hk
    rw [foldl_cons, ih hr, get_finishOne_of_ne hne]

inductive Finished (st : DirtyState) (committed : Bool) (entry : ReceiptKey)
    (member : DirtyMember) : Option DirtyMember → Prop where
  | removed : st.closing = false → member.retired = true → committed = true →
      owes (settleMember member entry committed) = false → Finished st committed entry member none
  | kept (queued : Bool) : Finished st committed entry member
      (some { settleMember member entry committed with queued := queued })

theorem Finished.of_sameStream {result : Option DirtyMember}
    (h : Finished st' committed entry member result) (hs : SameStream st st') :
    Finished st committed entry member result := by
  cases h with
  | removed hc hr hco ho =>
    exact .removed (hs.closing ▸ hc) hr hco ho
  | kept queued => exact .kept queued

theorem finished_finishOne (hg : st.members.get entry.key = some member) (committed : Bool) :
    Finished st committed entry member ((finishOne committed st entry).members.get entry.key) := by
  rcases finishOne_cases committed st entry hg with
    ⟨hc, hr, hco, ho, heq⟩ | ⟨-, -, heq⟩ | ⟨-, heq⟩
  · rw [heq, get_erase, if_pos rfl]
    exact .removed hc hr hco ho
  · rw [heq, get_insert, if_pos rfl]
    exact .kept true
  · rw [heq, get_insert, if_pos rfl]
    exact .kept (settleMember member entry committed).queued

theorem finished_finish (hno : (keys.map (·.key)).Nodup) (he : entry ∈ keys)
    (hg : st.members.get entry.key = some member) (committed : Bool) :
    Finished st committed entry member ((st.finish keys committed).members.get entry.key) := by
  unfold finish
  induction keys generalizing st with
  | nil => simp at he
  | cons r rest ih =>
    obtain ⟨hn, hr⟩ := nodup_cons.mp hno
    rw [foldl_cons]
    rcases mem_cons.mp he with rfl | hla
    · have hl : ((finishOne committed st entry).finish rest committed).members.get entry.key =
          (finishOne committed st entry).members.get entry.key := get_finish_of_notMem hn
      rw [finish] at hl
      rw [hl]
      exact finished_finishOne hg committed
    · have hne : entry.key ≠ r.key := fun heq =>
        hn (mem_map.mpr ⟨entry, hla, heq⟩)
      have hg' : (finishOne committed st r).members.get entry.key = some member :=
        (get_finishOne_of_ne hne).trans hg
      exact (ih hr hla hg').of_sameStream (sameStream_finishOne committed st r)

theorem queueMatches_finish (h : QueueMatches st.members st.queue) (committed : Bool)
    (hno : (keys.map (·.key)).Nodup)
    (hf : ∀ k ∈ keys.map (·.key), ∀ member, st.members.get k = some member → member.inFlight =
      true) : QueueMatches (st.finish keys committed).members (st.finish keys committed).queue := by
  unfold finish
  induction keys generalizing st with
  | nil => exact h
  | cons r rest ih =>
    obtain ⟨hn, hr⟩ := nodup_cons.mp hno
    refine ih (queueMatches_finishOne h committed r ?_) hr ?_
    · exact hf r.key (by simp)
    · intro k hk member hg
      have hne : k ≠ r.key := by
        rintro rfl
        exact hn hk
      rw [get_finishOne_of_ne hne] at hg
      exact hf k (by simp at hk ⊢; exact .inr hk) member hg

theorem noneStalled_finish (h : NoneStalled st.members) (hc : st.canQueue = true)
    (keys : List ReceiptKey) (committed : Bool) :
    NoneStalled (st.finish keys committed).members := by
  unfold finish
  induction keys generalizing st with
  | nil => exact h
  | cons r rest ih =>
    refine ih (noneStalled_finishOne h hc committed r) ?_
    rw [(sameStream_finishOne committed st r).canQueue, hc]

/-- What a live selection leaves behind: the selected members are in flight and were not
before, and all others are as they were, up to the queue mark. -/
structure Selected (members : Table DirtyMember) (selected : List SelectedMember)
    (members' : Table DirtyMember) : Prop where
  nodup : (selected.map (·.key)).Nodup
  wasIdle : ∀ entry ∈ selected, ∃ member, members.get entry.key = some member ∧
    member.inFlight = false ∧ entry.feed = member.feed ∧
    entry.invalidated = member.invalidated ∧ entry.finalImage = member.finalImage ∧
    members'.get entry.key = some { member with queued := false, inFlight := true }
  others : ∀ k, k ∉ selected.map (·.key) → members'.get k = members.get k

variable {members' : Table DirtyMember}

theorem selectLive_spec {limit : ℕ} {queue queue' : List ℕ} (h : QueueMatches members queue)
    (heq : selectLive limit queue members = (selected, queue', members')) :
    QueueMatches members' queue' ∧ Selected members selected members' := by
  induction queue generalizing limit members selected with
  | nil =>
    cases limit with
    | zero | succ =>
      simp only [selectLive, Prod.mk.injEq] at heq
      obtain ⟨rfl, rfl, rfl⟩ := heq
      exact ⟨h, by simp, by simp, fun _ _ => rfl⟩
  | cons key rest ih =>
    cases limit with
    | zero =>
      simp only [selectLive, Prod.mk.injEq] at heq
      obtain ⟨rfl, rfl, rfl⟩ := heq
      exact ⟨h, by simp, by simp, fun _ _ => rfl⟩
    | succ limit =>
      obtain ⟨member, hg, hq⟩ := (h.mem_iff key).mp (by simp)
      have hi := h.exclusive key member hg hq
      simp only [selectLive, hg, hi, Bool.false_eq_true, if_false] at heq
      obtain ⟨selected', queue'', members'', hr⟩ : ∃ a b c, selectLive limit rest
            (members.insert key { member with queued := false, inFlight := true }) = (a, b, c) :=
        ⟨_, _, _, rfl⟩
      rw [hr] at heq
      simp only [Prod.mk.injEq] at heq
      obtain ⟨rfl, rfl, rfl⟩ := heq
      obtain ⟨hm, hs⟩ := ih (h.pop rfl) hr
      have hke : key ∉ selected'.map (·.key) := by
        intro hme
        obtain ⟨entry, he, rfl⟩ := mem_map.mp hme
        obtain ⟨found, hf, hfl, -⟩ := hs.wasIdle entry he
        rw [get_insert, if_pos rfl] at hf
        cases hf
        simp at hfl
      refine ⟨hm, ?_, ?_, ?_⟩
      · simpa using ⟨by simpa using hke, hs.nodup⟩
      · intro entry he
        rcases mem_cons.mp he with rfl | hl
        · refine ⟨member, hg, hi, rfl, rfl, rfl, ?_⟩
          rw [hs.others key hke, get_insert, if_pos rfl]
        · obtain ⟨found, hf, hr'⟩ := hs.wasIdle entry hl
          have hne : entry.key ≠ key := by
            rintro rfl
            exact hke (mem_map_of_mem hl)
          rw [get_insert, if_neg hne] at hf
          exact ⟨found, hf, hr'⟩
      · intro k hk
        obtain ⟨hne, hr'⟩ : k ≠ key ∧ k ∉ selected'.map (·.key) := by simpa using hk
        rw [hs.others k hr', get_insert, if_neg hne]

theorem noneStalled_of_selected (h : NoneStalled members)
    (hs : Selected members selected members') : NoneStalled members' := by
  intro k member hg ho
  by_cases hk : k ∈ selected.map (·.key)
  · obtain ⟨entry, he, rfl⟩ := mem_map.mp hk
    obtain ⟨found, -, -, -, -, -, ha⟩ := hs.wasIdle entry he
    cases hg.symm.trans ha
    exact .inr rfl
  · rw [hs.others k hk] at hg
    exact h k member hg ho

/-- Neither side has closed the stream and no freeze has begun. -/
structure Open (st : DirtyState) : Prop where
  sourceClosed : st.sourceClosed = false
  receiverClosed : st.receiverClosed = false
  freezing : st.freezing = false
  frozen : st.frozen = false

/-- A terminal error is waiting, leased or delivered. -/
def HasTerminal (st : DirtyState) : Prop :=
  st.terminal.isSome = true ∨ st.terminalInFlight = true ∨ st.terminalDelivered = true

/-- The queue is in step with the members until the freeze is complete, no member is stalled
while the stream is open, and a terminal error closes the source and empties the queue. -/
structure Sound (st : DirtyState) : Prop where
  queue : st.frozen = false → QueueMatches st.members st.queue
  stalled : st.Open → NoneStalled st.members
  terminal : st.HasTerminal → st.sourceClosed = true
  drained : st.HasTerminal → st.queue = []

theorem sound_new : new.Sound :=
  ⟨fun _ => QueueMatches.empty, fun _ => by simp [NoneStalled, new], by simp [HasTerminal, new],
    fun _ => rfl⟩

theorem Sound.canQueue (h : st.Sound) (ho : st.Open) : st.canQueue = true := by
  have ht := h.terminal
  simp only [HasTerminal, ho.sourceClosed, Bool.false_eq_true, imp_false, not_or,
    Bool.not_eq_true, Option.isSome_eq_false_iff] at ht
  simp [DirtyState.canQueue, DirtyState.closing, ho.sourceClosed, ho.receiverClosed,
    ho.freezing, ho.frozen, ht.1, ht.2.1, ht.2.2]

theorem SameStream.open (h : SameStream st st') (ho : st'.Open) : st.Open :=
  ⟨h.sourceClosed ▸ ho.sourceClosed, h.receiverClosed ▸ ho.receiverClosed,
    h.freezing ▸ ho.freezing, h.frozen ▸ ho.frozen⟩

theorem SameStream.hasTerminal (h : SameStream st st') : st'.HasTerminal ↔ st.HasTerminal := by
  rw [HasTerminal, HasTerminal, h.terminal, h.terminalInFlight, h.terminalDelivered]

/-- An operation on members and queue is sound when it keeps the clauses on them. -/
theorem Sound.of_sameStream (h : st.Sound) (hs : SameStream st st')
    (hq : QueueMatches st.members st.queue → QueueMatches st'.members st'.queue)
    (hst : st.Open → NoneStalled st.members → NoneStalled st'.members)
    (hd : st.sourceClosed = true → st.queue = [] → st'.queue = []) : st'.Sound := by
  refine ⟨?_, ?_, ?_, ?_⟩
  · intro hf
    exact hq (h.queue (hs.frozen ▸ hf))
  · intro ho
    exact hst (hs.open ho) (h.stalled (hs.open ho))
  · rw [hs.hasTerminal, hs.sourceClosed]
    exact h.terminal
  · rw [hs.hasTerminal]
    exact fun ht => hd (h.terminal ht) (h.drained ht)

theorem rejects_of_sourceClosed (h : st.sourceClosed = true) : st.rejects = true := by
  simp [rejects, h]

theorem finishOne_queue {r : ReceiptKey} (hc : st.canQueue = false) :
    (finishOne committed st r).queue = st.queue := by
  cases hg : st.members.get r.key with
  | none => simp [finishOne, hg]
  | some member =>
    rcases finishOne_cases committed st r hg with
      ⟨-, -, -, -, heq⟩ | ⟨hy, -, heq⟩ | ⟨-, heq⟩
    · rw [heq]
    · simp [hc] at hy
    · rw [heq]

theorem finish_queue (hc : st.canQueue = false) (keys : List ReceiptKey) (committed : Bool) :
    (st.finish keys committed).queue = st.queue := by
  unfold finish
  induction keys generalizing st with
  | nil => rfl
  | cons r rest ih =>
    rw [foldl_cons, ih ((sameStream_finishOne committed st r).canQueue.trans hc),
      finishOne_queue hc]

theorem Sound.of_drained (hc : st.sourceClosed = true) (hn : st.queue = [])
    (h : st.frozen = false → ∀ k member, st.members.get k = some member → member.queued = false) :
    st.Sound := by
  refine ⟨?_, fun ho => by simp [ho.sourceClosed] at hc, fun _ => hc, fun _ => hn⟩
  intro hf
  rw [hn]
  refine ⟨nodup_nil, ?_, ?_⟩
  · intro k
    simp only [not_mem_nil, false_iff, not_exists, not_and, Bool.not_eq_true]
    exact h hf k
  · intro k member hg hq
    simp [h hf k member hg] at hq

theorem fail_eq (hc : st.receiverClosed = false) (hd : st.terminalDelivered = false)
    (hf : st.terminalInFlight = false) (e : BlpError) :
    st.fail e = { st with
        terminal := some (st.terminal.getD e)
        sourceClosed := true
        queue := []
        frozenQueue := []
        members := st.members.map fun member => { member with queued := false } } := by
  simp [fail, hc, hd, hf]

theorem sound_close (st : DirtyState) : st.close.Sound :=
  .of_drained rfl rfl (by simp [close])

theorem beginFreeze_spec {pending : List PendingMember}
    (heq : st.beginFreeze = some (pending, st')) :
    st.receiverClosed = false ∧ st.frozen = false ∧ st.freezing = false ∧
    pending = (st.queue ++ st.members.keys fun member =>
      member.inFlight && !member.queued).filterMap st.pendingMember ∧
    st' = { st with freezing := true } := by
  unfold beginFreeze at heq
  split at heq
  · simp at heq
  · rename_i hg
    obtain ⟨hp, hst⟩ := Prod.mk.inj (Option.some.inj heq)
    simp only [Bool.or_eq_true, not_or, Bool.not_eq_true] at hg
    exact ⟨hg.1.1, hg.1.2, hg.2, hp.symm, hst.symm⟩

theorem storeFreeze_eq (st : DirtyState) (key : ℕ) (im : Option (ℕ × ImageRow)) :
    (st.storeFreeze key im).2 = st ∨
    ∃ member captured, st.members.get key = some member ∧ member.retired = false ∧
      im = some captured ∧
      st.storeFreeze key im = (false, { st with
            members := st.members.insert key
              { member with
                revision := max member.revision captured.1
                finalImage := some captured } }) := by
  unfold storeFreeze
  cases hg : st.members.get key with
  | none => exact .inl rfl
  | some member =>
    cases hr : member.retired with
    | true => exact .inl (by simp [hr])
    | false =>
      cases im with
      | none => exact .inl (by simp [hr])
      | some captured => exact .inr ⟨member, captured, rfl, hr, rfl, by simp [hr]⟩

theorem sameStream_storeFreeze (st : DirtyState) (key : ℕ) (im : Option (ℕ × ImageRow)) :
    SameStream st (st.storeFreeze key im).2 := by
  rcases storeFreeze_eq st key im with heq | ⟨member, captured, -, -, -, heq⟩
  · rw [heq]
    exact .refl st
  · rw [heq]
    exact .of_members st _ _

theorem sound_publishFrozen (st : DirtyState) (images : List FrozenImage) :
    (st.publishFrozen images).Sound :=
  .of_drained rfl rfl (by simp [publishFrozen])

/-- The dirty queue holds the queued members, and no member waits outside it. -/
def InStep (st : DirtyState) : Prop :=
  QueueMatches st.members st.queue ∧ NoneStalled st.members

theorem Open.of_sameStream (ho : st.Open) (h : SameStream st st') : st'.Open :=
  ⟨h.sourceClosed.trans ho.sourceClosed, h.receiverClosed.trans ho.receiverClosed,
    h.freezing.trans ho.freezing, h.frozen.trans ho.frozen⟩

variable (h : st.Sound)
include h

theorem Sound.register (hf : st.members.get key = none) (feed rev : ℕ) (label : String) :
    (st.register key feed rev label).Sound :=
  h.of_sameStream (sameStream_register st key feed rev label)
    (fun hq => queueMatches_register hq hf feed rev label)
    (fun _ hn => noneStalled_register hn key feed rev label)
    (fun hc hni => by simp [DirtyState.register, hc, hni])

theorem Sound.touch (key : ℕ) (hqu : ∀ member, (change member).queued = member.queued)
    (hi : ∀ member, (change member).inFlight = member.inFlight) : (st.touch key change).Sound :=
  h.of_sameStream (sameStream_touch st key change) (fun hq => queueMatches_touch hq key hqu hi)
    (fun ho hn => noneStalled_touch hn ho.freezing key change)
    (fun hc hni => by simp [DirtyState.touch, rejects_of_sourceClosed hc, hni])

theorem Sound.mark (key rev : ℕ) (invalidated : Bool) : (st.mark key rev invalidated).Sound :=
  h.touch key (fun _ => rfl) fun _ => rfl

theorem Sound.retire (key : ℕ) (row : ImageRow) : (st.retire key row).Sound :=
  h.touch key (fun _ => rfl) fun _ => rfl

theorem Sound.remove (key : ℕ) : (st.remove key).Sound :=
  h.of_sameStream (sameStream_remove st key) (fun hq => queueMatches_remove hq key)
    (fun _ hn => noneStalled_remove hn key) (fun _ hni => by simp [DirtyState.remove, hni])

theorem Sound.detach (key : ℕ) : (st.detach key).Sound := by
  unfold DirtyState.detach
  split
  · exact h
  · exact h.remove key

theorem Sound.finish (committed : Bool) (hno : (keys.map (·.key)).Nodup)
    (hf : ∀ k ∈ keys.map (·.key), ∀ member, st.members.get k = some member → member.inFlight =
      true) : (st.finish keys committed).Sound :=
  h.of_sameStream (sameStream_finish st keys committed)
    (fun hq => queueMatches_finish hq committed hno hf)
    (fun ho hn => noneStalled_finish hn (h.canQueue ho) keys committed)
    (fun hc hni => by
      rw [finish_queue (by simp [DirtyState.canQueue, hc]) keys committed, hni])

theorem Sound.select (hf : st.frozen = false) {limit : ℕ} {queue : List ℕ}
    (heq : selectLive limit st.queue st.members = (selected, queue, members)) :
    { st with queue := queue, members := members }.Sound := by
  refine h.of_sameStream (.of_members st members queue) (fun hq => (selectLive_spec hq heq).1)
    (fun _ hn => noneStalled_of_selected hn (selectLive_spec (h.queue hf) heq).2) ?_
  intro _ hni
  rw [hni] at heq
  cases limit <;>
    · simp only [selectLive, Prod.mk.injEq] at heq
      exact heq.2.1.symm

theorem Sound.fail (e : BlpError) : (st.fail e).Sound := by
  unfold DirtyState.fail
  split
  · exact h
  · refine .of_drained rfl rfl ?_
    intro _ k member hg
    rw [get_map] at hg
    obtain ⟨old, -, rfl⟩ := Option.map_eq_some_iff.mp hg
    rfl

theorem Sound.closeSource : st.closeSource.Sound := by
  unfold DirtyState.closeSource
  split
  · exact .of_drained rfl rfl (by simp)
  · exact ⟨h.queue, fun ho => absurd ho.sourceClosed (by simp), fun _ => rfl, h.drained⟩

theorem Sound.finishFrozen (ids : List ℕ) (committed : Bool) :
    (st.finishFrozen ids committed).Sound := by
  unfold DirtyState.finishFrozen
  split
  · exact ⟨h.queue, fun ho => h.stalled ⟨ho.1, ho.2, ho.3, ho.4⟩, h.terminal, h.drained⟩
  · exact h

theorem Sound.finishTerminal (ht : st.HasTerminal) (e : Option BlpError) :
    (st.finishTerminal e).Sound := by
  have hc := h.terminal ht
  have hn := h.drained ht
  have hu : st.frozen = false → ∀ k member, st.members.get k = some member →
      member.queued = false := by
    intro hf k member hg
    have hm := h.queue hf
    by_contra hq
    have := (hm.mem_iff k).mpr ⟨member, hg, by simpa using hq⟩
    simp [hn] at this
  unfold DirtyState.finishTerminal
  cases e with
  | some e => exact .of_drained hc hn hu
  | none => exact .of_drained hc rfl hu

theorem Sound.terminalTaken (ht : st.HasTerminal) :
    { st with terminal := none, terminalInFlight := true }.Sound :=
  ⟨h.queue, fun ho => absurd ((h.terminal ht).symm.trans ho.sourceClosed) (by simp),
    fun _ => h.terminal ht, fun _ => h.drained ht⟩

theorem Sound.frozenSelected (queue : List ℕ) : { st with frozenQueue := queue }.Sound :=
  ⟨h.queue, fun ho => h.stalled ⟨ho.1, ho.2, ho.3, ho.4⟩, h.terminal, h.drained⟩

theorem Sound.beginFreeze : { st with freezing := true }.Sound :=
  ⟨h.queue, fun ho => absurd ho.freezing (by simp), h.terminal, h.drained⟩

theorem Sound.storeFreeze (hf : st.freezing = true) (key : ℕ) (im : Option (ℕ × ImageRow)) :
    (st.storeFreeze key im).2.Sound := by
  rcases storeFreeze_eq st key im with heq | ⟨member, captured, hg, -, -, heq⟩
  · rw [heq]
    exact h
  · rw [heq]
    refine h.of_sameStream (.of_members st _ _) ?_ ?_ (fun _ hn => hn)
    · intro hq
      exact hq.insert hg rfl (hq.exclusive key member hg)
    · intro ho
      simp [ho.freezing] at hf

theorem Sound.freeze (pending : List PendingMember) : (st.freeze pending).2.Sound :=
  ⟨fun hf => absurd hf (by simp [DirtyState.freeze]),
    fun ho => absurd ho.frozen (by simp [DirtyState.freeze]), h.terminal, fun _ => rfl⟩

theorem Sound.inStep (ho : st.Open) : st.InStep :=
  ⟨h.queue ho.frozen, h.stalled ho⟩

theorem Sound.inStep_select (ho : st.Open) (lim : ℕ) : (st.select lim).2.InStep := by
  have hc := h.canQueue ho
  simp only [DirtyState.canQueue, Bool.and_eq_true, Bool.not_eq_true', Option.isNone_iff_eq_none]
    at hc
  obtain ⟨⟨⟨⟨⟨hcl, hd⟩, hfli⟩, hter⟩, -⟩, -⟩ := hc
  simp only [DirtyState.select, hcl, ho.freezing, hfli, hd, Bool.or_self,
    Bool.false_eq_true, ↓reduceIte, hter, ho.frozen]
  exact (h.select ho.frozen rfl).inStep (ho.of_sameStream (.of_members st _ _))

end DirtyState

end Xbbg.StateDelivery
