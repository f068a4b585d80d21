import Xbbg.Model.ResponseStream

/-! What the receiver of a streaming request sees: chunks in order, and one error at the end
whenever something is missing. -/

namespace Xbbg.Streams

open List Library Columns ResponseStream Option Production

variable {d : Decoder}
variable {s t : System d} {isTick : Bool} {st : StreamState d}

/-! ### What must hold -/

/-- No sender is left: neither the decoder nor a spawned task can add to the channel. -/
def Quiet (s : System d) : Prop :=
  s.task = none ∧ ∀ st, s.request = some st → st.sender = false

/-- The receiver has read everything and finds the channel closed. -/
def Ended (s : System d) : Prop :=
  s.receiverOpen = true ∧ s.queue = [] ∧ Quiet s

/-- All chunks and no error, or some chunks and the error that ended the response or that says
that the channel was full. -/
def Complete (s : System d) (items : List Item) : Prop :=
  (items = s.decoded.chunks.map .ok ∧ s.decoded.error = none) ∨
    ∃ chunks error, items = chunks.map .ok ++ [.error error] ∧ chunks <+: s.decoded.chunks ∧
      ((chunks = s.decoded.chunks ∧ s.decoded.error = some error) ∨
        error = ResponseStream.overflowError d.operation)

structure Kept (isTick : Bool) (s : System d) : Prop where
  seen : ∃ chunks errors, s.received = List.map .ok chunks ++ List.map .error errors ∧
    chunks <+: s.decoded.chunks ∧ errors.length ≤ 1
  ended : Ended s → Complete s s.received
  drains : s.receiverOpen = true → (∀ st, s.request = some st → st.sender = false) →
    ∃ actions t, (∀ a ∈ actions, a = .read ∨ a = .runTask) ∧
      runActions (step isTick) s actions = some t ∧ Ended t ∧ t.decoded = s.decoded

/-! ### The phases of a request -/

/-- A request that is decoded, one that ended well, one that ended with an error, which may wait
in a task, and one whose receiver is gone. -/
inductive Phase (s : System d) : Prop where
  | live (isOpen : s.receiverOpen = true)
      (request : s.request = some ⟨s.decoded.state, true⟩) (task : s.task = none)
      (error : s.decoded.error = none) (sent : s.received ++ s.queue = s.decoded.chunks.map .ok)
  | clean (isOpen : s.receiverOpen = true) (request : s.request = none) (task : s.task = none)
      (error : s.decoded.error = none) (sent : s.received ++ s.queue = s.decoded.chunks.map .ok)
  | failed (isOpen : s.receiverOpen = true)
      (request : ∀ st, s.request = some st → st.sender = false) (chunks : List RecordBatch)
      (error : BlpError)
      (sent : s.received ++ s.queue ++ s.task.toList.map .error = chunks.map .ok ++ [.error error])
      (isPrefix : chunks <+: s.decoded.chunks)
      (cause : (chunks = s.decoded.chunks ∧ s.decoded.error = some error) ∨
        error = ResponseStream.overflowError d.operation)
  | closed (isOpen : s.receiverOpen = false) (queue : s.queue = []) (chunks : List RecordBatch)
      (errors : List BlpError)
      (seen : s.received = chunks.map .ok ++ errors.map .error)
      (isPrefix : chunks <+: s.decoded.chunks) (single : errors.length ≤ 1)

theorem phase_start (cap : ℕ) (h : 0 < cap) : Phase (System.start d cap h) :=
  .live rfl rfl rfl rfl rfl

/-! ### What a phase shows -/

theorem Phase.seen (h : Phase s) : ∃ chunks errs, s.received = map .ok chunks ++ map .error errs ∧
      chunks <+: s.decoded.chunks ∧ errs.length ≤ 1 := by
  have hc : s.received ++ s.queue = s.decoded.chunks.map .ok →
      ∃ chunks errs, s.received = map .ok chunks ++ map .error errs ∧
        chunks <+: s.decoded.chunks ∧ errs.length ≤ 1 := by
    intro hsent
    obtain ⟨chunks, hf, hr⟩ := prefix_map_iff.mp ⟨s.queue, hsent⟩
    exact ⟨chunks, [], by simpa using hr, hf, by simp⟩
  cases h with
  | live _ _ _ _ hsent | clean _ _ _ _ hsent => exact hc hsent
  | failed _ _ chunks e hsent hf _ =>
    rw [append_assoc] at hsent
    rcases prefix_concat_iff.mp ⟨_, hsent⟩ with ha | hsome
    · exact ⟨chunks, [e], ha, hf, by simp⟩
    · obtain ⟨cs', hf', hr⟩ := prefix_map_iff.mp hsome
      exact ⟨cs', [], by simpa using hr, hf'.trans hf, by simp⟩
  | closed _ _ chunks errs hs hf hsi => exact ⟨chunks, errs, hs, hf, hsi⟩

theorem Phase.complete (h : Phase s) (he : Ended s) : Complete s s.received := by
  obtain ⟨hopen, hq, htask, hs⟩ := he
  cases h with
  | live _ hr _ _ _ => exact absurd (hs _ hr) (by simp)
  | clean _ _ _ her hsent =>
    rw [hq, append_nil] at hsent
    exact .inl ⟨hsent, her⟩
  | failed _ _ chunks e hsent hf hc =>
    rw [hq, htask] at hsent
    exact .inr ⟨chunks, e, by simpa using hsent, hf, hc⟩
  | closed hcl _ _ _ _ _ _ => simp [hopen] at hcl

theorem exists_reads (isTick : Bool) (hopen : s.receiverOpen = true) :
    ∃ acts : List (Action d), (∀ a ∈ acts, a = .read ∨ a = .runTask) ∧
      runActions (step isTick) s acts =
        some { s with queue := [], received := s.received ++ s.queue } := by
  obtain ⟨cap, hp, queue, receiverOpen, req, task, received, decoded⟩ := s
  obtain rfl : receiverOpen = true := hopen
  induction queue generalizing received with
  | nil => exact ⟨[], by simp, by simp [runActions]⟩
  | cons x rest ih =>
    obtain ⟨acts, hr, hru⟩ := ih (received ++ [x])
    refine ⟨.read :: acts, by simpa using hr, ?_⟩
    simpa [runActions, step] using hru

/-- With no sender but a task left, the receiver can read to the end. -/
theorem exists_drain (isTick : Bool) (hopen : s.receiverOpen = true)
    (hs : ∀ st, s.request = some st → st.sender = false) :
    ∃ acts t, (∀ a ∈ acts, a = .read ∨ a = .runTask) ∧
      runActions (step isTick) s acts = some t ∧ Ended t ∧ t.decoded = s.decoded := by
  obtain ⟨acts, hr, hru⟩ := exists_reads isTick hopen
  cases htask : s.task with
  | none => exact ⟨acts, _, hr, hru, ⟨hopen, rfl, htask, hs⟩, rfl⟩
  | some e =>
    refine ⟨acts ++ [.runTask, .read], { s with
      queue := [], task := none, received := s.received ++ s.queue ++ [.error e] }, ?_, ?_,
      ⟨hopen, rfl, rfl, hs⟩, rfl⟩
    · intro a ha
      rcases mem_append.mp ha with ha | ha
      · exact hr a ha
      · simp only [mem_cons, not_mem_nil, or_false] at ha
        exact ha.symm
    · rw [runActions_append, hru]
      simp [runActions, step, htask, hopen, s.capacity_pos]

theorem Phase.kept (h : Phase s) (isTick : Bool) : Kept isTick s :=
  ⟨h.seen, h.complete, exists_drain isTick⟩

/-! ### Steps of the receiver and the task -/

theorem Phase.read (h : Phase s) (hs : step isTick s .read = some t) :
    Phase t ∧ t.request = s.request := by
  simp only [step] at hs
  split at hs
  · simp at hs
  · rename_i x rest hq
    split at hs
    · cases hs
      refine ⟨?_, rfl⟩
      have hm : s.received ++ [x] ++ rest = s.received ++ s.queue := by simp [hq]
      cases h with
      | live hopen hr htask he hsent =>
        exact .live hopen hr htask he (hm.trans hsent)
      | clean hopen hr htask he hsent =>
        exact .clean hopen hr htask he (hm.trans hsent)
      | failed hopen hr chunks e hsent hf hc =>
        rw [← hm] at hsent
        exact .failed hopen hr chunks e hsent hf hc
      | closed _ hem _ _ _ _ _ => simp [hem] at hq
    · simp at hs

theorem Phase.runTask (h : Phase s) (hs : step isTick s .runTask = some t) :
    Phase t ∧ t.request = s.request := by
  obtain ⟨e, htask, hs⟩ := bind_eq_some_iff.mp hs
  cases h with
  | live _ _ hn _ _ | clean _ _ hn _ _ => simp [hn] at htask
  | failed hopen hr chunks e' hsent hf hc =>
    rw [hopen, Bool.not_true, if_neg Bool.false_ne_true] at hs
    split at hs
    · cases hs
      refine ⟨.failed rfl hr chunks e' ?_ hf hc, rfl⟩
      rw [htask] at hsent
      simpa using hsent
    · simp at hs
  | closed hcl he chunks errs hse hf hsi =>
    rw [hcl, Bool.not_false, if_pos rfl] at hs
    cases hs
    exact ⟨.closed rfl he chunks errs hse hf hsi, rfl⟩

theorem Phase.close (h : Phase s) (hs : step isTick s .close = some t) :
    Phase t ∧ t.request = s.request := by
  simp only [step] at hs
  split at hs
  · cases hs
    obtain ⟨chunks, errs, hse, hf, hsi⟩ := h.seen
    exact ⟨.closed rfl rfl chunks errs hse hf hsi, rfl⟩
  · simp at hs

theorem Phase.drop (h : Phase s) : Phase { s with request := none } := by
  cases h with
  | live hopen _ htask he hsent | clean hopen _ htask he hsent =>
    exact .clean hopen rfl htask he hsent
  | failed hopen _ chunks e hsent hf hc =>
    exact .failed hopen (by simp) chunks e hsent hf hc
  | closed hcl hem chunks errs hs hf hsi =>
    exact .closed hcl hem chunks errs hs hf hsi

/-! ### Steps of the decoder -/

/-- What later messages may do to what was decoded: add chunks, but only before an error. -/
structure Grows (p p' : Production d.State RecordBatch BlpError) : Prop where
  chunks : p.chunks <+: p'.chunks
  error : ∀ error, p.error = some error → p' = p

theorem grows_feed (p : Production d.State RecordBatch BlpError) (msg : d.Message) :
    Grows p (p.feed (decodeMessage d) msg) :=
  ⟨p.chunks_isPrefix_feed (decodeMessage d) msg,
    fun _ he => feed_of_error (decodeMessage d) he msg⟩

theorem grows_fail (p : Production d.State RecordBatch BlpError) (e : BlpError) :
    Grows p (p.fail e) :=
  ⟨prefix_refl _, fun _ he => fail_of_error he e⟩

variable {p : Production d.State RecordBatch BlpError} {req : Option (StreamState d)}

theorem Phase.ignore (h : Phase s)
    (hsn : ∀ st, s.request = some st → st.sender = false ∨ s.receiverOpen = false)
    (hn : ∀ st, req = some st → st.sender = false ∨ s.receiverOpen = false) (hs : s.request ≠ none)
    (hg : Grows s.decoded p) : Phase { s with request := req, decoded := p } := by
  cases h with
  | live hopen hr _ _ _ =>
    rcases hsn _ hr with hf | hc
    · simp at hf
    · simp [hopen] at hc
  | clean _ hno _ _ _ => exact absurd hno hs
  | failed hopen _ chunks e hsent hfr hca =>
    refine .failed hopen ?_ chunks e hsent (hfr.trans hg.chunks) ?_
    · intro st hst
      rcases hn st hst with hf | hc
      · exact hf
      · simp [hopen] at hc
    · rcases hca with ⟨ha, he⟩ | hfull
      · rw [hg.error e he]
        exact .inl ⟨ha, he⟩
      · exact .inr hfull
  | closed hc hem chunks errs hse hfr hsi =>
    exact .closed hc hem chunks errs hse (hfr.trans hg.chunks) hsi

section Send

variable {s : System d} {chunks : List RecordBatch} (hopen : s.receiverOpen = true)
  (htask : s.task = none) (hsent : s.received ++ s.queue = chunks.map .ok)

include hopen htask hsent

theorem phase_send_ok (state : d.State) (c : RecordBatch) :
    Phase { (send ⟨state, true⟩ s (.ok c)).2 with
      request := some (send ⟨state, true⟩ s (.ok c)).1
      decoded := ⟨state, chunks ++ [c], none⟩ } := by
  by_cases hr : s.queue.length < s.capacity
  · have hs : s.trySend (.ok c) = .ok { s with queue := s.queue ++ [.ok c] } := by
      simp [System.trySend, hopen, hr]
    rw [send, hs]
    refine .live hopen rfl htask rfl ?_
    change s.received ++ (s.queue ++ [.ok c]) = _
    rw [← append_assoc, hsent]
    simp
  · have hs : s.trySend (.ok c) = .error .full := by simp [System.trySend, hopen, hr]
    rw [send, hs]
    refine .failed hopen ?_ chunks (overflowError d.operation) ?_
      (prefix_append _ _) (.inr rfl)
    · intro st hst
      cases hst
      rfl
    · change s.received ++ s.queue ++ _ = _
      rw [hsent]
      rfl

theorem phase_send_error (state : d.State) (e : BlpError) :
    Phase { (send ⟨state, true⟩ s (.error e)).2 with
      request := some (send ⟨state, true⟩ s (.error e)).1
      decoded := ⟨state, chunks, some e⟩ } := by
  by_cases hr : s.queue.length < s.capacity
  · have hs : s.trySend (.error e) = .ok { s with queue := s.queue ++ [.error e] } := by
      simp [System.trySend, hopen, hr]
    rw [send, hs]
    refine .failed hopen ?_ chunks e ?_ (prefix_refl _) (.inl ⟨rfl, rfl⟩)
    · intro st hst
      cases hst
      rfl
    · change s.received ++ (s.queue ++ [.error e]) ++ s.task.toList.map .error = _
      rw [← append_assoc, hsent, htask]
      simp
  · have hs : s.trySend (.error e) = .error .full := by
      simp [System.trySend, hopen, hr]
    rw [send, hs]
    refine .failed hopen ?_ chunks e ?_ (prefix_refl _) (.inl ⟨rfl, rfl⟩)
    · intro st hst
      cases hst
      rfl
    · change s.received ++ s.queue ++ _ = _
      rw [hsent]
      rfl

end Send

theorem phase_onPartial_live (hopen : s.receiverOpen = true) (htask : s.task = none)
    (he : s.decoded.error = none) (hsent : s.received ++ s.queue = s.decoded.chunks.map .ok)
    (message : d.Message) :
    Phase { (ResponseStream.onPartial ⟨s.decoded.state, true⟩ s message).2 with
      request := some (ResponseStream.onPartial ⟨s.decoded.state, true⟩ s message).1
      decoded := s.decoded.feed (decodeMessage d) message } := by
  have hc : ResponseStream.isClosed ⟨s.decoded.state, true⟩ s = false := by
    simp [isClosed, hopen]
  rw [ResponseStream.onPartial, hc, if_neg Bool.false_ne_true]
  cases hr : topLevelResponseError d message with
  | some error =>
    have hd : decodeMessage d s.decoded.state message =
        (s.decoded.state, some (.error error)) := by rw [decodeMessage, hr]
    rw [feed_of_failure he hd]
    exact phase_send_error hopen htask hsent s.decoded.state error
  | none =>
    have hd : decodeMessage d s.decoded.state message =
        d.process s.decoded.state message := by rw [decodeMessage, hr]
    rcases hp : d.process s.decoded.state message with ⟨state, item⟩
    rw [hp] at hd
    match item with
    | none =>
      rw [feed_of_none he hd]
      exact .live hopen rfl htask he hsent
    | some (.ok chunk) =>
      rw [feed_of_ok he hd, he]
      exact phase_send_ok hopen htask hsent state chunk
    | some (.error error) =>
      rw [feed_of_failure he hd]
      exact phase_send_error hopen htask hsent state error

theorem send_of_isClosed (h : isClosed st s = true) (x : Item) : (send st s x).2 = s := by
  rw [isClosed, Bool.or_eq_true, Bool.not_eq_true', Bool.not_eq_true'] at h
  rcases h with hs | hopen
  · simp [send, hs]
  · have hse : s.trySend x = .error .closed := by simp [System.trySend, hopen]
    cases hs : st.sender <;> simp [send, hs, hse]

section

variable (h : Phase s) (hr : s.request = some st)
include h hr

theorem Phase.live_of_not_isClosed (hc : isClosed st s = false) :
    s.receiverOpen = true ∧ st = ⟨s.decoded.state, true⟩ ∧ s.task = none ∧
      s.decoded.error = none ∧ s.received ++ s.queue = s.decoded.chunks.map .ok := by
  rw [isClosed, Bool.or_eq_false_iff, Bool.not_eq_false', Bool.not_eq_false'] at hc
  cases h with
  | live hopen hl htask he hsent =>
    exact ⟨hopen, some.inj (hr.symm.trans hl), htask, he, hsent⟩
  | clean _ hn _ _ _ => simp [hn] at hr
  | failed _ hs _ _ _ _ _ => simp [hs st hr] at hc
  | closed hopen _ _ _ _ _ _ => simp [hopen] at hc

theorem Phase.ignore_isClosed (hc : isClosed st s = true)
    (hn : ∀ st', req = some st' → st'.sender = false ∨ s.receiverOpen = false)
    (hg : Grows s.decoded p) : Phase { s with request := req, decoded := p } := by
  rw [isClosed, Bool.or_eq_true, Bool.not_eq_true', Bool.not_eq_true'] at hc
  apply h.ignore _ hn _ hg
  · intro st' hst'
    cases hr.symm.trans hst'
    exact hc
  · simp [hr]

theorem Phase.onPartial (msg : d.Message) :
    Phase { (ResponseStream.onPartial st s msg).2 with
      request := some (ResponseStream.onPartial st s msg).1
      decoded := s.decoded.feed (decodeMessage d) msg } := by
  cases hc : ResponseStream.isClosed st s with
  | true =>
    rw [ResponseStream.onPartial, hc, if_pos rfl]
    apply h.ignore_isClosed hr hc _ (grows_feed s.decoded msg)
    intro st' hst'
    cases hst'
    simpa [isClosed] using hc
  | false =>
    obtain ⟨hopen, rfl, htask, he, hsent⟩ := h.live_of_not_isClosed hr hc
    exact phase_onPartial_live hopen htask he hsent msg

theorem Phase.fail (e : BlpError) :
    Phase { (ResponseStream.send st s (.error e)).2 with
      request := none
      decoded := s.decoded.fail e } := by
  cases hc : isClosed st s with
  | true =>
    rw [send_of_isClosed hc]
    exact h.ignore_isClosed hr hc (by simp) (grows_fail s.decoded e)
  | false =>
    obtain ⟨hopen, rfl, htask, he, hsent⟩ := h.live_of_not_isClosed hr hc
    have hf : s.decoded.fail e = ⟨s.decoded.state, s.decoded.chunks, some e⟩ := by
      rw [Production.fail, he, none_or]
    rw [hf]
    exact (phase_send_error hopen htask hsent s.decoded.state e).drop

end

theorem Phase.step_response {a : Action d} (h : Phase s) (hs : step false s a = some t) :
    Phase t := by
  cases a with
  | onPartial msg =>
    obtain ⟨st, hr, rfl⟩ := map_eq_some_iff.mp hs
    exact h.onPartial hr msg
  | finish msg =>
    obtain ⟨st, hr, rfl⟩ := map_eq_some_iff.mp hs
    exact (h.onPartial hr msg).drop
  | fail e =>
    obtain ⟨st, hr, rfl⟩ := map_eq_some_iff.mp hs
    exact h.fail hr e
  | discard =>
    obtain ⟨st, hr, rfl⟩ := map_eq_some_iff.mp hs
    exact h.drop
  | runTask => exact (h.runTask hs).1
  | read => exact (h.read hs).1
  | close => exact (h.close hs).1

/-! ### Ticks -/

/-- The channel takes another item, or nobody waits for it. -/
def HasRoom (s : System d) : Prop :=
  s.receiverOpen = true → s.queue.length < s.capacity

/-- There is room for what the message makes the decoder send. -/
def Fits (s : System d) (message : d.Message) : Prop :=
  ∀ st, s.request = some st → (decodeMessage d st.response message).2 ≠ none → HasRoom s

/-- The ticks of a request always find room, and only its last message reports an error. -/
def Heeded (isTick : Bool) (s : System d) (a : Action d) : Prop :=
  isTick = true →
    match a with
    | .onPartial message => topLevelResponseError d message = none ∧ Fits s message
    | .finish message => Fits s message
    | .fail _ => HasRoom s
    | _ => True

def Infallible (d : Decoder) : Prop :=
  ∀ state message error, (d.process state message).2 ≠ some (.error error)

theorem infallible_tickDecoder (ticker : String) : Infallible (tickDecoder ticker) := by
  intro st msg e
  change (processTicks st msg).map Except.ok ≠ some (.error e)
  cases processTicks st msg <;> simp

theorem tickSend_of_hasRoom (h : HasRoom s) (hopen : s.receiverOpen = true) (st : StreamState d)
    (hse : st.sender = true) (x : Item) :
    send st s x = ({ st with sender := x.isOk }, TickStream.send s x) := by
  have hs : s.trySend x = .ok { s with queue := s.queue ++ [x] } := by
    simp [System.trySend, hopen, h hopen]
  simp [send, TickStream.send, hs, hse]

theorem tickSend_of_closed (hopen : s.receiverOpen = false) (x : Item) :
    TickStream.send s x = s := by
  have hs : s.trySend x = .error .closed := by simp [System.trySend, hopen]
  simp [TickStream.send, hs]

theorem tickOnPartial_of_closed (hopen : s.receiverOpen = false) (st : StreamState d)
    (msg : d.Message) : (TickStream.onPartial st s msg).2 = s := by
  rw [TickStream.onPartial]
  split
  · rfl
  · exact tickSend_of_closed hopen _

theorem tickFinish_of_closed (hopen : s.receiverOpen = false) (st : StreamState d)
    (msg : d.Message) : TickStream.finish st s msg = s := by
  rw [TickStream.finish]
  split
  · exact tickSend_of_closed hopen _
  · exact tickOnPartial_of_closed hopen st msg

/-- With room for it a chunk of ticks is delivered as any other. -/
theorem tickOnPartial_eq (hok : Infallible d) (hopen : s.receiverOpen = true)
    (hrq : s.request = some st) (hs : st.sender = true) {message : d.Message}
    (hre : topLevelResponseError d message = none) (hf : Fits s message) :
    TickStream.onPartial st s message = ResponseStream.onPartial st s message := by
  have hc : isClosed st s = false := by
    simp [isClosed, hopen, hs]
  have hd : decodeMessage d st.response message = d.process st.response message := by
    rw [decodeMessage, hre]
  have hr := hf st hrq
  rw [hd] at hr
  rw [TickStream.onPartial, ResponseStream.onPartial, hc, if_neg Bool.false_ne_true, hre]
  rcases hp : d.process st.response message with ⟨response, item⟩
  match item with
  | none => rfl
  | some (.ok chunk) =>
    rw [hp] at hr
    simp only
    rw [tickSend_of_hasRoom (hr (by simp)) hopen { st with response } hs]
    simp [Except.isOk, Except.toBool, hs]
  | some (.error error) => exact absurd (congrArg Prod.snd hp) (hok _ _ error)

theorem tickFinish_eq (hok : Infallible d) (hopen : s.receiverOpen = true)
    (hre : s.request = some st) (hs : st.sender = true) {msg : d.Message} (hf : Fits s msg) :
    TickStream.finish st s msg = (ResponseStream.onPartial st s msg).2 := by
  cases hr : topLevelResponseError d msg with
  | none =>
    rw [TickStream.finish, hr]
    exact congrArg Prod.snd (tickOnPartial_eq hok hopen hre hs hr hf)
  | some e =>
    have hc : isClosed st s = false := by
      simp [isClosed, hopen, hs]
    have hro : HasRoom s := by
      apply hf st hre
      rw [decodeMessage, hr]
      simp
    rw [TickStream.finish, ResponseStream.onPartial, hc, hr, if_neg Bool.false_ne_true]
    simp only
    rw [tickSend_of_hasRoom hro hopen st hs]

/-- The decoder of ticks never gives up its sender before it is dropped. -/
structure TickPhase (s : System d) : Prop where
  phase : Phase s
  sender : ∀ st, s.request = some st → st.sender = true

theorem TickPhase.step {a : Action d} (hok : Infallible d) (h : TickPhase s)
    (hh : Heeded true s a) (hs : step true s a = some t) : TickPhase t := by
  have hh := hh rfl
  cases a with
  | onPartial message =>
    obtain ⟨st, hr, rfl⟩ := map_eq_some_iff.mp hs
    have hse := h.sender st hr
    refine ⟨?_, ?_⟩
    · cases hopen : s.receiverOpen with
      | true =>
        have heq := tickOnPartial_eq hok hopen hr hse hh.1 hh.2
        simp only [Streams.onPartial, if_pos, heq]
        exact h.phase.onPartial hr message
      | false =>
        simp only [Streams.onPartial, if_pos, tickOnPartial_of_closed hopen]
        exact h.phase.ignore_isClosed hr (by simp [ResponseStream.isClosed, hopen])
          (fun _ _ => .inr hopen) (grows_feed s.decoded message)
    · intro st' hst'
      cases hst'
      simp only [Streams.onPartial, if_pos, TickStream.onPartial]
      split <;> exact hse
  | finish message =>
    obtain ⟨st, hr, rfl⟩ := map_eq_some_iff.mp hs
    refine ⟨?_, by simp⟩
    cases hopen : s.receiverOpen with
    | true =>
      have heq := tickFinish_eq hok hopen hr (h.sender st hr) hh
      simp only [Streams.finish, if_pos, heq]
      exact (h.phase.onPartial hr message).drop
    | false =>
      simp only [Streams.finish, if_pos, tickFinish_of_closed hopen]
      exact h.phase.ignore_isClosed hr (by simp [ResponseStream.isClosed, hopen])
        (fun _ _ => .inr hopen) (grows_feed s.decoded message)
  | fail error =>
    obtain ⟨st, hr, rfl⟩ := map_eq_some_iff.mp hs
    refine ⟨?_, by simp⟩
    cases hopen : s.receiverOpen with
    | true =>
      have heq := tickSend_of_hasRoom hh hopen st (h.sender st hr) (.error error)
      have hp := h.phase.fail hr error
      rw [heq] at hp
      exact hp
    | false =>
      simp only [Streams.fail, if_pos, tickSend_of_closed hopen]
      exact h.phase.ignore_isClosed hr (by simp [isClosed, hopen])
        (by simp) (grows_fail s.decoded error)
  | discard =>
    obtain ⟨st, hr, rfl⟩ := map_eq_some_iff.mp hs
    exact ⟨h.phase.drop, by simp⟩
  | runTask =>
    obtain ⟨hp, hsa⟩ := h.phase.runTask hs
    exact ⟨hp, by rw [hsa]; exact h.sender⟩
  | read =>
    obtain ⟨hp, hsa⟩ := h.phase.read hs
    exact ⟨hp, by rw [hsa]; exact h.sender⟩
  | close =>
    obtain ⟨hp, hsa⟩ := h.phase.close hs
    exact ⟨hp, by rw [hsa]; exact h.sender⟩

/-! ### Runs -/

theorem tickPhase_start (cap : ℕ) (h : 0 < cap) : TickPhase (System.start d cap h) := by
  refine ⟨phase_start cap h, fun st hst => ?_⟩
  cases hst
  rfl

/-- Every streaming request keeps its data: the receiver reads chunks in order and at most one
error behind them, finds the end of the stream without an error only after all chunks, and can
always read to that end. For ticks this takes room in the channel. -/
theorem stream_kept_of_run (c : Conversions) (request : StreamingRequest) (capacity : ℕ)
    (hpos : 0 < capacity) (actions : List (Action (request.decoder c)))
    (s : System (request.decoder c))
    (hrun : Run (step request.isTick) (Heeded request.isTick) (System.start _ capacity hpos)
      actions s) : Kept request.isTick s := by
  cases request with
  | histData fields fieldTypes | intradayBar ticker =>
    have hphase : Phase s :=
      hrun.invariant (fun _ _ _ h _ hstep => h.step_response hstep) (phase_start capacity hpos)
    exact hphase.kept false
  | intradayTick ticker =>
    have hphase : TickPhase s :=
      hrun.invariant (fun _ _ _ h hok hstep => h.step (infallible_tickDecoder ticker) hok hstep)
        (tickPhase_start capacity hpos)
    exact hphase.phase.kept true

/-! ### Ticks that are lost -/

def sampleTicks (time : ℤ) : TickMessage :=
  ⟨none, some ⟨none, some [some ⟨some time, none, none, none⟩]⟩⟩

def sampleError : TickMessage := ⟨some "category=BAD_ARGS", none⟩

def sampleEnd : TickMessage := ⟨none, none⟩

def sampleStart : System (tickDecoder "IBM US Equity") := .start _ 1 Nat.one_pos

theorem not_complete_of_lengths {items : List Item} (hl : items.length < s.decoded.chunks.length)
    (hok : ∀ item ∈ items, item.isOk = true) : ¬Complete s items := by
  rintro (⟨ha, -⟩ | ⟨chunks, error, hi, -, -⟩)
  · rw [ha, length_map] at hl
    omega
  · have he := hok (.error error) (by simp [hi])
    simp [Except.isOk, Except.toBool] at he

/-- A second chunk that finds the channel full is lost, and so is an error that an earlier message
reports: the stream ends without an error. -/
theorem exists_run_loses_ticks : (∃ s, FreeRun (step true) sampleStart
        [.onPartial (sampleTicks 1), .onPartial (sampleTicks 2), .finish sampleEnd, .read] s ∧
      Ended s ∧ s.decoded.chunks.length = 2 ∧ s.received.length = 1 ∧
      ¬Complete s s.received) ∧
    ∃ s, FreeRun (step true) sampleStart [.onPartial sampleError, .finish sampleEnd] s ∧
      Ended s ∧ s.received = [] ∧ s.decoded.error ≠ none := by
  constructor
  · have hrun : FreeRun (step true) sampleStart
        [.onPartial (sampleTicks 1), .onPartial (sampleTicks 2), .finish sampleEnd, .read] _ :=
      .cons trivial rfl (.cons trivial rfl (.cons trivial rfl (.cons trivial rfl (.nil _))))
    refine ⟨_, hrun, ⟨rfl, rfl, rfl, fun st hst => (nomatch hst)⟩, rfl, rfl, ?_⟩
    apply not_complete_of_lengths
    · decide
    · intro item hitem
      obtain rfl := List.mem_singleton.mp hitem
      rfl
  · have hrun : FreeRun (step true) sampleStart [.onPartial sampleError, .finish sampleEnd] _ :=
      .cons trivial rfl (.cons trivial rfl (.nil _))
    exact ⟨_, hrun, ⟨rfl, rfl, rfl, fun st hst => (nomatch hst)⟩, rfl, by decide⟩

/-- The same messages are delivered when the receiver reads the first chunk in time. -/
theorem stream_kept_of_run_read : ∃ s, Run (step true) (Heeded true) sampleStart
        [.onPartial (sampleTicks 1), .read, .onPartial (sampleTicks 2), .finish sampleEnd] s ∧
      Kept true s := by
  have hrun : Run (step true) (Heeded true) sampleStart
      [.onPartial (sampleTicks 1), .read, .onPartial (sampleTicks 2), .finish sampleEnd] _ :=
    .cons (fun _ => ⟨rfl, fun _ _ _ _ => Nat.one_pos⟩) rfl (.cons (fun _ => trivial) rfl
        (.cons (fun _ => ⟨rfl, fun _ _ _ _ => Nat.one_pos⟩) rfl
          (.cons (fun _ _ hst hsome => absurd (by obtain rfl := some.inj hst; rfl) hsome) rfl
            (.nil _))))
  exact ⟨_, hrun, stream_kept_of_run ⟨fun _ => ⟨0#64⟩, fun _ => none, fun _ => none, fun _ => "",
    fun _ => "", fun _ => "", fun _ => "", fun _ => ""⟩ (.intradayTick "IBM US Equity") 1
    Nat.one_pos _ _ hrun⟩

end Xbbg.Streams
