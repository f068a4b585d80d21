import Xbbg.Library.Lists
import Xbbg.Model.CacheFiles

/-! # Publications reach the file in the order of their numbers

A publication commits unless a later one has succeeded. So the file is what the highest numbered
success left, and what a cache clears no earlier snapshot brings back. -/

namespace Xbbg.CacheFiles

open List Library AtomicJsonPublisher Option

section Publisher

variable {δ : Type}
variable {publisher : AtomicJsonPublisher} {publication : ℕ}

/-- What a publication can do once its content is prepared. -/
inductive Commit (publisher : AtomicJsonPublisher) (file : Option δ) (publication : ℕ)
    (content : Option δ) :
    AtomicJsonPublisher × Option δ × Except String PublicationOutcome → Prop where
  | failed (e : String) : Commit publisher file publication content (publisher, file, .error e)
  | superseded : publisher.isSuperseded publication = true →
      Commit publisher file publication content (publisher, file, .ok .superseded)
  | published : publisher.isSuperseded publication = false →
      Commit publisher file publication content
        ({ publisher with latestSuccessful := some publication }, content, .ok .published)

theorem commit_publish (publisher : AtomicJsonPublisher) (file : Option δ) (publication : ℕ)
    (v : δ) (prepare replace : Except String Unit) :
    Commit publisher file publication (some v)
      (publisher.publish file publication v prepare replace) := by
  unfold publish
  cases prepare with
  | error e => exact .failed e
  | ok =>
    by_cases h : publisher.isSuperseded publication = true
    · simp only [if_pos h]
      exact .superseded h
    · simp only [if_neg h]
      cases replace with
      | error e => exact .failed e
      | ok => exact .published (by simpa using h)

theorem commit_remove (publisher : AtomicJsonPublisher) (file : Option δ) (publication : ℕ)
    (unlink : Except String Unit) :
    Commit publisher file publication none (publisher.remove file publication unlink) := by
  unfold remove
  by_cases h : publisher.isSuperseded publication = true
  · rw [if_pos h]
    exact .superseded h
  · rw [if_neg h]
    cases unlink with
    | error e => exact .failed e
    | ok => exact .published (by simpa using h)

theorem isSuperseded_iff : publisher.isSuperseded publication = true ↔
      ∃ latest, publisher.latestSuccessful = some latest ∧ publication < latest := by
  simp [isSuperseded, Option.any_eq_true]

variable {file content : Option δ}
  {res : AtomicJsonPublisher × Option δ × Except String PublicationOutcome}

/-- A publication that is superseded stays so: the latest success only moves up. -/
theorem Commit.isSuperseded {number : ℕ} (h : Commit publisher file publication content res)
    (hn : publisher.isSuperseded number = true) : res.1.isSuperseded number = true := by
  cases h with
  | failed e => exact hn
  | superseded _ => exact hn
  | published hno =>
    obtain ⟨latest, hl, hlt⟩ := isSuperseded_iff.mp hn
    apply isSuperseded_iff.mpr
    refine ⟨publication, rfl, ?_⟩
    have hle : ¬publication < latest := by
      intro hlt'
      have ht := isSuperseded_iff.mpr ⟨latest, hl, hlt'⟩
      rw [hno] at ht
      cases ht
    omega

theorem Commit.nextPublication (h : Commit publisher file publication content res) :
    res.1.nextPublication = publisher.nextPublication := by
  cases h <;> rfl

end Publisher

/-! ### The file of one publisher -/

namespace Publishing

variable {δ : Type}
variable {initial : Option δ} {s : Publishing δ}

/-- Numbers are handed out once, and the successes have come in the order of their numbers. -/
structure Ordered (initial : Option δ) (s : Publishing δ) : Prop where
  pending_lt : ∀ n ∈ s.pending, n < s.publisher.nextPublication
  nodup : s.pending.Nodup
  succeeded_lt : ∀ c ∈ s.succeeded, c.1 < s.publisher.nextPublication
  fresh : ∀ n ∈ s.pending, ∀ c ∈ s.succeeded, c.1 ≠ n
  sorted : s.succeeded.Pairwise fun c d => d.1 < c.1
  latest : s.publisher.latestSuccessful = s.succeeded.head?.map Prod.fst
  file : s.file = (s.succeeded.head?.map Prod.snd).getD initial

theorem ordered_start (initial : Option δ) : Ordered initial (start initial) := by
  constructor <;> simp [start, new]

section

variable (h : Ordered initial s)
include h

theorem Ordered.isSuperseded_iff (n : ℕ) :
    s.publisher.isSuperseded n = true ↔ ∃ c ∈ s.succeeded, n < c.1 := by
  rw [CacheFiles.isSuperseded_iff, h.latest]
  have hs := h.sorted
  cases hsu : s.succeeded with
  | nil => simp
  | cons c rest =>
    rw [hsu] at hs
    constructor
    · rintro ⟨latest, hl, hlt⟩
      obtain rfl : c.1 = latest := by simpa using hl
      exact ⟨c, by simp, hlt⟩
    · rintro ⟨d, hd, hlt⟩
      refine ⟨c.1, rfl, ?_⟩
      rcases mem_cons.mp hd with rfl | hr
      · exact hlt
      · exact hlt.trans (rel_of_pairwise_cons hs hr)

theorem Ordered.begin : Ordered initial { s with
      publisher := s.publisher.begin
      pending := s.publisher.nextPublication :: s.pending } where
  pending_lt := by
    intro n hn
    change n < s.publisher.nextPublication + 1
    rcases mem_cons.mp hn with rfl | hn
    · omega
    · have := h.pending_lt n hn
      omega
  nodup := by
    apply nodup_cons.mpr
    refine ⟨fun hm => ?_, h.nodup⟩
    have := h.pending_lt _ hm
    omega
  succeeded_lt := fun c hc => Nat.lt_succ_of_lt (h.succeeded_lt c hc)
  fresh := by
    intro n hn c hc
    rcases mem_cons.mp hn with rfl | hn
    · exact (h.succeeded_lt c hc).ne
    · exact h.fresh n hn c hc
  sorted := h.sorted
  latest := h.latest
  file := h.file

theorem Ordered.abandon (n : ℕ) : Ordered initial { s with pending := s.pending.erase n } where
  pending_lt := fun m hm => h.pending_lt m (mem_of_mem_erase hm)
  nodup := h.nodup.erase n
  succeeded_lt := h.succeeded_lt
  fresh := fun m hm => h.fresh m (mem_of_mem_erase hm)
  sorted := h.sorted
  latest := h.latest
  file := h.file

theorem Ordered.finish {n : ℕ} (hn : n ∈ s.pending) {content : Option δ}
    {res : AtomicJsonPublisher × Option δ × Except String PublicationOutcome}
    (hco : Commit s.publisher s.file n content res) : Ordered initial (s.finish n content res) := by
  cases hco with
  | failed e => exact h.abandon n
  | superseded _ => exact h.abandon n
  | published hno =>
    -- no success has a greater number, and none has the same one
    have hb : ∀ c ∈ s.succeeded, c.1 < n := by
      intro c hc
      have hle : ¬n < c.1 := by
        intro hlt
        have ht := (h.isSuperseded_iff n).mpr ⟨c, hc, hlt⟩
        rw [hno] at ht
        cases ht
      have hne := h.fresh n hn c hc
      omega
    exact {
      pending_lt := fun m hm => h.pending_lt m (mem_of_mem_erase hm)
      nodup := h.nodup.erase n
      succeeded_lt := by
        intro c hc
        rcases mem_cons.mp hc with rfl | hc
        · exact h.pending_lt n hn
        · exact h.succeeded_lt c hc
      fresh := by
        intro m hm c hc
        have hme := (List.Nodup.mem_erase_iff h.nodup).mp hm
        rcases mem_cons.mp hc with rfl | hc
        · exact hme.1.symm
        · exact h.fresh m hme.2 c hc
      sorted := pairwise_cons.mpr ⟨hb, h.sorted⟩
      latest := rfl
      file := rfl }

theorem Ordered.step {t : Publishing δ} {a : Action δ} (hs : s.step a = some t) :
    Ordered initial t := by
  cases a with
  | begin =>
    cases hs
    exact h.begin
  | publish n v prepare replace =>
    obtain ⟨hn, heq⟩ := ite_none_right_eq_some.mp hs
    cases heq
    exact h.finish hn (commit_publish ..)
  | remove n unlink =>
    obtain ⟨hn, heq⟩ := ite_none_right_eq_some.mp hs
    cases heq
    exact h.finish hn (commit_remove ..)
  | abandon n =>
    obtain ⟨-, heq⟩ := ite_none_right_eq_some.mp hs
    cases heq
    exact h.abandon n

end

theorem Ordered.run {actions : List (Action δ)}
    (hr : FreeRun Publishing.step (start initial) actions s) : Ordered initial s :=
  hr.invariant (fun _ _ _ h _ hs => h.step hs) (ordered_start initial)

/-- The file is what the highest numbered success left. A pending publication whose file
operations work is superseded by greater successes only, and takes effect otherwise. -/
structure Reflects (initial : Option δ) (s : Publishing δ) : Prop where
  untouched : s.succeeded = [] → s.file = initial
  highest : ∀ c ∈ s.succeeded, (∀ d ∈ s.succeeded, d.1 ≤ c.1) → s.file = c.2
  publish_superseded : ∀ n ∈ s.pending, (∃ c ∈ s.succeeded, n < c.1) → ∀ value,
    (s.publisher.publish s.file n value (.ok ()) (.ok ())).2 = (s.file, .ok .superseded)
  publish_published : ∀ n ∈ s.pending, (∀ c ∈ s.succeeded, c.1 ≤ n) → ∀ value,
    (s.publisher.publish s.file n value (.ok ()) (.ok ())).2 = (some value, .ok .published)
  remove_superseded : ∀ n ∈ s.pending, (∃ c ∈ s.succeeded, n < c.1) →
    (s.publisher.remove s.file n (.ok ())).2 = (s.file, .ok .superseded)
  remove_published : ∀ n ∈ s.pending, (∀ c ∈ s.succeeded, c.1 ≤ n) →
    (s.publisher.remove s.file n (.ok ())).2 = (none, .ok .published)

theorem Ordered.not_isSuperseded (h : Ordered initial s) {n : ℕ}
    (hle : ∀ c ∈ s.succeeded, c.1 ≤ n) :
    ¬s.publisher.isSuperseded n = true := by
  rw [h.isSuperseded_iff]
  rintro ⟨c, hc, hlt⟩
  have := hle c hc
  omega

theorem Ordered.highest (h : Ordered initial s) {c : ℕ × Option δ} (hc : c ∈ s.succeeded)
    (hm : ∀ d ∈ s.succeeded, d.1 ≤ c.1) : s.file = c.2 := by
  have hs := h.sorted
  rw [h.file]
  cases hsu : s.succeeded with
  | nil => simp [hsu] at hc
  | cons d rest =>
    rw [hsu] at hc hm hs
    rcases mem_cons.mp hc with rfl | hr
    · rfl
    · have hlt := rel_of_pairwise_cons hs hr
      have hle := hm d (by simp)
      omega

theorem Ordered.reflects (h : Ordered initial s) : Reflects initial s where
  untouched := by
    intro hn
    rw [h.file, hn]
    rfl
  highest := fun _ hc hm => h.highest hc hm
  publish_superseded := by
    intro n _ hg v
    simp [publish, (h.isSuperseded_iff n).mpr hg]
  publish_published := by
    intro n _ hle v
    simp [publish, h.not_isSuperseded hle]
  remove_superseded := by
    intro n _ hg
    simp [remove, (h.isSuperseded_iff n).mpr hg]
  remove_published := by
    intro n _ hle
    simp [remove, h.not_isSuperseded hle]

end Publishing

/-! ### Caches on a file -/

def Holder.publication {μ : Type} : Holder μ → ℕ
  | .clearing publication => publication
  | .invalidating _ publication _ => publication

namespace Cache

variable {μ δ ω : Type} {kind : Kind μ δ ω}
variable {s t : Cache μ δ} {holder : Holder μ} {a : Action ω}
  {allowed : Cache μ δ → Action ω → Prop} {actions : List (Action ω)} {number : ℕ} {save : Save δ}

/-- The numbers in use. All of them are handed out under the lock, so its holder has the last. -/
structure Numbered (s : Cache μ δ) : Prop where
  saves_lt : ∀ save ∈ s.saves, save.publication < s.publisher.nextPublication
  latest_lt : ∀ n, s.publisher.latestSuccessful = some n → n < s.publisher.nextPublication
  holder_last : ∀ holder, s.holder = some holder →
    holder.publication + 1 = s.publisher.nextPublication
  saves_lt_holder : ∀ holder, s.holder = some holder →
    ∀ save ∈ s.saves, save.publication < holder.publication

theorem numbered_start (file : Option δ) (memory : μ) (loaded : Except String Unit) :
    Numbered (start file memory loaded) := by
  constructor <;> simp [start, new]

/-- No later publication can have succeeded before the one of the lock's holder. -/
theorem Numbered.holder_not_superseded (hn : Numbered s) (hh : s.holder = some holder) :
    s.publisher.isSuperseded holder.publication = false := by
  rw [Bool.eq_false_iff]
  intro ht
  obtain ⟨latest, hl, hlt⟩ := isSuperseded_iff.mp ht
  have hb := hn.latest_lt latest hl
  have hla := hn.holder_last holder hh
  omega

/-- The lock with a number for its holder. -/
def lock (s : Cache μ δ) (holder : ℕ → Holder μ) : Cache μ δ :=
  { s with
    publisher := s.publisher.begin
    holder := some (holder s.publisher.nextPublication) }

/-- The lock given back after a success of its holder. -/
def unlock (s : Cache μ δ) (publication : ℕ) (file : Option δ) (memory : μ) : Cache μ δ :=
  { s with
    publisher := { s.publisher with latestSuccessful := some publication }
    file := file
    memory := memory
    holder := none }

inductive Step (kind : Kind μ δ ω) (s : Cache μ δ) : Action ω → Cache μ δ → Prop where
  | write (op : ω) : s.holder = none →
      Step kind s (.write op) { s with memory := kind.write op s.memory }
  | save : s.holder = none → Step kind s .save (s.save kind)
  | publish (index : ℕ) (prepare replace : Except String Unit) {save : Save δ}
      {result : AtomicJsonPublisher × Option δ × Except String PublicationOutcome} :
      s.saves[index]? = some save →
      Commit s.publisher s.file save.publication (some save.snapshot) result →
      Step kind s (.publish index prepare replace)
        { s with publisher := result.1, file := result.2.1, saves := s.saves.eraseIdx index }
  | clear : s.holder = none → Step kind s .clear (s.lock .clearing)
  | missing (key : String) : Step kind s (.invalidate key) s
  | invalidate (key : String) {next : μ} : s.holder = none →
      kind.without key s.memory = some next →
      Step kind s (.invalidate key) (s.lock fun n => .invalidating key n next)
  | failed (prepare commit : Except String Unit) :
      Step kind s (.finish prepare commit) { s with holder := none }
  | cleared (prepare commit : Except String Unit) {n : ℕ} : s.holder = some (.clearing n) →
      Step kind s (.finish prepare commit) (s.unlock n none kind.empty)
  | invalidated (prepare commit : Except String Unit) {key : String} {n : ℕ} {next : μ} :
      s.holder = some (.invalidating key n next) →
      Step kind s (.finish prepare commit) (s.unlock n (some (kind.persist next)) next)

theorem step_invalidate {key : String} (h : s.step kind (.invalidate key) = some t) :
    Step kind s (.invalidate key) t := by
  obtain ⟨hfr, heq⟩ := ite_none_right_eq_some.mp h
  cases heq
  cases hn : kind.without key s.memory with
  | none =>
    have hs : s.invalidate kind key = s := by
      cases hl : s.loaded <;> simp [Cache.invalidate, hl, hn]
    rw [hs]
    exact .missing key
  | some next =>
    by_cases hl : s.loaded = .ok ()
    · have hlo : s.invalidate kind key = s.lock fun n => .invalidating key n next := by
        simp [Cache.invalidate, lock, hl, hn]
      rw [hlo]
      exact .invalidate key (isNone_iff_eq_none.mp hfr) hn
    · have hs : s.invalidate kind key = s := by
        cases hf : s.loaded with
        | ok => exact absurd hf hl
        | error e => simp [Cache.invalidate, hf]
      rw [hs]
      exact .missing key

section

variable (hn : Numbered s)
include hn

/-- The end of a clear: the file is gone and so is the memory, or nothing has changed. -/
theorem finishClear_eq {n : ℕ} (hh : s.holder = some (.clearing n)) (unlink : Except String Unit) :
    s.finishClear kind n unlink = match unlink with
      | .ok () => s.unlock n none kind.empty
      | .error _ => { s with holder := none } := by
  have hno : s.publisher.isSuperseded n = false := hn.holder_not_superseded hh
  cases unlink <;> simp [finishClear, remove, hno, unlock]

theorem finishInvalidate_eq {key : String} {n : ℕ} {next : μ}
    (hh : s.holder = some (.invalidating key n next)) (prepare replace : Except String Unit) :
    s.finishInvalidate kind n next prepare replace = match prepare, replace with
      | .ok (), .ok () => s.unlock n (some (kind.persist next)) next
      | _, _ => { s with holder := none } := by
  have hno : s.publisher.isSuperseded n = false := hn.holder_not_superseded hh
  cases prepare <;> cases replace <;>
    simp [finishInvalidate, AtomicJsonPublisher.publish, hno, unlock]

theorem step_finish {prepare commit : Except String Unit}
    (h : s.step kind (.finish prepare commit) = some t) :
    Step kind s (.finish prepare commit) t := by
  simp only [step] at h
  cases hh : s.holder with
  | none => simp [hh] at h
  | some holder =>
    rw [hh] at h
    cases holder with
    | clearing n =>
      cases h
      rw [finishClear_eq hn hh]
      cases commit with
      | ok => exact .cleared prepare (.ok ()) hh
      | error e => exact .failed prepare (.error e)
    | invalidating key n next =>
      cases h
      rw [finishInvalidate_eq hn hh]
      cases prepare with
      | error e => exact .failed (.error e) commit
      | ok =>
        cases commit with
        | error e => exact .failed (.ok ()) (.error e)
        | ok => exact .invalidated (.ok ()) (.ok ()) hh

theorem step_cases (h : s.step kind a = some t) : Step kind s a t := by
  cases a with
  | write op =>
    obtain ⟨hf, heq⟩ := ite_none_right_eq_some.mp h
    cases heq
    exact .write op (isNone_iff_eq_none.mp hf)
  | save =>
    obtain ⟨hf, heq⟩ := ite_none_right_eq_some.mp h
    cases heq
    exact .save (isNone_iff_eq_none.mp hf)
  | publish i prepare replace =>
    obtain ⟨save, hg, rfl⟩ := map_eq_some_iff.mp h
    exact .publish i prepare replace hg (commit_publish ..)
  | clear =>
    obtain ⟨hf, heq⟩ := ite_none_right_eq_some.mp h
    cases heq
    exact .clear (isNone_iff_eq_none.mp hf)
  | invalidate key => exact step_invalidate h
  | finish prepare commit => exact step_finish hn h

/-! #### Numbers -/

theorem Numbered.lock {holder : ℕ → Holder μ} (hnu : ∀ n, (holder n).publication = n) :
    Numbered (s.lock holder) where
  saves_lt := fun save hm => Nat.lt_succ_of_lt (hn.saves_lt save hm)
  latest_lt := fun n hl => Nat.lt_succ_of_lt (hn.latest_lt n hl)
  holder_last := by
    intro holder' h
    cases h
    rw [hnu]
    rfl
  saves_lt_holder := by
    intro holder' h save hm
    cases h
    rw [hnu]
    exact hn.saves_lt save hm

theorem Numbered.unlock (hh : s.holder = some holder) (file : Option δ) (memory : μ) :
    Numbered (s.unlock holder.publication file memory) where
  saves_lt := hn.saves_lt
  latest_lt := by
    intro n hl
    cases hl
    have hla := hn.holder_last holder hh
    change _ < s.publisher.nextPublication
    omega
  holder_last := by
    intro holder' h
    cases h
  saves_lt_holder := by
    intro holder' h
    cases h

theorem Numbered.step (h : Step kind s a t) : Numbered t := by
  cases h with
  | write op _ => exact { hn with }
  | save hf =>
    refine ⟨?_, fun n hl => Nat.lt_succ_of_lt (hn.latest_lt n hl), ?_, ?_⟩
    · intro save hm
      rcases mem_snoc.mp hm with hm | rfl
      · exact Nat.lt_succ_of_lt (hn.saves_lt save hm)
      · exact Nat.lt_succ_self _
    · intro holder h
      cases hf.symm.trans h
    · intro holder h
      cases hf.symm.trans h
  | publish i prepare replace hg hc =>
    have hne := hc.nextPublication
    refine ⟨?_, ?_, ?_, ?_⟩
    · intro save hm
      rw [hne]
      exact hn.saves_lt save (mem_of_mem_eraseIdx hm)
    · intro n hl
      rw [hne]
      cases hc with
      | failed e | superseded _ => exact hn.latest_lt n hl
      | published _ =>
        cases hl
        exact hn.saves_lt _ (mem_of_getElem? hg)
    · intro holder h
      rw [hne]
      exact hn.holder_last holder h
    · intro holder h save hm
      exact hn.saves_lt_holder holder h save (mem_of_mem_eraseIdx hm)
  | clear _ | invalidate key _ _ => exact hn.lock fun _ => rfl
  | missing key => exact hn
  | failed prepare commit => exact { hn with holder_last := nofun, saves_lt_holder := nofun }
  | cleared prepare commit hh => exact hn.unlock hh none kind.empty
  | invalidated prepare commit hh => exact hn.unlock hh _ _

end

theorem numbered_run (hr : Run (step kind) allowed s actions t) (hn : Numbered s) : Numbered t :=
  hr.invariant (fun _ _ _ hn _ hs => hn.step (step_cases hn hs)) hn

theorem Numbered.invariant (hn : Numbered s) (hr : Run (Cache.step kind) allowed s actions t)
    {I : Cache μ δ → Prop} (hst : ∀ u a v, Numbered u → I u → allowed u a → Step kind u a v → I v)
    (h : I s) : I t := by
  induction hr with
  | nil => exact h
  | cons ha hs _ ih =>
    have hc := step_cases hn hs
    exact ih (hn.step hc) (hst _ _ _ hn h ha hc)

/-! #### Snapshots that come too late -/

theorem Numbered.isSuperseded_unlock (hn : Numbered s) (hh : s.holder = some holder)
    (h : s.publisher.isSuperseded number = true) (file : Option δ) (memory : μ) :
    (s.unlock holder.publication file memory).publisher.isSuperseded number = true := by
  -- the holder's success is a commit like any other
  have hc : Commit s.publisher s.file holder.publication file _ :=
    .published (hn.holder_not_superseded hh)
  exact hc.isSuperseded h

theorem Step.isSuperseded (h : Step kind s a t) (hn : Numbered s)
    (hnu : s.publisher.isSuperseded number = true) :
    t.publisher.isSuperseded number = true := by
  cases h with
  | publish i prepare replace _ hc => exact hc.isSuperseded hnu
  | cleared prepare commit hh | invalidated prepare commit hh =>
    exact hn.isSuperseded_unlock hh hnu _ _
  | write op _ | save _ | clear _ | missing key | invalidate key _ _ | failed prepare commit =>
    exact hnu

theorem isSuperseded_run (hr : FreeRun (step kind) s actions t) (hn : Numbered s)
    (h : s.publisher.isSuperseded number = true) : t.publisher.isSuperseded number = true := by
  refine hn.invariant (I := fun u => u.publisher.isSuperseded number = true) hr ?_ h
  intro u a v hu hnu _ hc
  exact hc.isSuperseded hu hnu

theorem file_publish_of_isSuperseded (h : s.publisher.isSuperseded save.publication = true)
    (i : ℕ) (prepare replace : Except String Unit) :
    (s.publish i save prepare replace).file = s.file := by
  cases prepare <;> simp [Cache.publish, AtomicJsonPublisher.publish, h]

/-! #### Documents that the file may have -/

/-- A class of documents and one of memories that the calls of a cache stay within, as long as
what is written is allowed. -/
structure Rules (kind : Kind μ δ ω) (P : δ → Prop) (M : μ → Prop) (ok : ω → Prop) : Prop where
  persist : ∀ m, M m → P (kind.persist m)
  empty : M kind.empty
  write : ∀ op m, ok op → M m → M (kind.write op m)
  without : ∀ key m next, M m → kind.without key m = some next → M next

/-- The file has a document of the class, and every other document on its way to the file comes
too late. -/
structure Clean (P : δ → Prop) (M : μ → Prop) (s : Cache μ δ) : Prop where
  memory : M s.memory
  holder : ∀ key n next, s.holder = some (.invalidating key n next) → M next
  saves : ∀ save ∈ s.saves, s.publisher.isSuperseded save.publication = true ∨ P save.snapshot
  file : ∀ d, s.file = some d → P d

variable {P : δ → Prop} {M : μ → Prop} {ok : ω → Prop}

theorem Clean.publish (h : Clean P M s) {i : ℕ} (hg : s.saves[i]? = some save)
    {res : AtomicJsonPublisher × Option δ × Except String PublicationOutcome}
    (hc : Commit s.publisher s.file save.publication (some save.snapshot) res) :
    Clean P M
      { s with publisher := res.1, file := res.2.1, saves := s.saves.eraseIdx i } where
  memory := h.memory
  holder := h.holder
  saves := by
    intro o hm
    rcases h.saves o (mem_of_mem_eraseIdx hm) with hl | ho
    · exact .inl (hc.isSuperseded hl)
    · exact .inr ho
  file := by
    intro d hd
    cases hc with
    | failed e | superseded _ => exact h.file d hd
    | published hn =>
      cases hd
      rcases h.saves save (mem_of_getElem? hg) with hl | hs
      · cases hn.symm.trans hl
      · exact hs

theorem Clean.unlock (h : Clean P M s) (hn : Numbered s) (hh : s.holder = some holder)
    {file : Option δ} {memory : μ} (hf : ∀ d, file = some d → P d) (hm : M memory) :
    Clean P M (s.unlock holder.publication file memory) where
  memory := hm
  holder := nofun
  saves := by
    intro save hme
    rcases h.saves save hme with hl | hs
    · exact .inl (hn.isSuperseded_unlock hh hl file memory)
    · exact .inr hs
  file := hf

theorem Clean.step (rules : Rules kind P M ok) (h : Clean P M s) (hn : Numbered s)
    (hok : ∀ op, a = .write op → ok op) (hs : Step kind s a t) : Clean P M t := by
  cases hs with
  | write op _ => exact { h with memory := rules.write op s.memory (hok op rfl) h.memory }
  | save _ =>
    refine { h with saves := ?_ }
    intro save hm
    rcases mem_snoc.mp hm with hm | rfl
    · exact h.saves save hm
    · exact .inr (rules.persist s.memory h.memory)
  | publish i prepare replace hg hc => exact h.publish hg hc
  | clear _ | failed prepare commit => exact { h with holder := nofun }
  | missing key => exact h
  | invalidate key _ hne =>
    refine { h with holder := ?_ }
    intro key' n next' heq
    cases heq
    exact rules.without key s.memory _ h.memory hne
  | cleared prepare commit hh => exact h.unlock hn hh nofun rules.empty
  | invalidated prepare commit hh =>
    have hne := h.holder _ _ _ hh
    refine h.unlock hn hh ?_ hne
    intro d hd
    cases hd
    exact rules.persist _ hne

theorem Clean.run (rules : Rules kind P M ok)
    (hal : ∀ u a, allowed u a → ∀ op, a = .write op → ok op)
    (hr : Run (Cache.step kind) allowed s actions t) (hn : Numbered s) (h : Clean P M s) :
    Clean P M t := by
  refine hn.invariant hr ?_ h
  intro u a v hu hc ha hca
  exact hc.step rules hu (hal u a ha) hca

/-! #### What a clear leaves -/

theorem clearing_of_ends (hn : Numbered s) (he : s.ends kind a = some (.cleared, true))
    (hs : s.step kind a = some t) :
    ∃ n, s.holder = some (.clearing n) ∧ t = s.unlock n none kind.empty := by
  cases a with
  | write op | save | publish index prepare replace | clear => cases he
  | invalidate key =>
    simp only [ends] at he
    split at he <;> cases he
  | finish prepare commit =>
    simp only [ends] at he
    simp only [step] at hs
    cases hh : s.holder with
    | none => simp [hh] at he
    | some holder =>
      rw [hh] at he hs
      cases holder with
      | invalidating key n next => cases he
      | clearing n =>
        refine ⟨n, rfl, ?_⟩
        cases hs
        rw [finishClear_eq hn hh]
        cases commit with
        | ok => rfl
        | error e =>
          have hno : s.publisher.isSuperseded n = false := hn.holder_not_superseded hh
          simp [remove, hno, Except.toOption] at he

/-- When a clear returns, every save still on its way comes too late. -/
theorem Numbered.saves_superseded (hn : Numbered s) (hh : s.holder = some holder)
    {file : Option δ} {memory : μ} (hm : save ∈ s.saves) :
    (s.unlock holder.publication file memory).publisher.isSuperseded save.publication = true :=
  isSuperseded_iff.mpr ⟨holder.publication, rfl, hn.saves_lt_holder holder hh save hm⟩

/-- The memories that the given actions can build from nothing. -/
inductive Since (kind : Kind μ δ ω) (actions : List (Action ω)) : μ → Prop where
  | empty : Since kind actions kind.empty
  | write {op : ω} {m : μ} : .write op ∈ actions → Since kind actions m →
      Since kind actions (kind.write op m)
  | without {key : String} {m next : μ} : Since kind actions m →
      kind.without key m = some next → Since kind actions next

/-- A state in which everything has been cleared: nothing is left, no save that is on its way can
change the file any more, and the file only ever gets what is written from here on. -/
structure Cleared (kind : Kind μ δ ω) (t : Cache μ δ) : Prop where
  removed : t.file = none
  forgotten : t.memory = kind.empty
  stale : ∀ actions u, FreeRun (step kind) t actions u → ∀ index save,
    u.saves[index]? = some save → save ∈ t.saves → ∀ prepare replace,
      (u.publish index save prepare replace).file = u.file
  since : ∀ actions u, FreeRun (step kind) t actions u → ∀ d, u.file = some d →
    ∃ m, Since kind actions m ∧ d = kind.persist m

theorem rules_since (kind : Kind μ δ ω) (actions : List (Action ω)) :
    Rules kind (fun d => ∃ m, Since kind actions m ∧ d = kind.persist m) (Since kind actions)
      fun op => .write op ∈ actions where
  persist := fun m hm => ⟨m, hm, rfl⟩
  empty := .empty
  write := fun _ _ hop hm => .write hop hm
  without := fun _ _ _ hm hn => .without hm hn

theorem cleared_of_ends (hn : Numbered s) (he : s.ends kind a = some (.cleared, true))
    (hs : s.step kind a = some t) : Cleared kind t := by
  obtain ⟨n, hh, rfl⟩ := clearing_of_ends hn he hs
  have hnu : Numbered (s.unlock n none kind.empty) := hn.unlock hh none kind.empty
  have hl : ∀ save ∈ s.saves,
      (s.unlock n none kind.empty).publisher.isSuperseded save.publication = true :=
    fun _ hm => hn.saves_superseded hh hm
  refine ⟨rfl, rfl, ?_, ?_⟩
  · intro actions u hr i save _ hm prepare replace
    exact file_publish_of_isSuperseded (isSuperseded_run hr hnu (hl save hm)) ..
  · intro actions u hr
    have hc : Clean (fun d => ∃ m, Since kind actions m ∧ d = kind.persist m)
        (Since kind actions) (s.unlock n none kind.empty) :=
      ⟨.empty, nofun, fun save hm => .inl (hl save hm), nofun⟩
    refine (Clean.run (rules_since kind actions) ?_ hr.mem hnu hc).file
    rintro v b hb op rfl
    exact hb

end Cache

theorem numbered_exchangeStart (maxEntries : ℕ) (rd : Reading ExchangeInfo) (now : ℤ)
    (file : Option (Contents ExchangeInfo)) :
    (ExchangeCache.start maxEntries rd now file).Numbered := by
  unfold ExchangeCache.start
  cases ExchangeCache.loadFromDisk maxEntries rd now file <;>
    exact Cache.numbered_start _ _ _

/-- In every run of a publisher the file is what the highest numbered success left, and only a
success supersedes. So once a field or exchange cache has been cleared, no snapshot taken before
that changes its file again. -/
theorem publications_in_order :
    (∀ (δ : Type) (initial : Option δ) (actions : List (Publishing.Action δ)) (s : Publishing δ),
      FreeRun Publishing.step (.start initial) actions s → Publishing.Reflects initial s) ∧
    (∀ (upper : String → String) (maxEntries : ℕ) (reading : Reading PersistedFieldInfo)
      (file : Option (Contents PersistedFieldInfo)) actions a s t,
      let kind := FieldTypeResolver.kind upper maxEntries
      FreeRun (Cache.step kind) (FieldTypeResolver.start upper maxEntries reading file) actions s →
      s.ends kind a = some (.cleared, true) → s.step kind a = some t → Cache.Cleared kind t) ∧
    (∀ (trim : String → String) (maxEntries : ℕ) (reading : Reading ExchangeInfo) (now : ℤ)
      (file : Option (Contents ExchangeInfo)) actions a s t,
      let kind := ExchangeCache.kind trim maxEntries
      FreeRun (Cache.step kind) (ExchangeCache.start maxEntries reading now file) actions s →
      s.ends kind a = some (.cleared, true) → s.step kind a = some t → Cache.Cleared kind t) := by
  refine ⟨?_, ?_, ?_⟩
  · intro δ initial actions s hrun
    exact (Publishing.Ordered.run hrun).reflects
  · intro upper maxEntries reading file actions a s t kind hrun hends hstep
    have hn := Cache.numbered_run hrun (Cache.numbered_start _ _ _)
    exact Cache.cleared_of_ends hn hends hstep
  · intro trim maxEntries reading now file actions a s t kind hrun hends hstep
    have hn := Cache.numbered_run hrun (numbered_exchangeStart maxEntries reading now file)
    exact Cache.cleared_of_ends hn hends hstep

def failedThenOlder : List (Publishing.Action ℕ) :=
  [.begin, .begin, .publish 1 7 (.ok ()) (.error "disk full"), .publish 0 5 (.ok ()) (.ok ())]

def clearWithSave {ω : Type} (op : ω) : List (Cache.Action ω) := [.write op, .save, .clear]

def plainReading {ε : Type} : Reading ε := ⟨"cache.json", fun _ => 0, .ok (), fun _ => ""⟩

def samplePrices : List (String × FieldInfo) := [("PX_LAST", ⟨"PX_LAST", "float64", "", ""⟩)]

def sampleExchange : List ExchangeCache.Put := [⟨"A", ⟨"A", .bloomberg, none⟩, 0⟩]

theorem publications_in_order_sample :
    (∃ s, runActions Publishing.step (.start none) failedThenOlder = some s ∧
      s.file = some 5 ∧ Publishing.Reflects none s) ∧
    (∃ s t, runActions (Cache.step (FieldTypeResolver.kind id 4))
        (FieldTypeResolver.start id 4 plainReading none) (clearWithSave samplePrices) = some s ∧
      s.step (FieldTypeResolver.kind id 4) (.finish (.ok ()) (.ok ())) = some t ∧
      t.saves.length = 1 ∧ Cache.Cleared (FieldTypeResolver.kind id 4) t) ∧
    (∃ s t, runActions (Cache.step (ExchangeCache.kind id 4))
        (ExchangeCache.start 4 plainReading 0 none) (clearWithSave sampleExchange) = some s ∧
      s.step (ExchangeCache.kind id 4) (.finish (.ok ()) (.ok ())) = some t ∧
      t.saves.length = 1 ∧ Cache.Cleared (ExchangeCache.kind id 4) t) := by
  refine ⟨?_, ?_, ?_⟩
  · refine ⟨_, rfl, rfl, ?_⟩
    exact publications_in_order.1 ℕ none failedThenOlder _ (FreeRun.of_runActions rfl)
  · refine ⟨_, _, rfl, rfl, rfl, ?_⟩
    exact publications_in_order.2.1 id 4 plainReading none (clearWithSave samplePrices)
      (.finish (.ok ()) (.ok ())) _ _ (FreeRun.of_runActions (by rfl)) (by rfl) (by rfl)
  · refine ⟨_, _, rfl, rfl, rfl, ?_⟩
    exact publications_in_order.2.2 id 4 plainReading 0 none (clearWithSave sampleExchange)
      (.finish (.ok ()) (.ok ())) _ _ (FreeRun.of_runActions (by rfl)) (by rfl) (by rfl)

end Xbbg.CacheFiles
