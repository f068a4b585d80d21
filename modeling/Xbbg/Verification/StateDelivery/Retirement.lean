import Xbbg.Verification.StateDelivery.Frozen
import Xbbg.Verification.StateDelivery.Rows

/-! The final row of a retired topic. It is owed until a receipt that carries it is committed,
and until then the member is neither removed nor skipped, provided that no image newer than
the member had been taken when the topic was retired. -/

namespace Xbbg.StateDelivery

open Function List Library Option

/-- The part of a member that decides what becomes of its final row. -/
structure MemberFate where
  revision : ℕ
  acknowledged : Option ℕ
  invalidated : Option ℕ
  retired : Bool
  finalImage : Option (ℕ × ImageRow)

def DirtyMember.fate (member : DirtyMember) : MemberFate :=
  ⟨member.revision, member.acknowledged, member.invalidated, member.retired, member.finalImage⟩

@[simp]
def Receiver.snapshots : Receiver → List Snapshot
  | .publishing snapshots => snapshots
  | _ => []

/-- Inside `prepare_close`, whether the final images have been taken. -/
@[simp]
def Receiver.hasTaken : Receiver → Option Bool
  | .freezing _ _ | .freezeStoring _ _ _ _ | .freezeRemoving _ _ _ => some false
  | .publishing _ => some true
  | _ => none

/-- No image under way for the topic acknowledges the final revision without the final row. -/
structure Receiver.Honest (receiver : Receiver) (k : ℕ) (row : ImageRow) (revision : ℕ) :
    Prop where
  built : ∀ built ∈ receiver.built, built.receipt.key = k →
    built.receipt.acknowledged < revision ∨ built.delivered.row = row
  captured : ∀ image ∈ receiver.captured, image.key = k →
    image.revision < revision ∨ image.row = row
  waiting : ∀ selected ∈ receiver.waiting, selected.key = k →
    ∀ image ∈ selected.finalImage, image.1 < revision ∨ image.2 = row

/-- The receipt acknowledges the final revision only with the final row, unless its rows
failed to materialize. -/
def Receipt.Honest (receipt : Receipt) (k : ℕ) (row : ImageRow) (revision : ℕ)
    (collision : Option String) : Prop :=
  ∀ entry ∈ receipt.keys, entry.key = k → entry.acknowledged < revision ∨
    (∃ delivered ∈ receipt.rows, delivered.key = k ∧ delivered.row = row) ∨
    collision.isSome = true

variable {r : Receipt}

theorem Receipt.honest_of_keys_nil (h : r.keys = []) (k : ℕ)
    (row : ImageRow) (rev : ℕ) (collision : Option String) :
    r.Honest k row rev collision := by
  intro e he
  simp [h] at he

theorem Receipt.Honest.mono {r' : Receipt} {k : ℕ} {row : ImageRow} {rev : ℕ}
    {collision collision' : Option String} (h : r.Honest k row rev collision)
    (hk : r'.keys = r.keys) (hr : r'.rows = r.rows)
    (hm : collision.isSome = true → collision'.isSome = true) :
    r'.Honest k row rev collision' := by
  intro e he hke
  rw [hr]
  exact (h e (hk ▸ he) hke).imp_right (.imp_right hm)

variable {m : DirtyMember} {pending : List PendingMember} {snaps : List Snapshot}

namespace DirtyState

variable {ms : Table DirtyMember}

theorem get_takeSnapshots {k : ℕ} (hg : ms.get k = some m) (pending : List PendingMember) :
    ∃ m', (takeSnapshots ms pending).2.get k = some m' ∧
      { m'.fate with finalImage := none } = { m.fate with finalImage := none } := by
  induction pending generalizing ms m with
  | nil => exact ⟨m, hg, rfl⟩
  | cons e rest ih =>
    simp only [takeSnapshots]
    split
    · exact ih hg
    · rename_i x hfo
      have ht : ∃ m', (ms.insert e.key { x with queued := false, finalImage := none }).get k =
            some m' ∧
          { m'.fate with finalImage := none } = { m.fate with finalImage := none } := by
        rw [Table.get_insert]
        split
        · rename_i hk
          obtain rfl := some.inj (hg.symm.trans (hk ▸ hfo))
          exact ⟨_, rfl, rfl⟩
        · exact ⟨m, hg, rfl⟩
      obtain ⟨between, hb, hs⟩ := ht
      obtain ⟨last, hl, hf⟩ := ih hb
      refine ⟨last, ?_, hf.trans hs⟩
      split <;> exact hl

theorem mem_takeSnapshots {snap : Snapshot} (h : snap ∈ (takeSnapshots ms pending).1) :
    ∃ m, ms.get snap.key = some m ∧ m.finalImage = some (snap.revision, snap.row) ∧
      snap.invalidated = m.invalidated := by
  induction pending generalizing ms with
  | nil => simp [takeSnapshots] at h
  | cons e rest ih =>
    simp only [takeSnapshots] at h
    split at h
    · exact ih h
    · rename_i x hfo
      -- A second snapshot of the same member would find no final image any more.
      have hl : snap ∈ (takeSnapshots
          (ms.insert e.key { x with queued := false, finalImage := none }) rest).1 →
          ∃ m, ms.get snap.key = some m ∧ m.finalImage = some (snap.revision, snap.row) ∧
            snap.invalidated = m.invalidated := by
        intro hm
        obtain ⟨m, hg, hf, hi⟩ := ih hm
        rw [Table.get_insert] at hg
        split at hg
        · cases hg
          simp at hf
        · exact ⟨m, hg, hf, hi⟩
      split at h
      · exact hl h
      · rename_i rev row hf
        rcases mem_cons.mp h with rfl | hm
        · exact ⟨x, hfo, hf, rfl⟩
        · exact hl hm

theorem mem_buildImages {im : FrozenImage} (h : im ∈ buildImages snaps) :
    ∃ snap ∈ snaps, im.key = snap.key ∧
      (snap.invalidated = none → im.revision = snap.revision) := by
  rcases mem_append.mp h with h | h
  · obtain ⟨snap, hm, rfl⟩ := mem_map.mp h
    refine ⟨snap, hm, ?_⟩
    unfold Snapshot.firstImage
    split
    · rename_i marker _ hma
      refine ⟨rfl, fun hn => ?_⟩
      simp [Snapshot.marker, hn] at hma
    · exact ⟨rfl, fun _ => rfl⟩
  · obtain ⟨snap, hm, hi⟩ := mem_filterMap.mp h
    unfold Snapshot.recoveryImage at hi
    split at hi
    · cases hi
      exact ⟨snap, hm, rfl, fun _ => rfl⟩
    · simp at hi

end DirtyState

namespace System

open DirtyState

variable {k i : ℕ} {s t : System} {a : FeedAction} {row : ImageRow}

/-- The final row of a member is still to come. -/
structure Awaits (k : ℕ) (row : ImageRow) (s : System) (member : DirtyMember) : Prop where
  inactive : s.active k = false
  retired : member.retired = true
  invalidated : member.invalidated = none
  invalid : row.valid = false
  final : s.dirty.frozen = false → member.finalImage = some (member.revision, row)
  acked : ∀ seen ∈ member.acknowledged, seen < member.revision
  receiver : s.receiver.Honest k row member.revision
  receipts : ∀ receipt ∈ s.receipts, receipt.Honest k row member.revision s.collision
  snapshots : ∀ snapshot ∈ s.receiver.snapshots, snapshot.key = k →
    snapshot.revision = member.revision ∧ snapshot.invalidated = none
  images : s.dirty.frozen = true → s.dirty.freezing = false →
    ∀ image ∈ s.dirty.frozenImages, image.key = k → image.revision = member.revision

/-- The stream is frozen once the final images are taken, and a member whose final row is owed
waits for it. -/
structure Retirement (k : ℕ) (s : System) : Prop where
  taken : ∀ taken ∈ s.receiver.hasTaken, s.dirty.frozen = taken
  awaits : ∀ row, s.owed k = some row →
    ∃ member, s.dirty.members.get k = some member ∧ Awaits k row s member

theorem retirement_new (k : ℕ) : Retirement k System.new :=
  ⟨by simp [new], by simp [new]⟩

/-- What is owed was owed, and the member that waits for it keeps its fate. -/
def KeepsFate (k : ℕ) (s t : System) : Prop :=
  ∀ row, t.owed k = some row → s.owed k = some row ∧ ∀ member,
    s.dirty.members.get k = some member → Awaits k row s member →
      t.active k = false ∧ (t.dirty.members.get k).map DirtyMember.fate = some member.fate

theorem KeepsFate.of_members (ho : t.owed = s.owed) (ha : t.active = s.active)
    (hm : t.dirty.members = s.dirty.members) : KeepsFate k s t := by
  unfold KeepsFate
  rw [ho, ha, hm]
  exact fun row hr => ⟨hr, fun m hg haw => ⟨haw.inactive, congrArg _ hg⟩⟩

theorem feedStep_frame (hs : FeedStep s a t) : t.receiver = s.receiver ∧ t.receipts = s.receipts ∧
    (s.collision.isSome = true → t.collision.isSome = true) ∧
    t.dirty.frozen = s.dirty.frozen ∧ t.dirty.freezing = s.dirty.freezing ∧
    t.dirty.frozenImages = s.dirty.frozenImages := by
  have hst : ∀ {dirty : DirtyState}, SameStream s.dirty dirty →
      dirty.frozen = s.dirty.frozen ∧ dirty.freezing = s.dirty.freezing ∧
      dirty.frozenImages = s.dirty.frozenImages :=
    fun hsa => ⟨hsa.frozen, hsa.freezing, hsa.frozenImages⟩
  cases hs with
  | lock feed _ | advance feed _ | unlock feed | deactivate key | failLate e _ =>
    exact ⟨rfl, rfl, id, rfl, rfl, rfl⟩
  | seedSchema ns => exact ⟨rfl, rfl, isSome_observeNames, rfl, rfl, rfl⟩
  | register feed label recovering _ =>
    refine ⟨rfl, rfl, id, hst ?_⟩
    have hr := sameStream_register s.dirty s.nextKey feed (s.feeds feed).revision label
    cases recovering with
    | false => exact hr
    | true => exact hr.trans (sameStream_mark _ _ _ _)
  | mark key _ _ _ | dataLoss key _ _ _ _ =>
    exact ⟨rfl, rfl, id, hst (sameStream_mark _ _ _ _)⟩
  | retire key lastUpdate delayed l _ _ _ =>
    exact ⟨rfl, rfl, id, hst (sameStream_retire _ _ _)⟩
  | detach key => exact ⟨rfl, rfl, id, hst (sameStream_detach _ _)⟩
  | fail e hc hd hf =>
    rw [fail_eq hc hd hf]
    exact ⟨rfl, rfl, id, rfl, rfl, rfl⟩
  | closeSource =>
    unfold closeSource
    split <;> exact ⟨rfl, rfl, id, rfl, rfl, rfl⟩

/-- No image of the topic that is newer than its member has been acknowledged, is out, or is
in the batch under construction. -/
structure UpToDate (k : ℕ) (s : System) (member : DirtyMember) : Prop where
  acked : ∀ seen ∈ member.acknowledged, seen ≤ member.revision
  receipts : ∀ receipt ∈ s.receipts, ∀ entry ∈ receipt.keys, entry.key = k →
    entry.acknowledged ≤ member.revision
  built : ∀ built ∈ s.receiver.built, built.receipt.key = k →
    built.receipt.acknowledged ≤ member.revision
  captured : ∀ image ∈ s.receiver.captured, image.key = k → image.revision ≤ member.revision
  waiting : ∀ selected ∈ s.receiver.waiting, selected.key = k →
    ∀ image ∈ selected.finalImage, image.1 ≤ member.revision

/-- Topics are retired up to date, and no materialization has failed. -/
def RetiresUpToDate (s : System) : Action → Prop
  | .feed (.retire key _ _ _) => s.collision = none ∧ (s.dirty.rejects = false →
      ∀ member ∈ s.dirty.members.get key, UpToDate key s member)
  | _ => s.collision = none

/-- What a step of a feed leaves of a member that waits, unless it retires the member anew. -/
theorem feedStep_fate (hb : s.Base) (hs : FeedStep s a t)
    (hot : ∀ key lastUpdate delayed layout, a = .retire key lastUpdate delayed layout → k = key →
      s.dirty.rejects = true) : KeepsFate k s t := by
  intro row ho
  cases hs with
  | lock feed _ | advance feed _ | unlock feed | seedSchema names | failLate error _ =>
    exact KeepsFate.of_members rfl rfl rfl row ho
  | deactivate key =>
    refine ⟨ho, fun member hg ha => ⟨?_, congrArg _ hg⟩⟩
    by_cases hk : k = key
    · simp [hk]
    · simp [update_of_ne hk, ha.inactive]
  | register feed label recovering _ =>
    obtain ⟨ho', hke⟩ := filter_eq_some_iff.mp ho
    refine ⟨ho', fun member hg ha => ?_⟩
    have hne : k ≠ s.nextKey := (hb.held.members_lt k member hg).ne
    have hsa : (s.dirty.register s.nextKey feed (s.feeds feed).revision label).members.get k =
        some member := by
      obtain ⟨found, hf⟩ := isSome_iff_exists.mp hke
      rw [hf]
      rw [get_register] at hf
      split at hf
      · exact hf.symm.trans hg
      · exact (filter_eq_some_iff.mp hf).1.symm.trans hg
    refine ⟨by simp [update_of_ne hne, ha.inactive], ?_⟩
    cases recovering with
    | false => exact congrArg _ hsa
    | true =>
      simp only [if_true]
      rw [get_mark, if_neg fun hm => hne hm.1, hsa, map_some]
  | mark key _ hac _ | dataLoss key _ hac _ _ =>
    refine ⟨ho, fun member hg ha => ⟨ha.inactive, ?_⟩⟩
    have hne : k ≠ key := by
      rintro rfl
      simp [ha.inactive] at hac
    rw [get_mark, if_neg fun hm => hne hm.1, hg, map_some]
  | retire key lastUpdate delayed layout _ _ _ =>
    have hsa : ¬(k = key ∧ s.dirty.rejects = false) := fun hre => by
      simp [hot key lastUpdate delayed layout rfl hre.1] at hre
    refine ⟨?_, fun member hg ha => ⟨?_, ?_⟩⟩
    · by_cases hr : s.dirty.rejects = true
      · simpa [hr] using ho
      · have hk : k ≠ key := fun hk => hsa ⟨hk, by simpa using hr⟩
        simpa [hr, update_of_ne hk] using ho
    · by_cases hk : k = key
      · simp [hk]
      · simp [update_of_ne hk, ha.inactive]
    · rw [get_retire, if_neg hsa, hg, map_some]
  | detach key =>
    have hsa : ¬(k = key ∧ s.dirty.closing = false) := by
      rintro ⟨rfl, hc⟩
      simp [hc] at ho
    refine ⟨?_, fun member hg ha => ⟨?_, ?_⟩⟩
    · by_cases hc : s.dirty.closing = true
      · simpa [hc] using ho
      · have hk : k ≠ key := fun hk => hsa ⟨hk, by simpa using hc⟩
        simpa [hc, update_of_ne hk] using ho
    · by_cases hk : k = key
      · simp [hk]
      · simp [update_of_ne hk, ha.inactive]
    · rw [get_detach, if_neg hsa, hg, map_some]
  | fail error _ _ _ => simp at ho
  | closeSource =>
    by_cases hc : s.dirty.closing = true
    · refine ⟨by simpa [hc] using ho, fun member hg ha => ⟨ha.inactive, ?_⟩⟩
      have hke : s.dirty.closeSource.members = s.dirty.members := by
        unfold closeSource
        split
        · rename_i hop
          simp only [closing, Bool.or_eq_true] at hc
          simp only [Bool.and_eq_true, Bool.not_eq_true'] at hop
          simp [hop.1, hop.2] at hc
        · rfl
      rw [hke, hg, map_some]
    · simp [hc] at ho

theorem Receiver.honest_idle (k : ℕ) (row : ImageRow) (rev : ℕ) :
    Receiver.idle.Honest k row rev :=
  ⟨by simp, by simp, by simp⟩

theorem discharge_eq_some {owed : ℕ → Option ImageRow} {rs : List DeliveredRow}
    (h : discharge owed rs k = some row) :
    owed k = some row ∧ ¬∃ delivered ∈ rs, delivered.key = k ∧ delivered.row = row := by
  obtain ⟨ho, ha⟩ := filter_eq_some_iff.mp h
  refine ⟨ho, ?_⟩
  rintro ⟨delivered, hm, rfl, rfl⟩
  have := all_eq_true.mp ha delivered hm
  simp at this

section

variable (h : Retirement k s)
include h

theorem Retirement.of_fate (hfa : KeepsFate k s t) (hf : t.dirty.frozen = s.dirty.frozen)
    (hi : t.dirty.freezing = false → s.dirty.freezing = false ∧ t.dirty.frozenImages =
      s.dirty.frozenImages)
    (hre : ∀ row m, s.dirty.members.get k = some m → Awaits k row s m →
      t.receiver.Honest k row m.revision)
    (hrc : ∀ row m, s.dirty.members.get k = some m → Awaits k row s m → ∀
      r ∈ t.receipts, r.Honest k row m.revision t.collision)
    (ht : ∀ taken ∈ t.receiver.hasTaken, t.dirty.frozen = taken)
    (hsn : t.receiver.snapshots ⊆ s.receiver.snapshots) : Retirement k t := by
  refine ⟨ht, fun row ho => ?_⟩
  obtain ⟨ho', hk⟩ := hfa row ho
  obtain ⟨m, hg, ha⟩ := h.awaits row ho'
  obtain ⟨hac, hm⟩ := hk m hg ha
  obtain ⟨m', hg', hs⟩ := map_eq_some_iff.mp hm
  simp only [DirtyMember.fate, MemberFate.mk.injEq] at hs
  obtain ⟨hr, hak, hin, hrt, hfi⟩ := hs
  refine ⟨m', hg', hac, hrt.trans ha.retired,
    hin.trans ha.invalidated, ha.invalid, ?_, ?_, ?_, ?_, ?_, ?_⟩
  · rw [hf, hfi, hr]
    exact ha.final
  · rw [hak, hr]
    exact ha.acked
  · rw [hr]
    exact hre row m hg ha
  · rw [hr]
    exact hrc row m hg ha
  · rw [hr]
    exact fun snap hme => ha.snapshots snap (hsn hme)
  · intro hf' hfr
    obtain ⟨hfr', hs⟩ := hi hfr
    rw [hs, hr]
    exact ha.images (hf ▸ hf') hfr'

theorem Retirement.retire (hg : s.dirty.members.get k = some m) (hu : UpToDate k s m)
    (hrj : s.dirty.rejects = false) (hro : row.valid = false)
    (hd : t.dirty = s.dirty.retire k row) (ha : t.active k = false) (ho : t.owed k = some row)
    (hre : t.receiver = s.receiver) (hrc : t.receipts = s.receipts) : Retirement k t := by
  have hf : s.dirty.frozen = false := by
    simp only [rejects, Bool.or_eq_false_iff] at hrj
    exact hrj.2
  have hf' : t.dirty.frozen = false := by
    rw [hd, (sameStream_retire _ _ _).frozen, hf]
  have ht := h.taken
  rw [hf] at ht
  have hn : s.receiver.snapshots = [] := by
    cases hr : s.receiver <;> simp_all
  refine ⟨by rwa [hf', hre], fun owed ho' => ?_⟩
  cases ho.symm.trans ho'
  refine ⟨retiredWith s.dirty.freezing row m, ?_, ha, rfl, rfl, hro,
    fun _ => rfl, ?_, ⟨?_, ?_, ?_⟩, ?_, by simp only [hre, hn, not_mem_nil,
      false_imp_iff, implies_true], by simp [hf']⟩
  · rw [hd, get_retire, if_pos ⟨rfl, hrj⟩, hg, map_some]
  · exact fun seen hs => Nat.lt_succ_of_le (hu.acked seen hs)
  · rw [hre]
    exact fun built hb hk => .inl (Nat.lt_succ_of_le (hu.built built hb hk))
  · rw [hre]
    exact fun im hi hk => .inl (Nat.lt_succ_of_le (hu.captured im hi hk))
  · rw [hre]
    exact fun sel hm hk im hi =>
      .inl (Nat.lt_succ_of_le (hu.waiting sel hm hk im hi))
  · rw [hrc]
    exact fun r hrece e he hk =>
      .inl (Nat.lt_succ_of_le (hu.receipts r hrece e he hk))

theorem Retirement.feedStep (hb : s.Base) (hok : RetiresUpToDate s (.feed a))
    (hs : FeedStep s a t) : Retirement k t := by
  obtain ⟨hre, hrc, hc, hf, hfr, hi⟩ := feedStep_frame hs
  by_cases hrt : ∃ lastUpdate delayed l, a = .retire k lastUpdate delayed l ∧
      s.dirty.rejects = false
  · obtain ⟨lastUpdate, delayed, l, rfl, hr⟩ := hrt
    cases hs with
    | @retire _ _ _ _ m row hget _ hrow =>
      exact h.retire hget (hok.2 hr m hget) hr (by simp [hrow]) rfl (by simp) (by simp [hr]) rfl rfl
  · have hot : ∀ key lastUpdate delayed l, a = .retire key lastUpdate delayed l →
        k = key → s.dirty.rejects = true := by
      rintro key lastUpdate delayed l rfl rfl
      by_contra hr
      exact hrt ⟨lastUpdate, delayed, l, rfl, by simpa using hr⟩
    refine h.of_fate (feedStep_fate hb hs hot) hf
      (fun ho => ⟨hfr ▸ ho, hi⟩) ?_ ?_ (by rw [hre, hf]; exact h.taken)
      (by simp [hre])
    · rw [hre]
      exact fun row m _ ha => ha.receiver
    · rw [hrc]
      exact fun row m _ ha r hrece =>
        (ha.receipts r hrece).mono rfl rfl hc

theorem Retirement.of_receiver {old receiver : Receiver} (hol : s.receiver = old)
    (hr : ∀ row m, s.dirty.members.get k = some m → Awaits k row s m →
      old.Honest k row m.revision → receiver.Honest k row m.revision)
    (ht : ∀ taken ∈ receiver.hasTaken, old.hasTaken = some taken) (hs : receiver.snapshots = []) :
    Retirement k { s with receiver := receiver } := by
  subst hol
  exact h.of_fate (.of_members rfl rfl rfl) rfl (fun hop => ⟨hop, rfl⟩)
    (fun row m hg ha => hr row m hg ha ha.receiver) (fun row m _ ha => ha.receipts)
    (fun taken hm => h.taken taken (ht taken hm)) (hs ▸ nil_subset _)

theorem Retirement.select (hfr : s.dirty.frozen = false) {ms : List SelectedMember} {q : List ℕ}
    {table : Table DirtyMember} (hs : Selected s.dirty.members ms table) :
    Retirement k
      { s with
        dirty := { s.dirty with queue := q, members := table }
        receiver := if ms = [] then .idle else .reading ms [] } := by
  refine h.of_fate (fun row ho => ⟨ho, fun m hg ha => ⟨ha.inactive, ?_⟩⟩)
    rfl (fun hop => ⟨hop, rfl⟩) (fun row m hg ha => ?_)
    (fun row m _ ha => ha.receipts) ?_ ?_
  · by_cases hk : k ∈ ms.map (·.key)
    · obtain ⟨e, he, rfl⟩ := mem_map.mp hk
      obtain ⟨x, hf, -, -, -, -, haf⟩ := hs.wasIdle e he
      cases hg.symm.trans hf
      rw [haf]
      rfl
    · rw [hs.others k hk, hg, map_some]
  · split
    · exact Receiver.honest_idle k row m.revision
    · refine ⟨by simp, by simp, ?_⟩
      intro e he hke im hi
      obtain ⟨x, hf, -, -, -, hfi, -⟩ := hs.wasIdle e he
      obtain rfl := some.inj (hg.symm.trans (hke ▸ hf))
      rw [hfi, ha.final hfr] at hi
      cases hi
      exact .inr rfl
  · simp only
    split <;> simp
  · simp only
    split <;> simp

theorem Retirement.remove (key : ℕ) {receiver : Receiver}
    (hr : ∀ row m, s.dirty.members.get k = some m → Awaits k row s m →
      receiver.Honest k row m.revision)
    (ht : ∀ taken ∈ receiver.hasTaken, s.receiver.hasTaken = some taken)
    (hs : receiver.snapshots = []) :
    Retirement k
      { s with
        dirty := s.dirty.remove key
        owed := update s.owed key none
        receiver := receiver } := by
  refine h.of_fate (fun row ho => ?_) rfl (fun hop => ⟨hop, rfl⟩) hr (fun row m _ ha => ha.receipts)
    (fun taken hm => h.taken taken (ht taken hm)) (hs ▸ nil_subset _)
  have hne : k ≠ key := by
    rintro rfl
    simp at ho
  refine ⟨by simpa [update_of_ne hne] using ho, fun m hg ha =>
    ⟨ha.inactive, ?_⟩⟩
  rw [get_remove, if_neg hne, hg, map_some]

theorem Retirement.giveRows (his : s.Issued) {built : List BuiltRow}
    (hb : s.receiver.built = built) (frozenIds : List ℕ) (rs : List DeliveredRow)
    (hr : built ≠ [] → rs = built.map (·.delivered)) :
    Retirement k (s.giveRows (built.map (·.receipt)) frozenIds rs) := by
  refine h.of_fate (.of_members rfl rfl rfl) rfl (fun hop => ⟨hop, rfl⟩)
    (fun row m _ _ => Receiver.honest_idle k row m.revision) ?_
    (by simp [System.giveRows, System.give]) (by simp [System.giveRows, System.give])
  intro row m hg ha r hre
  rcases mem_snoc.mp hre with hol | rfl
  · exact (ha.receipts r hol).mono rfl rfl isSome_observeNames
  · intro e he hk
    rw [ofRows_keys] at he
    obtain ⟨im, hi, rfl⟩ := mem_map.mp he
    have hm : im ∈ s.receiver.built := hb ▸ hi
    refine (ha.receiver.built im hm hk).imp_right fun hro => ?_
    simp only [System.giveRows, System.give]
    rw [hr (ne_nil_of_mem hi)]
    generalize observeNames s.collision _ = collision
    cases collision with
    | some name => exact .inr rfl
    | none =>
      refine .inl ⟨im.delivered, mem_map_of_mem hi, ?_, hro⟩
      exact (his.built im hm).key.trans hk

/-- The freeze takes the final images out of the table, and keeps them as snapshots. -/
theorem Retirement.take (hb : s.Base) (hre : s.receiver = .freezing pending []) :
    Retirement k
      { s with
        dirty := (s.dirty.freeze pending).2
        receiver := .publishing (s.dirty.freeze pending).1 } := by
  have hfr := hb.freezing (by simp [hre])
  have hfo : s.dirty.frozen = false := h.taken false (by simp [hre])
  refine ⟨by simp [freeze], fun row ho => ?_⟩
  obtain ⟨m, hg, ha⟩ := h.awaits row ho
  obtain ⟨m', hg', hf⟩ := get_takeSnapshots hg pending
  simp only [DirtyMember.fate, MemberFate.mk.injEq, and_true] at hf
  obtain ⟨hr, hac, hi, hrt⟩ := hf
  refine ⟨m', hg', ha.inactive, hrt.trans ha.retired,
    hi.trans ha.invalidated, ha.invalid, ?_, ?_, ?_, ?_, ?_, ?_⟩
  · simp [freeze]
  · rw [hac, hr]
    exact ha.acked
  · exact ⟨by simp, by simp, by simp⟩
  · rw [hr]
    exact ha.receipts
  · intro snap hsn hk
    obtain ⟨x, hfu, hfi, hn⟩ := mem_takeSnapshots hsn
    obtain rfl := some.inj (hg.symm.trans (hk ▸ hfu))
    rw [ha.final hfo] at hfi
    obtain ⟨hs, -⟩ := Prod.mk.inj (some.inj hfi)
    exact ⟨hs.symm.trans hr.symm, hn.trans ha.invalidated⟩
  · intro _ hop
    exact absurd (hfr.symm.trans hop) (by simp)

theorem Retirement.publish (hr : s.receiver = .publishing snaps) :
    Retirement k
      { s with
        dirty := s.dirty.publishFrozen (buildImages snaps)
        receiver := .idle } := by
  refine ⟨by simp, fun row ho => ?_⟩
  obtain ⟨m, hg, ha⟩ := h.awaits row ho
  refine ⟨m, hg, ha.inactive, ha.retired, ha.invalidated, ha.invalid,
    by simp [publishFrozen], ha.acked,
    Receiver.honest_idle k row m.revision, ha.receipts, by simp, ?_⟩
  intro _ _ im hi hk
  obtain ⟨snap, hm, hs, hre⟩ := mem_buildImages hi
  obtain ⟨hf, hn⟩ :=
    ha.snapshots snap (by simpa [hr] using hm) (hs.symm.trans hk)
  exact (hre hn).trans hf

theorem Retirement.receiverStep {a : ReceiverAction} (hb : s.Base) (hf : s.Frozen False)
    (his : s.Issued) (hs : ReceiverStep s a t) : Retirement k t := by
  cases hs with
  | nothing lim _ _ | closedAlready _ _ => exact h
  | terminal lim hid _ _ =>
    refine h.of_fate (.of_members rfl rfl rfl) rfl (fun hop => ⟨hop, rfl⟩)
      (fun row m _ _ => Receiver.honest_idle k row m.revision) ?_
      (by simp [System.give]) (by simp [System.give])
    intro row m _ ha r hre
    rcases mem_snoc.mp hre with hol | rfl
    · exact ha.receipts r hol
    · exact Receipt.honest_of_keys_nil rfl k row m.revision _
  | frozen lim _ _ _ _ _ =>
    refine h.of_fate (.of_members rfl rfl rfl) rfl (fun hop => ⟨hop, rfl⟩) ?_
      (fun row m _ ha => ha.receipts) ?_ ?_
    · intro row m _ _
      simp only
      split
      · exact Receiver.honest_idle k row m.revision
      · exact ⟨by simp, by simp, by simp⟩
    · simp only
      split <;> simp
    · simp only
      split <;> simp
  | live lim _ _ _ hf heq =>
    exact h.select hf (selectLive_spec (hb.sound.queue hf) heq).2
  | @useFinal m rev row todo built hr hfin =>
    refine h.of_receiver hr (fun owed e hg ha hh => ?_) (by simp) rfl
    refine ⟨hh.built, ?_, fun sel hm => hh.waiting sel (.tail _ hm)⟩
    intro im hi hk
    cases hi
    exact hh.waiting m (.head _) hk (rev, row) hfin
  | @capture row m todo built hr _ hact _ =>
    refine h.of_receiver hr (fun owed e hg ha hh => ?_) (by simp) rfl
    refine ⟨hh.built, ?_, fun sel hm => hh.waiting sel (.tail _ hm)⟩
    intro im hi hk
    cases hi
    simp only at hk
    simp [hk, ha.inactive] at hact
  | captureMissing hr _ =>
    refine h.of_receiver hr (fun owed e hg ha hh => ?_) (by simp) rfl
    exact ⟨hh.built, by simp, hh.waiting⟩
  | @fallbackFinal m e rev row todo built hr hent hfin =>
    have hl : s.dirty.frozen = false := by
      by_contra hclo
      have := hf.live (by simpa using hclo)
      simp [hr, Receiver.isLive] at this
    refine h.of_receiver hr (fun owed x hg ha hh => ?_) (by simp) rfl
    refine ⟨hh.built, ?_, fun sel hm => hh.waiting sel (.tail _ hm)⟩
    intro im hi hk
    cases hi
    obtain rfl := some.inj (hent.symm.trans (hk ▸ hg))
    rw [ha.final hl] at hfin
    obtain ⟨-, hro⟩ := Prod.mk.inj (some.inj hfin)
    exact .inr hro.symm
  | fallbackNone hr _ =>
    refine h.of_receiver hr (fun owed e hg ha hh => ?_) (by simp) rfl
    exact ⟨hh.built, by simp, fun sel hm => hh.waiting sel (.tail _ hm)⟩
  | removeMissing hr =>
    refine h.remove _ (fun owed e hg ha => ?_) (by simp) rfl
    have hh := ha.receiver
    rw [hr] at hh
    exact ⟨hh.built, by simp, hh.waiting⟩
  | @settle m rev row settled todo built r hr hse =>
    refine h.of_receiver hr (fun owed e hg ha hh => ?_) (by simp) rfl
    refine ⟨?_, by simp, hh.waiting⟩
    intro im hi hk
    rcases mem_snoc.mp hi with hol | rfl
    · exact hh.built im hol hk
    · have hc := hh.captured ⟨m.key, rev, row⟩ rfl
      cases settled_settleImage hse with
      | kept _ => exact hc hk
      | lost marker hv _ =>
        -- The final row is invalid, so a valid image is an older one.
        refine .inl (lt_of_le_of_lt (min_le_left _ _) ((hc hk).resolve_right ?_))
        intro hsa
        exact absurd (hv.symm.trans ((congrArg ImageRow.valid hsa).trans ha.invalid)) (by simp)
  | issueNothing hr =>
    exact h.of_receiver hr (fun row m _ _ _ => Receiver.honest_idle k row m.revision) (by simp) rfl
  | issueLive hr _ =>
    exact h.giveRows his (by simp [hr]) [] _ fun _ => rfl
  | issueFrozen hr =>
    have hno : s.receiver.built = [] := by simp [hr]
    exact h.giveRows his hno _ _ (by simp)
  | prepareClose _ hbe =>
    obtain ⟨-, hop, -, -, rfl⟩ := beginFreeze_spec hbe
    exact h.of_fate (.of_members rfl rfl rfl) rfl (by simp)
      (fun row m _ _ => ⟨by simp, by simp, by simp⟩) (fun row m _ ha => ha.receipts)
      (by simp [hop]) (by simp)
  | freezeSkip hr _ | freezeCapture row hr _ _ _ | freezeMissing hr _ =>
    exact h.of_receiver hr (fun row m _ _ _ => ⟨by simp, by simp, by simp⟩) (by simp) rfl
  | @freezeStore pending todo key im remove dirty hr hsto =>
    have hst := sameStream_storeFreeze s.dirty key im
    have hca := storeFreeze_eq s.dirty key im
    have ht := h.taken
    rw [hsto] at hst hca
    rw [hr] at ht
    refine h.of_fate (fun row ho => ⟨ho, fun m hg ha => ⟨ha.inactive, ?_⟩⟩)
      hst.frozen (fun hop => ⟨hst.freezing ▸ hop, hst.frozenImages⟩) ?_
      (fun row m _ ha => ha.receipts) ?_ ?_
    · rcases hca with heq | ⟨x, captured, hfo, hrt, -, heq⟩
      · obtain rfl : dirty = s.dirty := heq
        rw [hg, map_some]
      · obtain ⟨-, rfl⟩ := Prod.mk.inj heq
        have hne : k ≠ key := by
          rintro rfl
          cases hg.symm.trans hfo
          simp [ha.retired] at hrt
        rw [Table.get_insert, if_neg hne, hg, map_some]
    · intro row m _ _
      cases remove <;> exact ⟨by simp, by simp, by simp⟩
    · rw [hst.frozen]
      cases remove <;> exact ht
    · cases remove <;> simp
  | freezeRemove hr =>
    exact h.remove _ (fun row m _ _ => ⟨by simp, by simp, by simp⟩) (by simp [hr]) rfl
  | freezeTake hr hfr =>
    cases hfr
    exact h.take hb hr
  | freezePublish hr => exact h.publish hr
  | close => exact ⟨by simp, by simp⟩

theorem Retirement.of_modify (idx : ℕ) {f : Receipt → Receipt} (hf : KeepsRows f) :
    Retirement k { s with receipts := s.receipts.modify idx f } := by
  refine h.of_fate (.of_members rfl rfl rfl) rfl (fun hop => ⟨hop, rfl⟩)
    (fun row m _ ha => ha.receiver) ?_ h.taken (Subset.refl _)
  intro row m _ ha r hr
  obtain ⟨old, hol, rfl | rfl⟩ := exists_of_mem_modify hr
  · exact ha.receipts _ hol
  · exact (ha.receipts old hol).mono (hf old).1 (hf old).2.2.1 id

/-- Committing a receipt over a member that waits: either it carries the final row, which is
then no longer owed, or it acknowledges an earlier revision, and the member stays. -/
theorem Retirement.commit (hba : s.Base) (hg : s.receipts[i]? = some r) (hc : s.collision = none) :
    Retirement k
      { s with
        dirty := r.commit s.dirty
        receipts := s.receipts.eraseIdx i
        committed := s.committed ++ [r]
        owed := discharge s.owed r.rows } := by
  have hme : r ∈ s.receipts := mem_of_getElem? hg
  obtain ⟨hf, hfr, hi⟩ := flags_commit s.dirty r
  by_cases hk : r.Live ∧ k ∈ r.keys.map (·.key)
  · obtain ⟨hl, hk⟩ := hk
    refine ⟨by rw [hf]; exact h.taken, fun row ho => ?_⟩
    obtain ⟨ho', hmi⟩ := discharge_eq_some ho
    obtain ⟨m, hm, ha⟩ := h.awaits row ho'
    obtain ⟨e, he, rfl⟩ := mem_map.mp hk
    have hea : e.acknowledged < m.revision := by
      rcases ha.receipts r hme e he rfl with hlt | hca | hfa
      · exact hlt
      · exact absurd hca hmi
      · simp [hc] at hfa
    have hac : ∀ seen ∈ (settleMember m e true).acknowledged, seen < m.revision := by
      intro seen hs
      have hs' : m.acknowledged.elim e.acknowledged (max · e.acknowledged) =
          seen := some.inj hs
      cases hb : m.acknowledged with
      | none => simpa [hb, ← hs'] using hea
      | some before => simpa [hb, ← hs', hea] using ha.acked before hb
    have hfi := finished_finish (hba.nodup_keys hme) he hm true
    rw [← hl.commit] at hfi
    cases haf : (r.commit s.dirty).members.get e.key with
    | none =>
      rw [haf] at hfi
      obtain ⟨-, -, -, how⟩ := hfi
      have hse : (settleMember m e true).acknowledged.isSome = true := rfl
      obtain ⟨seen, hs⟩ := isSome_iff_exists.mp hse
      have hlt := hac seen hs
      have hr : (settleMember m e true).revision = m.revision := rfl
      simp only [owes, hs, all_some, hr, Bool.or_eq_false_iff,
        decide_eq_false_iff_not] at how
      exact absurd hlt how.2
    | some m' =>
      rw [haf] at hfi
      cases hfi with
      | kept queued =>
        refine ⟨_, rfl, ha.inactive, ha.retired, ?_, ha.invalid, ?_, hac, ha.receiver, fun o hot =>
            ha.receipts o (mem_of_mem_eraseIdx hot), ha.snapshots, ?_⟩
        · simp [settleMember, ha.invalidated]
        · exact fun hop => ha.final (hf ▸ hop)
        · rw [hf, hfr, hi]
          exact ha.images
  · refine h.of_fate (fun row ho => ⟨(discharge_eq_some ho).1, fun m hm ha =>
      ⟨ha.inactive, ?_⟩⟩) hf (fun hop => ⟨hfr ▸ hop, hi⟩)
      (fun row m _ ha => ha.receiver)
      (fun row m _ ha o hot =>
        ha.receipts o (mem_of_mem_eraseIdx hot))
      (by rw [hf]; exact h.taken) (Subset.refl _)
    by_cases hl : r.Live
    · rw [hl.commit, get_finish_of_notMem fun hme => hk ⟨hl, hme⟩, hm, map_some]
    · rw [members_commit s.dirty hl, hm, map_some]

theorem Retirement.drop (hb : s.Base) (hg : s.receipts[i]? = some r) :
    Retirement k
      { s with
        dirty := r.drop s.dirty
        receipts := s.receipts.eraseIdx i } := by
  have hme : r ∈ s.receipts := mem_of_getElem? hg
  obtain ⟨hf, hfr, hi⟩ := flags_drop s.dirty r
  refine h.of_fate (fun row ho => ⟨ho, fun m hm ha =>
    ⟨ha.inactive, ?_⟩⟩) hf (fun hop => ⟨hfr ▸ hop, hi⟩)
    (fun row m _ ha => ha.receiver)
    (fun row m _ ha o hot =>
      ha.receipts o (mem_of_mem_eraseIdx hot))
    (by rw [hf]; exact h.taken) (Subset.refl _)
  by_cases hl : r.Live
  · rw [hl.drop]
    by_cases hk : k ∈ r.keys.map (·.key)
    · obtain ⟨e, he, rfl⟩ := mem_map.mp hk
      have hfi := finished_finish (hb.nodup_keys hme) he hm false
      generalize (s.dirty.finish r.keys false).members.get e.key = after at hfi
      cases hfi with
      | removed _ _ hc _ => simp at hc
      | kept queued => rfl
    · rw [get_finish_of_notMem hk, hm, map_some]
  · rw [members_drop s.dirty hl, hm, map_some]

theorem Retirement.receiptStep {a : ReceiptAction} (hb : s.Base) (hc : s.collision = none)
    (hs : ReceiptStep s i a t) : Retirement k t := by
  cases hs with
  | takeSuccess _ => exact h.of_modify i keepsRows_takeSuccess
  | takeError _ => exact h.of_modify i keepsRows_takeError
  | restoreError _ => exact h.of_modify i keepsRows_restoreError
  | commit hg => exact h.commit hb hg hc
  | drop hg => exact h.drop hb hg

end

theorem Retirement.step {a : Action} (hb : s.Base) (hf : s.Frozen False)
    (hi : s.Issued) (h : Retirement k s) (hok : RetiresUpToDate s a) (hs : s.step a = some t) :
    Retirement k t := by
  cases a with
  | feed a => exact h.feedStep hb hok (feedStep_of_step hs)
  | receiver a => exact h.receiverStep hb hf hi (receiverStep_of_step hs)
  | receipt a i => exact h.receiptStep hb hok (receiptStep_of_step hs)

theorem retirement_run {acts : List Action} (h : Run step RetiresUpToDate new acts s) :
    s.Base ∧ s.Failing ∧ s.Frozen False ∧ s.Issued ∧ Retirement k s := by
  have hst : ∀ s a t,
      s.Base ∧ s.Failing ∧ s.Frozen False ∧ s.Issued ∧ Retirement k s → RetiresUpToDate s a →
      step s a = some t →
      t.Base ∧ t.Failing ∧ t.Frozen False ∧ t.Issued ∧ Retirement k t := by
    rintro s a t ⟨hb, hf, hfr, hi, hr⟩ hok hs
    exact ⟨hb.step hs, hf.step hb (terminalStep_of_step hs),
      hfr.step hb hf False.elim hs, hi.step hs,
      hr.step hb hfr hi hok hs⟩
  exact h.invariant hst ⟨base_new, failing_new, frozen_new False, issued_new, retirement_new k⟩

/-- An image of a member that waits is not covered. -/
theorem Retirement.not_covered {im : FrozenImage}
    (h : Retirement im.key s) (ho : s.owed im.key = some row)
    (hg : s.dirty.members.get im.key = some m) (hf : s.dirty.frozen = true)
    (hfr : s.dirty.freezing = false) (hi : im ∈ s.dirty.frozenImages) :
    im.coveredBy m = false := by
  obtain ⟨x, hfo, ha⟩ := h.awaits row ho
  cases hg.symm.trans hfo
  have hr := ha.images hf hfr im hi rfl
  rw [FrozenImage.coveredBy, Bool.and_eq_false_iff]
  refine .inl (any_eq_false _ _ |>.mpr fun seen hs => ?_)
  simpa [hr] using ha.acked seen hs

/-- Images are skipped only by a selection from the frozen queue, and only when covered. -/
theorem skipped_of_step {a : Action} (hs : s.step a = some t) :
    t.skipped = s.skipped ∨ s.dirty.frozen = true ∧ s.dirty.freezing = false ∧
      ∃ ids, t.skipped = s.skipped ++ ids ∧
        ∀ id ∈ ids, Covered s.dirty.frozenImages s.dirty.members id := by
  cases a with
  | feed a => cases feedStep_of_step hs <;> exact .inl rfl
  | receipt a index => cases receiptStep_of_step hs <;> exact .inl rfl
  | receiver a =>
    cases receiverStep_of_step hs with
    | @frozen limit found _ hse _ hf hfou =>
      have hsp : FrozenSelected s.dirty.frozenImages s.dirty.members none
          s.dirty.frozenQueue found := hfou ▸ selectFrozen_spec _ _ _ _ _
      exact .inr ⟨hf, hse.freezing, found.skipped, rfl, hsp.covered⟩
    | _ => exact .inl rfl

/-- Whatever comes in between, a member is removed when a receipt is given back, or an image
of it is skipped, only after its final row has been committed. -/
theorem retired_of_run {actions : List Action} {s t : System} {a : Action}
    (h : Run step RetiresUpToDate new actions s) (hok : RetiresUpToDate s a)
    (hs : s.step a = some t) :
    (∀ kind index, a = .receipt kind index → ∀ k, (s.dirty.members.get k).isSome = true →
      t.dirty.members.get k = none → t.owed k = none) ∧
    ∀ ids, t.skipped = s.skipped ++ ids → ∀ id ∈ ids, ∀ image,
      s.dirty.frozenImages[id]? = some image → s.owed image.key = none := by
  refine ⟨?_, ?_⟩
  · intro kind index _ k _ hnone
    obtain ⟨hbase, -, hfrozen, hissued, hretirement⟩ := retirement_run (k := k) h
    by_contra howed
    obtain ⟨row, hrow⟩ := ne_none_iff_exists'.mp howed
    obtain ⟨member, hget, -⟩ :=
      (hretirement.step hbase hfrozen hissued hok hs).awaits row hrow
    simp [hnone] at hget
  · intro ids hskipped id hid image himage
    rcases skipped_of_step hs with hsame | ⟨hfrozen, hfreezing, ids', hskipped', hcovered⟩
    · have hnil : ids = [] := by simpa [hskipped] using hsame
      simp [hnil] at hid
    · obtain rfl : ids = ids' := append_cancel_left (hskipped.symm.trans hskipped')
      obtain ⟨found, member, hfound, hget, hcover⟩ := hcovered id hid
      cases himage.symm.trans hfound
      by_contra howed
      obtain ⟨row, hrow⟩ := ne_none_iff_exists'.mp howed
      have hretirement := (retirement_run (k := image.key) h).2.2.2.2
      have := hretirement.not_covered hrow hget hfrozen hfreezing (mem_of_getElem? himage)
      simp [hcover] at this

private def tradeRow : ImageRow :=
  ⟨"IBM US Equity", none, true, none, true, ⟨1, []⟩, none⟩

/-- A topic is retired while a receipt of its first image is out; the second receipt carries
the final row, and committing it removes the member. -/
theorem retired_of_run_delivered : ∃ s t : System, Run step RetiresUpToDate new
        [.feed (.lock 0), .feed (.register 0 "IBM US Equity" false), .feed (.unlock 0),
          .receiver (.tryRecv 1), .receiver (.capture tradeRow), .receiver .settle,
          .receiver .issue, .feed (.lock 0), .feed (.retire 0 none none ⟨1, []⟩),
          .feed (.unlock 0), .receipt .commit 0, .receiver (.tryRecv 1), .receiver .useFinal,
          .receiver .settle, .receiver .issue] s ∧
      RetiresUpToDate s (.receipt .commit 0) ∧ s.step (.receipt .commit 0) = some t ∧
      (s.dirty.members.get 0).isSome = true ∧ (s.owed 0).isSome = true ∧
      t.dirty.members.get 0 = none ∧ t.owed 0 = none := by
  have hrun : Run step RetiresUpToDate new
      [.feed (.lock 0), .feed (.register 0 "IBM US Equity" false), .feed (.unlock 0),
        .receiver (.tryRecv 1), .receiver (.capture tradeRow), .receiver .settle,
        .receiver .issue, .feed (.lock 0), .feed (.retire 0 none none ⟨1, []⟩),
        .feed (.unlock 0), .receipt .commit 0, .receiver (.tryRecv 1), .receiver .useFinal,
        .receiver .settle, .receiver .issue] _ :=
    .cons rfl rfl (.cons rfl rfl (.cons rfl rfl (.cons rfl rfl (.cons rfl rfl
      (.cons rfl rfl (.cons rfl rfl (.cons rfl rfl (.cons ⟨rfl, by
          rintro - member ⟨⟩
          exact ⟨by decide, by decide, by decide, by decide, by decide⟩⟩ rfl (.cons rfl rfl
      (.cons rfl rfl (.cons rfl rfl (.cons rfl rfl (.cons rfl rfl (.cons rfl rfl
      (.nil _)))))))))))))))
  exact ⟨_, _, hrun, rfl, rfl, rfl, rfl, rfl,
    (retired_of_run (a := .receipt .commit 0) hrun rfl rfl).1 .commit 0 rfl 0 rfl rfl⟩

/-- The feed advances without marking the topic, a receipt over that newer image goes out, and
the topic is retired. Committing the receipt removes the member, and its final row is lost. -/
theorem exists_run_final_row_lost : ∃ s t : System, FreeRun step new
        [.feed (.lock 0), .feed (.register 0 "IBM US Equity" false), .feed (.advance 0),
          .feed (.unlock 0), .receiver (.tryRecv 1), .receiver (.capture tradeRow),
          .receiver .settle, .receiver .issue, .feed (.lock 0),
          .feed (.retire 0 none none ⟨1, []⟩), .feed (.unlock 0)] s ∧
      s.step (.receipt .commit 0) = some t ∧ (s.dirty.members.get 0).isSome = true ∧
      t.dirty.members.get 0 = none ∧
      t.owed 0 = some ⟨"IBM US Equity", none, false, none, false, ⟨1, []⟩, none⟩ ∧
      (t.committed.flatMap (·.rows)).map (·.row) = [tradeRow] :=
  ⟨_, _, .of_runActions rfl, rfl, rfl, rfl, rfl, rfl⟩

end System

end Xbbg.StateDelivery
