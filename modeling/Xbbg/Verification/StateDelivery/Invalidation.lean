import Xbbg.Library.Barriers
import Xbbg.Verification.StateDelivery.Frozen
import Xbbg.Verification.StateDelivery.Rows

/-! Between two valid rows of a topic on the two sides of a loss, an invalid row is
committed. The loss stays marked on the member until a receipt that publishes it is
committed, and no image can be captured while the loss is being marked. -/

namespace Xbbg.StateDelivery

open Function List Library Receiver FeedView

/-- The last revision of the feed at which its lock was free. -/
def FeedView.base (view : FeedView) : ℕ :=
  view.held.getD view.revision

/-- The part of a member that decides what its rows may say. -/
structure MemberLane where
  feed : ℕ
  invalidated : Option ℕ
  retired : Bool
  finalImage : Option (ℕ × ImageRow)

def DirtyMember.lane (member : DirtyMember) : MemberLane :=
  ⟨member.feed, member.invalidated, member.retired, member.finalImage⟩

namespace System

open DirtyState

variable {k : ℕ} {s t : System} {receipt : Receipt}

def log (s : System) (k : ℕ) : List DeliveredRow :=
  (s.committed.flatMap (·.rows)).filter (·.key == k)

/-- A row in the batch under construction or in a receipt that is out. -/
def RowOut (s : System) (row : DeliveredRow) : Prop :=
  (∃ built ∈ s.receiver.built, built.delivered = row) ∨ ∃ receipt ∈ s.receipts, row ∈ receipt.rows

/-- No row of the topic can be committed any more: every materialization fails. -/
def Dead (k : ℕ) (s : System) : Prop :=
  s.collision.isSome = true ∧ ∀ receipt ∈ s.receipts, ∀ row ∈ receipt.rows, row.key ≠ k

/-- What is out was issued, and no receipt is over frozen rows. -/
structure IssuedLive (s : System) : Prop extends Issued s where
  leases : ∀ receipt ∈ s.receipts, receipt.frozenIds = []

theorem IssuedLive.of_subset (h : s.IssuedLive) (hr : t.receiver = s.receiver)
    (hc : t.collision = s.collision) (hs : t.receipts ⊆ s.receipts) : t.IssuedLive :=
  ⟨h.of_receipts (hr ▸ h.built) (hc ▸ id) fun _ hm => .inl (hs hm), fun r hm => h.leases r (hs hm)⟩

/-- The first unpublished loss of the member covers this one. -/
def Marked (lane : MemberLane) (m : ℕ) : Prop :=
  ∃ first, lane.invalidated = some first ∧ first ≤ m

/-- How the revisions around a live member are ordered. -/
structure Lane (k : ℕ) (s : System) (lane : MemberLane) : Prop where
  retired : lane.retired = false
  finalImage : lane.finalImage = none
  losses : ∀ m ∈ s.losses k, m ≤ (s.feeds lane.feed).revision
  marker : ∀ m, lane.invalidated = some m → m ≤ (s.feeds lane.feed).revision
  log : ∀ row ∈ s.log k, row.revision ≤ (s.feeds lane.feed).base
  out : ∀ row, s.RowOut row → row.key = k → row.revision ≤ (s.feeds lane.feed).base
  captured : ∀ row, s.receiver.captured = some row → row.key = k →
    row.revision ≤ (s.feeds lane.feed).base
  waiting : ∀ selected ∈ s.receiver.waiting, selected.key = k →
    selected.feed = lane.feed ∧ selected.finalImage = none

/-- A loss that separates a committed valid row from what may follow it is still marked. -/
structure Guarded (k : ℕ) (s : System) (lane : MemberLane) : Prop where
  committed : ∀ row ∈ trailing (·.row.valid) (s.log k), ∀ m ∈ s.losses k,
    m ≤ row.revision ∨ Marked lane m
  before : ∀ row, s.RowOut row → row.key = k → row.row.valid = true →
    ∀ last ∈ trailing (·.row.valid) (s.log k), ∀ m ∈ s.losses k,
      m ≤ last.revision ∨ row.revision < m
  after : ∀ row, s.RowOut row → row.key = k → row.row.valid = true →
    ∀ m ∈ s.losses k, m ≤ row.revision ∨ Marked lane m
  captured : ∀ row, s.receiver.captured = some row → row.key = k →
    ∀ m ∈ s.losses k, m ≤ row.revision ∨ Marked lane m

structure Boundary (k : ℕ) (s : System) : Prop where
  unfrozen : s.dirty.frozen = false ∧ s.dirty.freezing = false
  feeds : ∀ feed, (s.feeds feed).base ≤ (s.feeds feed).revision
  separated : Separated (·.row.valid) DeliveredRow.revision (s.log k) (s.losses k)
  fresh : s.nextKey ≤ k → s.log k = [] ∧ s.losses k = []
  absent : s.dirty.members.get k = none → k ∉ s.holders
  lane : ∀ member, s.dirty.members.get k = some member → Lane k s member.lane
  guarded : ∀ member, s.dirty.members.get k = some member → Dead k s ∨ Guarded k s member.lane

theorem boundary_new (k : ℕ) : Boundary k System.new := by
  refine ⟨⟨rfl, rfl⟩, fun _ => le_rfl, separated_nil _, fun _ => ⟨rfl, rfl⟩, ?_, ?_, ?_⟩
  · simp [new, holders, receiptKeys]
  · simp [new, DirtyState.new]
  · simp [new, DirtyState.new]

/-- The clocks of the feeds only go forward. -/
def FeedsAdvance (s t : System) : Prop :=
  ∀ feed, (s.feeds feed).revision ≤ (t.feeds feed).revision ∧
    (s.feeds feed).base ≤ (t.feeds feed).base ∧ (t.feeds feed).base ≤ (t.feeds feed).revision

/-- Nothing about the topic changes but the clock of its feed and its place in the queue:
it may be selected, and an image may be captured for it. -/
structure KeyFrame (k : ℕ) (s t : System) : Prop where
  frozen : t.dirty.frozen = s.dirty.frozen
  freezing : t.dirty.freezing = s.dirty.freezing
  feeds : FeedsAdvance s t
  members : (t.dirty.members.get k).map DirtyMember.lane =
    (s.dirty.members.get k).map DirtyMember.lane
  nextKey : s.nextKey ≤ t.nextKey
  log : t.log k = s.log k
  losses : t.losses k = s.losses k
  holders : t.dirty.members.get k = none → k ∈ t.holders → k ∈ s.holders
  rows : ∀ row, t.RowOut row → row.key = k → s.RowOut row
  receipts : t.collision.isSome = true → ∀ receipt ∈ t.receipts, ∀ row ∈ receipt.rows,
    row.key = k → ∃ old ∈ s.receipts, row ∈ old.rows
  captured : ∀ row, t.receiver.captured = some row → row.key = k →
    s.receiver.captured = some row ∨ ∃ member, s.dirty.members.get k = some member ∧
      (s.feeds member.feed).held = none ∧ row.revision = (s.feeds member.feed).revision
  waiting : ∀ selected ∈ t.receiver.waiting, selected.key = k →
    selected ∈ s.receiver.waiting ∨ ∃ member, s.dirty.members.get k = some member ∧
      selected.feed = member.feed ∧ selected.finalImage = member.finalImage
  collision : s.collision.isSome = true → t.collision.isSome = true

theorem Dead.of_frame (h : Dead k s) (hf : KeyFrame k s t) : Dead k t := by
  refine ⟨hf.collision h.1, fun receipt hre row hr hk => ?_⟩
  obtain ⟨old, ho, hr'⟩ := hf.receipts (hf.collision h.1) receipt hre row hr hk
  exact h.2 old ho row hr' hk

theorem Boundary.of_frame (h : Boundary k s) (hf : KeyFrame k s t) : Boundary k t := by
  have hl : ∀ member', t.dirty.members.get k = some member' →
      ∃ member, s.dirty.members.get k = some member ∧ member'.lane = member.lane := by
    intro member' hg
    have hmm := hf.members
    rw [hg, Option.map_some] at hmm
    obtain ⟨member, hme, heq⟩ := Option.map_eq_some_iff.mp hmm.symm
    exact ⟨member, hme, heq.symm⟩
  refine ⟨?_, fun feed => (hf.feeds feed).2.2, ?_, ?_, ?_, ?_, ?_⟩
  · rw [hf.frozen, hf.freezing]
    exact h.unfrozen
  · rw [hf.log, hf.losses]
    exact h.separated
  · intro hfr
    rw [hf.log, hf.losses]
    exact h.fresh (hf.nextKey.trans hfr)
  · intro hn hh
    have hmm := hf.members
    rw [hn, Option.map_none, eq_comm, Option.map_eq_none_iff] at hmm
    exact h.absent hmm (hf.holders hn hh)
  · intro member' hg
    obtain ⟨member, hme, heq⟩ := hl member' hg
    obtain ⟨hrv, hb, -⟩ := hf.feeds member.lane.feed
    have ho := h.lane member hme
    rw [heq]
    refine ⟨ho.retired, ho.finalImage, ?_, ?_, ?_, ?_, ?_, ?_⟩
    · intro m hm
      exact (ho.losses m (hf.losses ▸ hm)).trans hrv
    · intro m hm
      exact (ho.marker m hm).trans hrv
    · intro row hr
      exact (ho.log row (hf.log ▸ hr)).trans hb
    · intro row hr hk
      exact (ho.out row (hf.rows row hr hk) hk).trans hb
    · intro row hr hk
      rcases hf.captured row hr hk with hc | ⟨x, hfo, hh, hre⟩
      · exact (ho.captured row hc hk).trans hb
      · cases hme.symm.trans hfo
        refine le_trans (le_of_eq ?_) hb
        simp [base, DirtyMember.lane, hh, hre]
    · intro sel hs hk
      rcases hf.waiting sel hs hk with hw | ⟨x, hfo, hfe, hfi⟩
      · exact ho.waiting sel hw hk
      · cases hme.symm.trans hfo
        exact ⟨hfe, hfi.trans ho.finalImage⟩
  · intro member' hg
    obtain ⟨member, hme, heq⟩ := hl member' hg
    refine (h.guarded member hme).imp (·.of_frame hf) fun ho => ?_
    rw [heq]
    refine ⟨?_, ?_, ?_, ?_⟩
    · rw [hf.log, hf.losses]
      exact ho.committed
    · rw [hf.log, hf.losses]
      exact fun row hr hk => ho.before row (hf.rows row hr hk) hk
    · rw [hf.losses]
      exact fun row hr hk => ho.after row (hf.rows row hr hk) hk
    · rw [hf.losses]
      intro row hr hk m hm
      rcases hf.captured row hr hk with hc | ⟨x, hfo, -, hre⟩
      · exact ho.captured row hc hk m hm
      · cases hme.symm.trans hfo
        exact .inl (hre ▸ (h.lane member hme).losses m hm)

theorem FeedsAdvance.refl (h : ∀ feed, (s.feeds feed).base ≤ (s.feeds feed).revision)
    (hf : t.feeds = s.feeds) : FeedsAdvance s t := by
  intro feed
  rw [hf]
  exact ⟨le_rfl, le_rfl, h feed⟩

theorem FeedsAdvance.setFeed (h : ∀ feed, (s.feeds feed).base ≤ (s.feeds feed).revision) (feed : ℕ)
    {view : FeedView} (hr : (s.feeds feed).revision ≤ view.revision)
    (hb : (s.feeds feed).base ≤ view.base) (hv : view.base ≤ view.revision) :
    FeedsAdvance s (s.setFeed feed view) := by
  intro o
  by_cases ho : o = feed
  · subst ho
    simpa [System.setFeed] using ⟨hr, hb, hv⟩
  · simpa [System.setFeed, update_of_ne ho] using h o

theorem KeyFrame.of_feed (hf : t.dirty.frozen = s.dirty.frozen)
    (hfr : t.dirty.freezing = s.dirty.freezing) (hfe : FeedsAdvance s t)
    (hm : (t.dirty.members.get k).map DirtyMember.lane = (s.dirty.members.get k).map
      DirtyMember.lane) (hn : s.nextKey ≤ t.nextKey) (hre : t.receiver = s.receiver)
    (hrc : t.receipts = s.receipts) (hc : t.committed = s.committed) (hl : t.losses k = s.losses k)
    (hco : s.collision.isSome = true → t.collision.isSome = true) : KeyFrame k s t := by
  refine ⟨hf, hfr, hfe, hm, hn, ?_, hl, ?_, ?_, ?_, ?_, ?_, hco⟩
  · rw [System.log, System.log, hc]
  · rw [System.holders, System.holders, hre, hrc]
    exact fun _ => id
  · intro row hr _
    rwa [RowOut, hre, hrc] at hr
  · rw [hrc]
    exact fun _ receipt hri row hr _ => ⟨receipt, hri, hr⟩
  · rw [hre]
    exact fun row hr _ => .inl hr
  · rw [hre]
    exact fun sel hs _ => .inl hs

/-- No action takes the member away from under its rows. -/
def KeepsMember (k : ℕ) : Action → Prop
  | .feed (.retire key _ _ _) => key ≠ k
  | .feed (.detach key) => key ≠ k
  | .feed .closeSource => False
  | .receiver .prepareClose => False
  | .receiver .close => False
  | _ => True

variable {row : DeliveredRow}

theorem IssuedLive.key_mem_holders (h : s.IssuedLive) (hr : s.RowOut row) :
    row.key ∈ s.holders := by
  rcases hr with ⟨built, hb, rfl⟩ | ⟨receipt, hre, hr⟩
  · refine mem_append_left _ ?_
    have hme : built.receipt.key ∈ s.receiver.built.map (·.receipt.key) :=
      mem_map_of_mem hb
    rw [(h.built built hb).key]
    cases hrc : s.receiver <;> simp_all
  · obtain ⟨built, hm⟩ := h.receipts receipt hre
    rcases hm.rows (h.leases receipt hre) with hro | ⟨hro, -⟩
    · rw [hro] at hr
      obtain ⟨e, he, rfl⟩ := mem_map.mp hr
      refine (s.keys_sublist_holders hre).subset ?_
      rw [hm.keys, (hm.good e he).key, map_map]
      exact mem_map_of_mem (f := fun built : BuiltRow => built.receipt.key) he
    · simp [hro] at hr

theorem captured_mem_holders (h : s.receiver.captured = some row) :
    row.key ∈ s.holders := by
  refine mem_append_left _ ?_
  cases hr : s.receiver <;> simp_all
  simp [← h]

theorem waiting_mem_holders {sel : SelectedMember} (h : sel ∈ s.receiver.waiting) :
    sel.key ∈ s.holders := by
  refine mem_append_left _ ?_
  cases hr : s.receiver with
  | reading todo built | removing key todo built | settling m rev row todo built =>
    simp only [hr, waiting] at h
    have hm := mem_map_of_mem (f := fun sel : SelectedMember => sel.key) h
    simp only [Receiver.keys, mem_append, mem_cons]
    tauto
  | fallback m todo built =>
    simp only [hr, waiting] at h
    rcases mem_cons.mp h with rfl | h
    · simp
    · have hm := mem_map_of_mem (f := fun sel : SelectedMember => sel.key) h
      simp only [Receiver.keys, mem_append, mem_cons]
      tauto
  | _ => simp [hr] at h

variable {lane : MemberLane}

theorem Lane.of_unheld (hi : s.IssuedLive) (hu : k ∉ s.holders)
    (hre : lane.retired = false) (hf : lane.finalImage = none)
    (hlo : ∀ m ∈ s.losses k, m ≤ (s.feeds lane.feed).revision)
    (hm : ∀ m, lane.invalidated = some m → m ≤ (s.feeds lane.feed).revision)
    (hlg : ∀ row ∈ s.log k, row.revision ≤ (s.feeds lane.feed).base) : Lane k s lane := by
  refine ⟨hre, hf, hlo, hm, hlg, ?_, ?_, ?_⟩
  · exact fun row hr hk => absurd (hk ▸ hi.key_mem_holders hr) hu
  · exact fun row hr hk => absurd (hk ▸ captured_mem_holders hr) hu
  · exact fun sel hme hk => absurd (hk ▸ waiting_mem_holders hme) hu

theorem Guarded.of_unheld (hi : s.IssuedLive) (hu : k ∉ s.holders)
    (hc : ∀ row ∈ trailing (·.row.valid) (s.log k), ∀ m ∈ s.losses k, m ≤ row.revision ∨
      Marked lane m) : Guarded k s lane := by
  refine ⟨hc, ?_, ?_, ?_⟩
  · exact fun row hr hk => absurd (hk ▸ hi.key_mem_holders hr) hu
  · exact fun row hr hk => absurd (hk ▸ hi.key_mem_holders hr) hu
  · exact fun row hr hk => absurd (hk ▸ captured_mem_holders hr) hu

variable {member : DirtyMember} {built : List BuiltRow}

/-- Whoever was not marked yet has the mark of this revision. -/
theorem invalidated_marked (freezing : Bool) (rev : ℕ) (invalidated : Bool) (m : DirtyMember) :
    (marked freezing rev invalidated m).lane =
      { m.lane with invalidated := m.invalidated.or (if invalidated then some rev else none) } := by
  cases hi : m.invalidated <;> cases invalidated <;> simp [marked, DirtyMember.lane, hi]

/-- The committed rows of the topic that a receipt adds: one, or none if its rows failed to
materialize or do not have the topic. -/
theorem filter_rows {collision : Option String}
    (hm : receipt.MadeOf collision built) (hl : receipt.frozenIds = [])
    (hn : (receipt.keys.map (·.key)).Nodup) (k : ℕ) :
    (∃ e ∈ built, e.receipt.key = k ∧ receipt.rows.filter (·.key == k) = [e.delivered]) ∨
    receipt.rows.filter (·.key == k) = [] ∧
      (k ∈ receipt.keys.map (·.key) → receipt.rows = [] ∧ collision.isSome = true) := by
  rcases hm.rows hl with hr | ⟨hr, hc⟩
  · by_cases hk : k ∈ receipt.keys.map (·.key)
    · obtain ⟨e, he, hke⟩ : ∃ e ∈ built, e.receipt.key = k := by
        simpa [hm.keys] using hk
      refine .inl ⟨e, he, hke, ?_⟩
      have hd : (built.map (·.delivered.key)).Nodup := by
        have hs : receipt.keys.map (·.key) = built.map (·.delivered.key) := by
          rw [hm.keys, map_map]
          exact map_congr_left fun row hro => (hm.good row hro).key.symm
        exact hs ▸ hn
      have hf := filter_eq_singleton hd he
      rw [hr, filter_map, comp_def]
      rw [← hke, ← (hm.good e he).key, hf, map_singleton]
    · refine .inr ⟨?_, fun hme => absurd hme hk⟩
      rw [hr, filter_eq_nil_iff]
      intro row hro hke
      obtain ⟨e, he, rfl⟩ := mem_map.mp hro
      refine hk ?_
      rw [hm.keys, map_map]
      refine mem_map.mpr ⟨e, he, ?_⟩
      rw [comp_apply, ← (hm.good e he).key]
      simpa using hke
  · exact .inr ⟨by simp [hr], fun _ => ⟨hr, hc⟩⟩

section

variable (h : Boundary k s)
include h

theorem Boundary.of_sameStream (hd : SameStream s.dirty t.dirty)
    (hm : (t.dirty.members.get k).map DirtyMember.lane = (s.dirty.members.get k).map
      DirtyMember.lane) (hf : t.feeds = s.feeds) (hn : s.nextKey ≤ t.nextKey)
    (hr : t.receiver = s.receiver) (hre : t.receipts = s.receipts) (hc : t.committed = s.committed)
    (hl : t.losses k = s.losses k) (hco : t.collision = s.collision) : Boundary k t :=
  h.of_frame (.of_feed hd.frozen hd.freezing (.refl h.feeds hf) hm hn hr hre hc hl (hco ▸ id))

theorem Boundary.mark (key rev : ℕ) (invalidated : Bool)
    (hr : ∀ m, s.dirty.members.get key = some m → rev ≤ (s.feeds m.feed).revision) :
    Boundary k { s with dirty := s.dirty.mark key rev invalidated } := by
  have hs := sameStream_mark s.dirty key rev invalidated
  by_cases hk : k = key ∧ s.dirty.rejects = false
  · obtain ⟨rfl, hrj⟩ := hk
    have hg : ∀ found, (s.dirty.mark k rev invalidated).members.get k = some found →
        ∃ m, s.dirty.members.get k = some m ∧ found.lane = { m.lane with
          invalidated := m.invalidated.or (if invalidated then some rev else none) } := by
      intro found hf
      rw [get_mark, if_pos ⟨rfl, hrj⟩] at hf
      obtain ⟨m, hm, rfl⟩ := Option.map_eq_some_iff.mp hf
      exact ⟨m, hm, invalidated_marked _ _ _ m⟩
    refine ⟨?_, h.feeds, h.separated, h.fresh, ?_, ?_, ?_⟩
    · rw [hs.frozen, hs.freezing]
      exact h.unfrozen
    · intro hn
      rw [get_mark, if_pos ⟨rfl, hrj⟩, Option.map_eq_none_iff] at hn
      exact h.absent hn
    · intro found hf
      obtain ⟨m, hm, hl⟩ := hg found hf
      have ho := h.lane m hm
      rw [hl]
      refine ⟨ho.retired, ho.finalImage, ho.losses, ?_, ho.log, ho.out, ho.captured, ho.waiting⟩
      intro first hfi
      rcases Option.or_eq_some_iff.mp hfi with hfi | ⟨-, hfi⟩
      · exact ho.marker first hfi
      · obtain ⟨-, hfi⟩ := Option.ite_none_right_eq_some.mp hfi
        exact Option.some.inj hfi ▸ hr m hm
    · intro found hf
      obtain ⟨m, hm, hl⟩ := hg found hf
      have hma : ∀ loss, Marked m.lane loss → Marked found.lane loss := by
        rintro loss ⟨first, hfi, hle⟩
        exact ⟨first, by rw [hl]; exact Option.or_eq_some_iff.mpr (.inl hfi), hle⟩
      refine (h.guarded m hm).imp id fun hgu => ⟨?_, hgu.before, ?_, ?_⟩
      · exact fun row hr loss hlo => (hgu.committed row hr loss hlo).imp_right (hma loss)
      · exact fun row hr hk hv loss hlo => (hgu.after row hr hk hv loss hlo).imp_right (hma loss)
      · exact fun row hr hk loss hlo => (hgu.captured row hr hk loss hlo).imp_right (hma loss)
  · exact h.of_sameStream hs (by rw [get_mark, if_neg hk]) rfl le_rfl rfl rfl rfl rfl rfl

/-- A marked loss that is later than every image that has been captured. -/
theorem Boundary.loss (hk : k < s.nextKey) {rev : ℕ} (hg : s.dirty.members.get k = some member)
    (hm : Marked member.lane rev) (hr : rev = (s.feeds member.lane.feed).revision)
    (hb : (s.feeds member.lane.feed).base < rev) :
    Boundary k { s with losses := update s.losses k (s.losses k ++ [rev]) } := by
  have ho := h.lane member hg
  refine ⟨h.unfrozen, h.feeds, ?_, ?_, h.absent, ?_, ?_⟩
  · simp only [update_self]
    exact h.separated.mark fun row hlo => (ho.log row hlo).trans_lt hb
  · exact fun hfr => absurd hk (not_lt.mpr hfr)
  · intro found hf
    cases hg.symm.trans hf
    refine ⟨ho.retired, ho.finalImage, ?_, ho.marker, ho.log, ho.out, ho.captured, ho.waiting⟩
    simp only [update_self, mem_append, mem_singleton]
    exact fun m hm => hm.elim (ho.losses m) fun hm => (hm.trans hr).le
  · intro found hf
    cases hg.symm.trans hf
    refine (h.guarded member hg).imp id fun hgu => ⟨?_, ?_, ?_, ?_⟩
    all_goals simp only [update_self, mem_append, mem_singleton]
    · rintro row hlo m (hmo | rfl)
      · exact hgu.committed row hlo m hmo
      · exact .inr hm
    · rintro row ho' hk hv last hl m (hmo | rfl)
      · exact hgu.before row ho' hk hv last hl m hmo
      · exact .inr ((ho.out row ho' hk).trans_lt hb)
    · rintro row ho' hk hv m (hmo | rfl)
      · exact hgu.after row ho' hk hv m hmo
      · exact .inr hm
    · rintro row hc hk m (hmo | rfl)
      · exact hgu.captured row hc hk m hmo
      · exact .inr hm

theorem Boundary.register (hsy : s.Base) (hi : s.IssuedLive) (feed : ℕ) (label : String)
    (active : ℕ → Bool) (owed : ℕ → Option ImageRow) :
    Boundary k
      { s with
        dirty := s.dirty.register s.nextKey feed (s.feeds feed).revision label
        active := active
        nextKey := s.nextKey + 1
        owed := owed } := by
  have hs := sameStream_register s.dirty s.nextKey feed (s.feeds feed).revision label
  have hg := get_register s.dirty s.nextKey feed (s.feeds feed).revision label k
  split at hg
  · exact h.of_sameStream hs (by rw [hg]) rfl (Nat.le_succ _) rfl rfl rfl rfl rfl
  · split at hg
    · rename_i hk
      obtain ⟨hl, hn⟩ := h.fresh hk.ge
      have hu : k ∉ s.holders := fun hme => (hsy.held.lt k hme).ne hk
      refine ⟨?_, h.feeds, h.separated, ?_, by simp [hg], ?_, ?_⟩
      · rw [hs.frozen, hs.freezing]
        exact h.unfrozen
      · exact fun hle => absurd hle (by simp [hk])
      · intro found hfo
        cases hg.symm.trans hfo
        refine .of_unheld (hi.of_subset rfl rfl (Subset.refl _)) hu rfl rfl ?_ ?_ ?_
        · simp [hn]
        · simp [DirtyMember.lane]
        · intro row hr
          have hr' : row ∈ s.log k := hr
          simp [hl] at hr'
      · exact fun x _ => .inr (.of_unheld (hi.of_subset rfl rfl (Subset.refl _)) hu (by simp [hn]))
    · refine h.of_sameStream hs ?_ rfl (Nat.le_succ _) rfl rfl rfl rfl rfl
      rw [hg]
      cases hme : s.dirty.members.get k with
      | none => rfl
      | some m =>
        have hrt : m.retired = false := (h.lane m hme).retired
        simp [hrt]

theorem Boundary.feedStep {a : FeedAction} (hsy : s.Base) (hi : s.IssuedLive)
    (hok : KeepsMember k (.feed a)) (hs : FeedStep s a t) : Boundary k t := by
  cases hs with
  | lock feed hh =>
    have hb : (s.feeds feed).base = (s.feeds feed).revision := by simp [base, hh]
    exact h.of_frame (.of_feed rfl rfl
      (.setFeed h.feeds feed le_rfl (by simp [base, hh]) (by simp [base]))
      rfl le_rfl rfl rfl rfl rfl id)
  | advance feed hh =>
    obtain ⟨base, hb⟩ := Option.ne_none_iff_exists'.mp hh
    have hle := h.feeds feed
    simp only [FeedView.base, hb, Option.getD_some] at hle
    exact h.of_frame (.of_feed rfl rfl
      (.setFeed h.feeds feed (Nat.le_succ _) (by simp [FeedView.base, hb])
        (by simp [FeedView.base, hb]; omega)) rfl le_rfl rfl rfl rfl rfl id)
  | unlock feed =>
    exact h.of_frame (.of_feed rfl rfl
      (.setFeed h.feeds feed le_rfl (by simpa [base] using h.feeds feed)
        (by simp [base])) rfl le_rfl rfl rfl rfl rfl id)
  | deactivate key =>
    exact h.of_sameStream (.refl _) rfl rfl le_rfl rfl rfl rfl rfl rfl
  | seedSchema ns =>
    exact h.of_frame (.of_feed rfl rfl (.refl h.feeds rfl) rfl le_rfl rfl rfl rfl rfl
      isSome_observeNames)
  | register feed label recovering _ =>
    have hre := h.register hsy hi feed label
    cases recovering with
    | false => exact hre _ _
    | true =>
      refine (hre _ _).mark s.nextKey _ true fun m hm => ?_
      simp only [get_register, hsy.fresh] at hm
      split at hm
      · cases hm
      · cases hm
        rfl
  | mark key hget _ _ => exact h.mark key _ false fun m hm => by cases hget.symm.trans hm; rfl
  | @dataLoss key m base hget _ hh hb =>
    have hma := h.mark key (s.feeds m.feed).revision true
      fun m hm => by cases hget.symm.trans hm; rfl
    by_cases hr : s.dirty.rejects = true
    · rwa [if_pos hr]
    · rw [if_neg hr]
      by_cases hk : k = key
      · subst hk
        have ha := get_mark s.dirty k (s.feeds m.feed).revision true k
        rw [if_pos ⟨rfl, by simpa using hr⟩, hget, Option.map_some] at ha
        refine hma.loss (hsy.held.members_lt k m hget) ha ?_ rfl ?_
        · rw [invalidated_marked]
          cases hi : m.invalidated with
          | none => exact ⟨_, rfl, le_rfl⟩
          | some first => exact ⟨first, rfl, (h.lane m hget).marker first hi⟩
        · simpa [FeedView.base, DirtyMember.lane, marked, hh] using hb
      · exact hma.of_sameStream (.refl _) rfl rfl le_rfl rfl rfl rfl (by simp [update_of_ne hk]) rfl
  | retire key lastUpdate delayed l _ _ _ =>
    have hne : k ≠ key := fun heq => hok heq.symm
    refine h.of_sameStream (sameStream_retire _ _ _) ?_ rfl le_rfl rfl rfl rfl rfl rfl
    rw [get_retire, if_neg fun hre => hne hre.1]
  | detach key =>
    have hne : k ≠ key := fun heq => hok heq.symm
    refine h.of_sameStream (sameStream_detach _ _) ?_ rfl le_rfl rfl rfl rfl rfl rfl
    rw [get_detach, if_neg fun hd => hne hd.1]
  | failLate e _ => exact h
  | fail e hc hde hf =>
    rw [fail_eq hc hde hf]
    refine h.of_frame (.of_feed rfl rfl (.refl h.feeds rfl) ?_ le_rfl rfl rfl rfl rfl id)
    rw [Table.get_map, Option.map_map]
    rfl
  | closeSource => exact hok.elim

theorem Boundary.of_receiver (hd : SameStream s.dirty t.dirty)
    (hm : (t.dirty.members.get k).map DirtyMember.lane = (s.dirty.members.get k).map
      DirtyMember.lane) (hf : t.feeds = s.feeds) (hn : t.nextKey = s.nextKey)
    (hr : t.receipts = s.receipts) (hc : t.committed = s.committed) (hl : t.losses = s.losses)
    (hco : t.collision = s.collision)
    (hk : t.dirty.members.get k = none → k ∈ t.receiver.keys → k ∈ s.receiver.keys)
    (hb : ∀ built ∈ t.receiver.built, built.delivered.key = k → built ∈ s.receiver.built)
    (hca : ∀ row, t.receiver.captured = some row → row.key = k → s.receiver.captured = some
      row ∨ ∃ m, s.dirty.members.get k = some m ∧ (s.feeds m.feed).held = none ∧
      row.revision = (s.feeds m.feed).revision)
    (hw : ∀ sel ∈ t.receiver.waiting, sel.key = k → sel ∈ s.receiver.waiting ∨
      ∃ m, s.dirty.members.get k = some m ∧ sel.feed = m.feed ∧
      sel.finalImage = m.finalImage) : Boundary k t := by
  refine h.of_frame ⟨hd.frozen, hd.freezing, .refl h.feeds hf, hm, hn.ge, ?_,
    by rw [hl], ?_, ?_, ?_, hca, hw, hco ▸ id⟩
  · rw [System.log, System.log, hc]
  · intro hno hh
    rw [System.holders, hr] at hh
    rcases mem_append.mp hh with hh | hh
    · exact mem_append_left _ (hk hno hh)
    · exact mem_append_right _ hh
  · rintro row (⟨built, hme, rfl⟩ | hre) hke
    · exact .inl ⟨built, hb built hme hke, rfl⟩
    · exact .inr (hr ▸ hre)
  · rw [hr]
    exact fun _ receipt hre row hro _ => ⟨receipt, hre, hro⟩

theorem Boundary.of_give
    (hd : t.dirty.frozen = s.dirty.frozen ∧ t.dirty.freezing = s.dirty.freezing ∧
      t.dirty.members = s.dirty.members) (hf : t.feeds = s.feeds) (hn : t.nextKey = s.nextKey)
    (hre : t.receipts = s.receipts) (hc : t.committed = s.committed) (hl : t.losses = s.losses)
    (hco : s.collision.isSome = true → t.collision.isSome = true)
    (hk : receipt.keys.map (·.key) ⊆ s.receiver.keys)
    (hro : ∀ row ∈ receipt.rows, row.key = k → ∃ built ∈ s.receiver.built, built.delivered = row)
    (hde : t.collision.isSome = true → receipt.rows = []) : Boundary k (t.give receipt) := by
  refine h.of_frame ⟨hd.1, hd.2.1, .refl h.feeds hf, ?_, hn.ge, ?_, ?_, ?_, ?_, ?_,
    by simp [System.give], by simp [System.give], hco⟩
  · rw [show (t.give receipt).dirty.members = s.dirty.members from hd.2.2]
  · simp [System.log, System.give, hc]
  · simp [System.give, hl]
  · intro _ hh
    simp only [System.holders, System.give, Receiver.keys, nil_append, receiptKeys_append, hre]
      at hh
    rcases mem_append.mp hh with hh | hh
    · exact mem_append_right _ hh
    · refine mem_append_left _ (hk ?_)
      simpa [receiptKeys] using hh
  · rintro row (⟨built, hm, rfl⟩ | ⟨o, ho, hr⟩) hkey
    · simp [System.give] at hm
    · simp only [System.give, hre] at ho
      rcases mem_snoc.mp ho with ho | rfl
      · exact .inr ⟨o, ho, hr⟩
      · exact .inl (hro row hr hkey)
  · intro hs o ho row hr _
    simp only [System.give, hre] at ho
    rcases mem_snoc.mp ho with ho | rfl
    · exact ⟨o, ho, hr⟩
    · simp [hde hs] at hr

theorem Boundary.gone (hd : SameStream s.dirty t.dirty) (hn : t.dirty.members.get k = none)
    (hf : t.feeds = s.feeds) (hne : t.nextKey = s.nextKey) (hc : t.committed = s.committed)
    (hl : t.losses = s.losses) (hu : k ∉ t.holders) : Boundary k t := by
  have hlo : t.log k = s.log k := by rw [System.log, System.log, hc]
  refine ⟨?_, hf ▸ h.feeds, ?_, ?_, fun _ => hu, by simp [hn], by simp [hn]⟩
  · rw [hd.frozen, hd.freezing]
    exact h.unfrozen
  · rw [hlo, hl]
    exact h.separated
  · rw [hne, hlo, hl]
    exact h.fresh

/-- Settling leaves a valid image valid only if no loss up to its revision is unpublished. -/
theorem Boundary.settle {member : SelectedMember} {revision : ℕ} {row settled : ImageRow}
    {todo : List SelectedMember} {receipt : ReceiptKey}
    (hr : s.receiver = .settling member revision row todo built)
    (hse : s.dirty.settleImage member revision row = (receipt, settled)) (hk : member.key = k) :
    Boundary k
      { s with
        receiver := .reading todo (built ++ [⟨receipt, ⟨member.key, revision, settled⟩⟩]) } := by
  have hs := settled_settleImage hse
  have hro : ∀ other, System.RowOut
      { s with
        receiver := .reading todo (built ++ [⟨receipt, ⟨member.key, revision, settled⟩⟩]) } other →
      s.RowOut other ∨ other = ⟨member.key, revision, settled⟩ := by
    rintro other (⟨entry, he, rfl⟩ | ho)
    · rcases mem_snoc.mp he with he | rfl
      · exact .inl (.inl ⟨entry, by simpa [hr] using he, rfl⟩)
      · exact .inr rfl
    · exact .inl (.inr ho)
  have hc : s.receiver.captured = some ⟨member.key, revision, row⟩ := by
    simp [hr]
  refine ⟨h.unfrozen, h.feeds, h.separated, h.fresh, ?_, ?_, ?_⟩
  · intro hn
    exact absurd (hk ▸ captured_mem_holders hc) (h.absent hn)
  · intro found hf
    have hol := h.lane found hf
    refine ⟨hol.retired, hol.finalImage, hol.losses, hol.marker, hol.log, ?_, by simp, ?_⟩
    · intro other ho hke
      rcases hro other ho with ho | rfl
      · exact hol.out other ho hke
      · exact hol.captured ⟨member.key, revision, row⟩ hc hk
    · intro selected hsl
      exact hol.waiting selected (by simpa [hr] using hsl)
  · intro found hf
    refine (h.guarded found hf).imp id fun hg => ?_
    refine ⟨hg.committed, ?_, ?_, by simp⟩
    · intro other ho hke hv last hl m hm
      rcases hro other ho with ho | rfl
      · exact hg.before other ho hke hv last hl m hm
      · refine (hg.committed last hl m hm).imp_right fun hp => ?_
        obtain ⟨first, hfi, hle⟩ := hp
        by_contra hlate
        have hma : (found.invalidated.filter (· ≤ revision)) = some first := by
          have hi : found.invalidated = some first := hfi
          rw [hi]
          simp only [Option.filter_some, decide_eq_true_eq]
          exact if_pos (by simp only at hlate; omega)
        have hlo : s.dirty.lossUpTo member revision = some first := by
          rw [lossUpTo, hk, hf, Option.bind_some, hma, Option.some_or]
        cases hs with
        | kept hkp => simp [hkp hv] at hlo
        | lost marker _ _ => simp [ImageRow.invalidate] at hv
    · intro other ho hke hv m hm
      rcases hro other ho with ho | rfl
      · exact hg.after other ho hke hv m hm
      · exact hg.captured _ hc hk m hm

theorem Boundary.present (hh : k ∈ s.holders) : ∃ member, s.dirty.members.get k = some member := by
  by_contra hnone
  exact h.absent (by simpa [← Option.ne_none_iff_exists'] using hnone) hh

theorem Boundary.select (hsy : s.Base) {members : List SelectedMember} {queue : List ℕ}
    {table : Table DirtyMember} {limit : ℕ}
    (heq : selectLive limit s.dirty.queue s.dirty.members = (members, queue, table)) :
    Boundary k
      { s with
        dirty := { s.dirty with queue := queue, members := table }
        receiver := if members = [] then .idle else .reading members [] } := by
  have hs := (selectLive_spec (hsy.sound.queue h.unfrozen.1) heq).2
  have hw : (if members = [] then idle else .reading members []).waiting = members := by
    split
    · rename_i hn
      simp [hn]
    · rfl
  have hb : (if members = [] then idle else .reading members []).built = [] := by
    split <;> rfl
  have hc : (if members = [] then idle else .reading members []).captured = none := by
    split <;> rfl
  refine h.of_receiver (.of_members _ _ _) ?_ rfl rfl rfl rfl rfl rfl ?_
    (by simp only [hb, not_mem_nil, false_imp_iff, implies_true])
    (by simp only [hc, reduceCtorEq, false_imp_iff, implies_true]) ?_
  · by_cases hk : k ∈ members.map (·.key)
    · obtain ⟨entry, he, rfl⟩ := mem_map.mp hk
      obtain ⟨member, hm, -, -, -, -, ha⟩ := hs.wasIdle entry he
      simp [hm, ha, DirtyMember.lane]
    · simp [hs.others k hk]
  · intro hno hh
    exfalso
    have hme : k ∈ members.map (·.key) := by
      by_cases hn : members = []
      · simp [hn] at hh
      · simpa [hn] using hh
    obtain ⟨entry, he, rfl⟩ := mem_map.mp hme
    obtain ⟨member, -, -, -, -, -, ha⟩ := hs.wasIdle entry he
    have hg : table.get entry.key = none := hno
    simp [ha] at hg
  · intro selected hme hke
    simp only [hw] at hme
    obtain ⟨member, hm, -, hf, -, hfi, -⟩ := hs.wasIdle selected hme
    exact .inr ⟨member, hke ▸ hm, hf, hfi⟩

theorem Boundary.move {receiver : Receiver} (hk : receiver.keys ⊆ s.receiver.keys)
    (hb : receiver.built ⊆ s.receiver.built) (hw : receiver.waiting ⊆ s.receiver.waiting)
    (hc : ∀ row, receiver.captured = some row → row.key = k → s.receiver.captured = some row
      ∨ ∃ m, s.dirty.members.get k = some m ∧ (s.feeds m.feed).held = none ∧
      row.revision = (s.feeds m.feed).revision) : Boundary k { s with receiver := receiver } :=
  h.of_receiver (.refl _) rfl rfl rfl rfl rfl rfl rfl (fun _ hm => hk hm)
    (fun _ hm _ => hb hm) hc fun _ hm _ => .inl (hw hm)

theorem Boundary.receiverStep {a : ReceiverAction} (hsy : s.Base) (hf : s.Frozen False)
    (hok : KeepsMember k (.receiver a)) (hs : ReceiverStep s a t) : Boundary k t := by
  have hn : s.receiver.isFreezing = true → False := fun hfr => by
    simpa [h.unfrozen.2] using hsy.freezing hfr
  cases hs with
  | nothing limit _ _ => exact h
  | terminal limit hi _ _ =>
    exact h.of_give ⟨rfl, rfl, rfl⟩ rfl rfl rfl rfl rfl id (by simp [Receipt.ofTerminal])
      (by simp [Receipt.ofTerminal]) fun _ => rfl
  | frozen limit _ _ _ hf _ => simp [h.unfrozen.1] at hf
  | live limit _ _ _ _ heq => exact h.select hsy heq
  | @useFinal member revision row todo built hr hfin =>
    have hne : member.key ≠ k := by
      intro hke
      have hm : member ∈ s.receiver.waiting := by simp [hr]
      obtain ⟨found, hfo⟩ := h.present (hke ▸ waiting_mem_holders hm)
      simpa [hfin] using ((h.lane found hfo).waiting member hm hke).2
    refine h.move (by simp [hr]) (by simp [hr]) (by simp [hr]) ?_
    rintro found ⟨⟩ hke
    exact absurd hke hne
  | @capture row member todo built hr _ _ hh =>
    have hm : member ∈ s.receiver.waiting := by simp [hr]
    refine h.move (by simp [hr]) (by simp [hr]) (by simp [hr]) ?_
    rintro found ⟨⟩ hke
    obtain ⟨entry, he⟩ := h.present (hke ▸ waiting_mem_holders hm)
    have hfe : member.feed = entry.feed := ((h.lane entry he).waiting member hm hke).1
    exact .inr ⟨entry, he, hfe ▸ hh, by rw [hfe]⟩
  | captureMissing hr _ | fallbackNone hr _ =>
    exact h.move (by simp [hr]) (by simp [hr]) (by simp [hr]) (by simp)
  | @fallbackFinal member entry revision row todo built hr he hfin =>
    refine h.move (by simp [hr]) (by simp [hr]) (by simp [hr]) ?_
    rintro found ⟨⟩ rfl
    have hnn : entry.finalImage = none := (h.lane entry he).finalImage
    simp [hfin] at hnn
  | @removeMissing key todo built hr =>
    have hst := sameStream_remove s.dirty key
    by_cases hk : k = key
    · subst hk
      refine h.gone hst (by simp [get_remove]) rfl rfl rfl rfl ?_
      have hno := hsy.held.nodup
      simp only [holders, hr, Receiver.keys, cons_append] at hno ⊢
      exact (nodup_cons.mp hno).1
    · have hg : (s.dirty.remove key).members.get k = s.dirty.members.get k := by
        simp [get_remove, hk]
      refine h.of_receiver hst (congrArg _ hg) rfl rfl rfl rfl rfl rfl ?_ ?_ (by simp) ?_
      · intro _ hky
        simp only [hr, Receiver.keys] at hky ⊢
        exact mem_cons_of_mem _ hky
      · exact fun entry he _ => by simpa [hr] using he
      · exact fun selected hse _ =>
          .inl (by simpa [hr] using hse)
  | @settle member revision row settled todo built receipt hr hset =>
    by_cases hk : member.key = k
    · exact h.settle hr hset hk
    · have hke := settleImage_key hset
      refine h.of_receiver (.refl _) rfl rfl rfl rfl rfl rfl rfl ?_ ?_ (by simp) ?_
      · intro _ hky
        simp only [hr, Receiver.keys, map_append, map_cons, map_nil, hke,
          mem_append, mem_cons, not_mem_nil, or_false] at hky ⊢
        tauto
      · intro entry he hen
        simp only [Receiver.built] at he
        rcases mem_snoc.mp he with he | rfl
        · simpa [hr] using he
        · exact absurd hen hk
      · exact fun selected hse _ =>
          .inl (by simpa [hr] using hse)
  | issueNothing hr =>
    exact h.move (by simp) (by simp) (by simp) (by simp)
  | issueLive hr _ =>
    refine h.of_give ⟨rfl, rfl, rfl⟩ rfl rfl rfl rfl rfl isSome_observeNames ?_ ?_
      ofRows_rows_of_isSome
    · rw [ofRows_keys, map_map, hr]
      exact subset_append_right _ _
    · intro row hro _
      obtain ⟨entry, he, rfl⟩ := mem_map.mp (ofRows_rows_subset hro)
      exact ⟨entry, by simpa [hr] using he, rfl⟩
  | @issueFrozen ids hr =>
    obtain ⟨hl, -, -⟩ := hf.early (.inl h.unfrozen.1)
    have hni : ids = [] := by
      simp only [leases, batches, hr, batch, flatten_cons, append_eq_nil_iff] at hl
      exact hl.1
    subst hni
    refine h.of_give ⟨rfl, rfl, rfl⟩ rfl rfl rfl rfl rfl isSome_observeNames (by simp) ?_
      ofRows_rows_of_isSome
    exact fun row hro _ => absurd (ofRows_rows_subset hro) (by simp [frozenRows])
  | closedAlready _ _ | prepareClose _ _ | close => exact hok.elim
  | freezeSkip hr _ | freezeCapture row hr _ _ _ | freezeMissing hr _
  | freezeStore hr _ | freezeRemove hr | freezeTake hr _
  | freezePublish hr =>
    exact (hn (by simp [hr])).elim

theorem Boundary.of_modify (idx : ℕ) {f : Receipt → Receipt} (hf : KeepsRows f) :
    Boundary k { s with receipts := s.receipts.modify idx f } := by
  have hm : ∀ receipt ∈ s.receipts.modify idx f, ∃ old ∈ s.receipts,
      receipt.keys = old.keys ∧ receipt.rows = old.rows := by
    intro receipt hr
    obtain ⟨old, ho, rfl | rfl⟩ := exists_of_mem_modify hr
    · exact ⟨_, ho, rfl, rfl⟩
    · exact ⟨old, ho, (hf old).1, (hf old).2.2.1⟩
  refine h.of_frame ⟨rfl, rfl, .refl h.feeds rfl, rfl, le_rfl, rfl, rfl, ?_, ?_, ?_,
    fun row hro _ => .inl hro, fun sel hs _ => .inl hs, id⟩
  · intro _ hh
    rcases mem_append.mp hh with hh | hh
    · exact mem_append_left _ hh
    · obtain ⟨receipt, hr, hke⟩ := mem_flatMap.mp hh
      obtain ⟨old, ho, hk, -⟩ := hm receipt hr
      exact mem_append_right _ (mem_flatMap.mpr ⟨old, ho, hk ▸ hke⟩)
  · rintro row (hb | ⟨receipt, hr, hro⟩) _
    · exact .inl hb
    · obtain ⟨old, ho, -, hrw⟩ := hm receipt hr
      exact .inr ⟨old, ho, hrw ▸ hro⟩
  · intro _ receipt hr row hro _
    obtain ⟨old, ho, -, hrw⟩ := hm receipt hr
    exact ⟨old, ho, hrw ▸ hro⟩

theorem Boundary.of_erase {i : ℕ} (hf : t.dirty.frozen = s.dirty.frozen)
    (hfr : t.dirty.freezing = s.dirty.freezing)
    (hm : (t.dirty.members.get k).map DirtyMember.lane = (s.dirty.members.get k).map
      DirtyMember.lane) (hfe : t.feeds = s.feeds) (hn : t.nextKey = s.nextKey)
    (hr : t.receiver = s.receiver) (hrc : t.receipts = s.receipts.eraseIdx i)
    (hl : t.log k = s.log k) (hlo : t.losses = s.losses) (hc : t.collision = s.collision) :
    Boundary k t := by
  have hs : ∀ receipt ∈ t.receipts, receipt ∈ s.receipts := fun receipt hme =>
    mem_of_mem_eraseIdx (hrc ▸ hme)
  refine h.of_frame ⟨hf, hfr, .refl h.feeds hfe, hm, hn.ge, hl,
    by rw [hlo], ?_, ?_, ?_, ?_, ?_, hc ▸ id⟩
  · intro _ hh
    rw [System.holders, hr] at hh
    rcases mem_append.mp hh with hh | hh
    · exact mem_append_left _ hh
    · obtain ⟨receipt, hre, hk⟩ := mem_flatMap.mp hh
      exact mem_append_right _ (mem_flatMap.mpr ⟨receipt, hs receipt hre, hk⟩)
  · rintro row (hb | ⟨receipt, hre, hro⟩) _
    · exact .inl (hr ▸ hb)
    · exact .inr ⟨receipt, hs receipt hre, hro⟩
  · exact fun _ receipt hre row hro _ => ⟨receipt, hs receipt hre, hro⟩
  · exact fun row hro _ => .inl (hr ▸ hro)
  · exact fun sel hse _ => .inl (hr ▸ hse)

theorem Boundary.commit (hs : s.Base) (hi : s.IssuedLive) {index : ℕ}
    (hge : s.receipts[index]? = some receipt) (hk : k ∈ receipt.keys.map (·.key))
    (ht : t = { s with
      dirty := receipt.commit s.dirty
      receipts := s.receipts.eraseIdx index
      committed := s.committed ++ [receipt]
      owed := discharge s.owed receipt.rows }) : Boundary k t := by
  have hme : receipt ∈ s.receipts := mem_of_getElem? hge
  have hn := hs.nodup_keys hme
  have hh : k ∈ s.holders := (s.keys_sublist_holders hme).subset hk
  obtain ⟨member, hmm⟩ := h.present hh
  have ho := h.lane member hmm
  obtain ⟨hf, hls⟩ : t.feeds = s.feeds ∧ t.losses = s.losses := by simp [ht]
  have hi' : t.IssuedLive := by
    rw [ht]
    exact hi.of_subset rfl rfl eraseIdx_subset
  have hu : k ∉ t.holders := by
    have hp := (holders_perm hge).nodup_iff.mp hs.held.nodup
    rw [holders, ht]
    exact fun hrs => (nodup_append.mp hp).2.2 k hk k hrs rfl
  have hlo : t.log k = s.log k ++ receipt.rows.filter (·.key == k) := by
    simp [System.log, ht]
  obtain ⟨built, hma⟩ := hi.receipts receipt hme
  have hd : receipt.Live := by
    refine ⟨?_, hi.leases receipt hme⟩
    by_contra hter
    simp [hma.keys, hma.terminal (by simpa using hter)] at hk
  obtain ⟨entry, hen, rfl⟩ := mem_map.mp hk
  have hfi := finished_finish hn hen hmm true
  rw [← hd.commit, show receipt.commit s.dirty = t.dirty by rw [ht]] at hfi
  cases ha : t.dirty.members.get entry.key with
  | none =>
    rw [ha] at hfi
    obtain ⟨-, hrt, -, -⟩ := hfi
    exact absurd (ho.retired.symm.trans hrt) (by simp)
  | some member' =>
    rw [ha] at hfi
    have hke : member'.lane = { member.lane with
        invalidated := if member.invalidated = entry.invalidated then none
          else member.invalidated } := by
      cases hfi with
      | kept queued => simp [settleMember, DirtyMember.lane]
    have hb : ∀ row ∈ receipt.rows.filter (·.key == entry.key), s.RowOut row ∧
        row.key = entry.key := by
      intro row hr
      obtain ⟨hr, hky⟩ := mem_filter.mp hr
      exact ⟨.inr ⟨receipt, hme, hr⟩, by simpa using hky⟩
    have hln : Lane entry.key t member'.lane := by
      rw [hke]
      refine .of_unheld hi' hu ho.retired ho.finalImage ?_ ?_ ?_
      · rw [hls, hf]
        exact ho.losses
      · rw [hf]
        intro m hm
        obtain ⟨-, hm⟩ := Option.ite_none_left_eq_some.mp hm
        exact ho.marker m hm
      · rw [hlo, hf]
        intro row hr
        rcases mem_append.mp hr with hr | hr
        · exact ho.log row hr
        · exact ho.out row (hb row hr).1 (hb row hr).2
    suffices hsg : Separated (·.row.valid) DeliveredRow.revision (t.log entry.key)
        (s.losses entry.key) ∧ (Dead entry.key t ∨ Guarded entry.key t member'.lane) by
      have hfl := flags_commit s.dirty receipt
      refine ⟨?_, hf ▸ h.feeds, hls ▸ hsg.1, ?_, by simp [ha], ?_, ?_⟩
      · rw [ht, hfl.1, hfl.2.1]
        exact h.unfrozen
      · rw [ht]
        exact fun hle => absurd (hs.held.lt _ hh) (not_lt.mpr hle)
      all_goals
        intro found hfo
        cases ha.symm.trans hfo
      · exact hln
      · exact hsg.2
    rcases filter_rows hma hd.2 hn entry.key with ⟨row, hr, hky, hfl⟩ | ⟨hfl, hfai⟩
    · -- The receipt delivers a row of the topic, so the topic was not dead.
      rw [hfl] at hlo hb
      obtain ⟨hou, hro⟩ := hb row.delivered (by simp)
      have hg : Guarded entry.key s member.lane := by
        refine (h.guarded member hmm).resolve_left fun hd => ?_
        have hin : row.delivered ∈ receipt.rows := by
          have : row.delivered ∈ receipt.rows.filter (·.key == entry.key) := by simp [hfl]
          exact (mem_filter.mp this).1
        exact hd.2 receipt hme row.delivered hin hro
      rw [hlo]
      refine ⟨h.separated.snoc (hg.before row.delivered hou hro), .inr (.of_unheld hi' hu ?_)⟩
      rw [hlo, hls, trailing_snoc]
      cases hv : row.delivered.row.valid with
      | false => simp
      | true =>
        -- A valid row publishes no loss, so the marker stays.
        have he : entry = row.receipt := by
          have hmp : row.receipt ∈ receipt.keys := by
            rw [hma.keys]
            exact mem_map_of_mem hr
          exact inj_on_of_nodup_map hn hen hmp hky.symm
        have hno : entry.invalidated = none := he ▸ (hma.good row hr).valid hv
        have hsa : member'.lane = member.lane := by
          rw [hke, hno]
          simp only [DirtyMember.lane]
          split
          · rename_i heq
            rw [heq]
          · rfl
        rw [hsa]
        intro last hla m hm
        rcases mem_cons.mp hla with rfl | hla
        · exact hg.after row.delivered hou hro hv m hm
        · exact hg.committed last hla m hm
    · obtain ⟨-, hd⟩ := hfai hk
      rw [hfl, append_nil] at hlo
      refine ⟨hlo ▸ h.separated, .inl ⟨by rwa [ht], fun other hot row hr hro => ?_⟩⟩
      exact hu (hro ▸ hi'.key_mem_holders (.inr ⟨other, hot, hr⟩))

theorem Boundary.receiptStep {index : ℕ} {a : ReceiptAction} (hsy : s.Base) (hi : s.IssuedLive)
    (hs : ReceiptStep s index a t) : Boundary k t := by
  cases hs with
  | takeSuccess _ => exact h.of_modify index keepsRows_takeSuccess
  | takeError _ => exact h.of_modify index keepsRows_takeError
  | restoreError _ => exact h.of_modify index keepsRows_restoreError
  | @commit receipt hget =>
    have hm : receipt ∈ s.receipts := mem_of_getElem? hget
    have hf := flags_commit s.dirty receipt
    obtain ⟨built, hma⟩ := hi.receipts receipt hm
    by_cases hk : k ∈ receipt.keys.map (·.key)
    · exact h.commit hsy hi hget hk rfl
    · refine h.of_erase hf.1 hf.2.1 ?_ rfl rfl rfl rfl ?_ rfl rfl
      · by_cases hd : receipt.Live
        · rw [hd.commit, get_finish_of_notMem hk]
        · rw [members_commit s.dirty hd]
      · have hn : receipt.rows.filter (·.key == k) = [] := by
          rcases filter_rows hma (hi.leases receipt hm) (hsy.nodup_keys hm) k with
            ⟨row, hr, hke, -⟩ | ⟨hfl, -⟩
          · exact absurd (by simpa [hma.keys] using ⟨row, hr, hke⟩) hk
          · exact hfl
        simp [System.log, hn]
  | @drop receipt hget =>
    have hm : receipt ∈ s.receipts := mem_of_getElem? hget
    have hf := flags_drop s.dirty receipt
    refine h.of_erase hf.1 hf.2.1 ?_ rfl rfl rfl rfl rfl rfl rfl
    by_cases hd : receipt.Live
    · rw [hd.drop]
      by_cases hk : k ∈ receipt.keys.map (·.key)
      · obtain ⟨member, hme⟩ := h.present ((s.keys_sublist_holders hm).subset hk)
        obtain ⟨entry, he, rfl⟩ := mem_map.mp hk
        have hfi := finished_finish (hsy.nodup_keys hm) he hme false
        cases ha : (s.dirty.finish receipt.keys false).members.get entry.key with
        | none =>
          rw [ha] at hfi
          obtain ⟨-, -, hc, -⟩ := hfi
          simp at hc
        | some member' =>
          rw [ha] at hfi
          cases hfi with
          | kept queued => simp [hme, settleMember, DirtyMember.lane]
      · rw [get_finish_of_notMem hk]
    · rw [members_drop s.dirty hd]

end

theorem boundary_of_run {acts : List Action}
    (h : Run step (fun _ => KeepsMember k) new acts s) : Boundary k s := by
  have hst : ∀ s a t,
      s.Base ∧ s.Failing ∧ s.Frozen False ∧ s.Issued ∧ Boundary k s → KeepsMember k a →
      step s a = some t →
      t.Base ∧ t.Failing ∧ t.Frozen False ∧ t.Issued ∧ Boundary k t := by
    rintro s a t ⟨hsy, hfa, hf, hi, hb⟩ hok hs
    refine ⟨hsy.step hs, hfa.step hsy (terminalStep_of_step hs), hf.step hsy hfa False.elim hs,
      hi.step hs, ?_⟩
    have hl : s.IssuedLive := by
      have hle := (hf.early (.inl hb.unfrozen.1)).1
      simp only [leases, batches, flatten_cons, append_eq_nil_iff] at hle
      exact ⟨hi, by simpa using hle.2⟩
    cases a with
    | feed a => exact hb.feedStep hsy hl hok (feedStep_of_step hs)
    | receiver a => exact hb.receiverStep hsy hf hok (receiverStep_of_step hs)
    | receipt a i => exact hb.receiptStep hsy hl (receiptStep_of_step hs)
  exact (h.invariant hst ⟨base_new, failing_new, frozen_new False, issued_new,
    boundary_new k⟩).2.2.2.2

/-- Whatever updates, losses, selections, captures, commits and drops come in between, two
committed valid rows of a topic on the two sides of a loss have a committed invalid row
between them. -/
theorem separated_of_run {k : ℕ} {actions : List Action} {s : System}
    (h : Run step (fun _ => KeepsMember k) new actions s) :
    Separated (·.row.valid) DeliveredRow.revision (s.log k) (s.losses k) :=
  (boundary_of_run h).separated

private def quoteRow : ImageRow :=
  ⟨"IBM US Equity", none, true, none, true, ⟨1, []⟩, none⟩

/-- A valid row, a loss, the recovery from it, and the two rows that follow. -/
theorem separated_of_run_recovered : ∃ s : System, Run step (fun _ => KeepsMember 0) new
        [.feed (.lock 0), .feed (.register 0 "IBM US Equity" false), .feed (.unlock 0),
          .receiver (.tryRecv 1), .receiver (.capture quoteRow), .receiver .settle,
          .receiver .issue, .receipt .commit 0, .feed (.lock 0), .feed (.advance 0),
          .feed (.dataLoss 0), .feed (.unlock 0), .feed (.lock 0), .feed (.advance 0),
          .feed (.mark 0), .feed (.unlock 0), .receiver (.tryRecv 1),
          .receiver (.capture quoteRow), .receiver .settle, .receiver .issue, .receipt .commit 0,
          .receiver (.tryRecv 1), .receiver (.capture quoteRow), .receiver .settle,
          .receiver .issue, .receipt .commit 0] s ∧
      s.losses 0 = [1] ∧
      (s.log 0).map (fun row => (row.revision, row.row.valid)) =
        [(0, true), (2, false), (2, true)] ∧
      Separated (·.row.valid) DeliveredRow.revision (s.log 0) (s.losses 0) := by
  exact Run.exists_imp (Q := fun s => s.losses 0 = [1] ∧
      (s.log 0).map (fun row => (row.revision, row.row.valid)) = [(0, true), (2, false), (2, true)])
    (fun _ hrun hend => ⟨hend.1, hend.2, separated_of_run hrun⟩)
    ⟨_, .of_runActions (by simp [KeepsMember]) rfl, rfl, rfl⟩

end System

end Xbbg.StateDelivery
