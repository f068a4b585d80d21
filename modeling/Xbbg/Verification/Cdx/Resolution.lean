import Mathlib.Data.Int.ConditionallyCompleteOrder
import Mathlib.Data.Nat.SuccPred
import Xbbg.Verification.Cdx.Ladder

/-! # The series on a date

Resolution is the walk down the series, however the windows are cut, as long as the accrual starts
that are reported fall from series to series. -/

namespace Xbbg.Cdx

open List Library Currency Tickers Option

variable {r : CdxReadings}

/-! ## Metadata -/

/-- The accrual start and the version that a reply has for a ticker. -/
structure Answers (r : CdxReadings) (metadata : RefdataIndex) (ticker : String) (date : Option ℤ)
    (version : Option ℕ) : Prop where
  date_eq : metadata.date r ticker accrualField = date
  version_eq : (metadata.string r ticker "VERSION").bind (parseSeriesNumber r) = version

theorem toOption_requiredCdxDate (metadata : RefdataIndex) (ticker field : String) :
    (requiredCdxDate r metadata ticker field).toOption = metadata.date r ticker field := by
  unfold requiredCdxDate
  split
  · rename_i hn
    rw [hn]
    rfl
  · rename_i hs
    rw [hs]
    rfl

theorem toOption_requiredCdxNumber (md : RefdataIndex) (ticker f : String) :
    (requiredCdxNumber r md ticker f).toOption =
      (md.string r ticker f).bind (parseSeriesNumber r) := by
  unfold requiredCdxNumber
  split
  · rename_i hno
    rw [hno]
    rfl
  · rename_i raw hs
    rw [hs, bind_some]
    split
    · rename_i number hn
      rw [hn]
      rfl
    · rename_i hn
      rw [hn]
      rfl

theorem parseSeriesNumber_bounds {v : String} {n : ℕ} (h : parseSeriesNumber r v = some n) :
    0 < n ∧ n < 4294967296 := by
  unfold parseSeriesNumber at h
  split at h
  · rename_i number hp
    split at h
    · rename_i hpo
      cases h
      exact ⟨hpo, lt_of_parseUnsigned hp⟩
    · cases h
  · split at h
    · rename_i number hf
      split at h
      · rename_i hr
        obtain ⟨hd, ho, ht⟩ := hr
        cases h
        have hn : number = (number.num : ℚ) := (Rat.coe_int_num_of_den_eq_one hd).symm
        rw [hn] at ho ht
        have hl : (1 : ℤ) ≤ number.num := by exact_mod_cast ho
        have hh : number.num ≤ (4294967295 : ℤ) := by exact_mod_cast ht
        omega
      · cases h
    · cases h

theorem Answers.version_pos {md : RefdataIndex} {ticker : String} {date : Option ℤ} {v : ℕ}
    (h : Answers r md ticker date (some v)) : 0 < v := by
  obtain ⟨raw, -, hr⟩ := bind_eq_some_iff.mp h.version_eq
  exact (parseSeriesNumber_bounds hr).1

theorem resolve_seriesOf (info : ParsedCdxInfo) {n v : ℕ} (hn : 0 < n) (hv : 0 < v) :
    ResolvedCdxInfo.resolve (seriesOf info n) n v =
      .ok ⟨info.index, n, v, info.tenor, info.asset, hn, hv⟩ := by
  simp [ResolvedCdxInfo.resolve, seriesOf, hn, hv]

theorem resolve_of_generic {info : ParsedCdxInfo} (hg : info.isGeneric = true)
    (hve : info.version = none) {n v : ℕ} (hn : 0 < n) (hv : 0 < v) :
    ResolvedCdxInfo.resolve info n v = .ok ⟨info.index, n, v, info.tenor, info.asset, hn, hv⟩ := by
  simp [ResolvedCdxInfo.resolve, hg, hve, hn, hv]

/-- What the engine reports about the series of a generic ticker: the current series, and the
accrual start and version of it and of every series below, whichever of them are requested
together. -/
structure Replies (r : CdxReadings) (engine : CdxEngine) (genTicker : String)
    (info : ParsedCdxInfo) (current : ℕ) (date : ℕ → Option ℤ) (version : ℕ → Option ℕ) :
    Prop where
  parsed : parseCdxTicker genTicker = .ok info
  generic : info.isGeneric = true
  head : ∃ batch metadata, engine.request [genTicker] = .ok batch ∧
    RefdataIndex.new batch engine.keyColumn.asStr = .ok metadata ∧
    (metadata.string r genTicker "ROLLING_SERIES").bind (parseSeriesNumber r) = some current ∧
    Answers r metadata genTicker (date current) (version current)
  window : ∀ lo hi, 1 ≤ lo → lo ≤ hi → hi < current → ∃ batch metadata,
    engine.request ((List.range' lo (hi + 1 - lo)).map (seriesTicker info)) = .ok batch ∧
    RefdataIndex.new batch engine.keyColumn.asStr = .ok metadata ∧
    ∀ n, lo ≤ n → n ≤ hi → Answers r metadata (seriesTicker info n) (date n) (version n)

section Resolution

variable {engine : CdxEngine} {genTicker : String} {info : ParsedCdxInfo} {current : ℕ}
  {date : ℕ → Option ℤ} {version : ℕ → Option ℕ} {dt : ℤ}

theorem Replies.current_bounds (h : Replies r engine genTicker info current date version) :
    0 < current ∧ current < 4294967296 := by
  obtain ⟨b, md, -, -, hs, -⟩ := h.head
  obtain ⟨raw, -, hr⟩ := bind_eq_some_iff.mp hs
  exact parseSeriesNumber_bounds hr

theorem resolveCdxLadder_eq (h : Replies r engine genTicker info current date version)
    {lo hi : ℕ} (hlo : 1 ≤ lo) (hle : lo ≤ hi) (hhi : hi < current) (dt : ℤ) :
    ∃ md, (∀ n ∈ descending (lo, hi), Answers r md (seriesTicker info n) (date n) (version n)) ∧
      resolveCdxLadder r engine genTicker dt lo hi = pickRungs r md genTicker dt none
          ((descending (lo, hi)).map fun n => (n, seriesTicker info n)) := by
  obtain ⟨b, md, hr, hnw, ha⟩ := h.window lo hi hlo hle hhi
  refine ⟨md, fun n hn => ha n (mem_descending.mp hn).1 (mem_descending.mp hn).2, ?_⟩
  have hal : (range' lo (hi + 1 - lo)).mapM (fun series => ofExt (genToSpecific genTicker series)) =
      .ok ((range' lo (hi + 1 - lo)).map (seriesTicker info)) := by
    apply mapM_eq_ok_map
    intro n hn
    have hp : 0 < n := by
      have hb := mem_range'_1.mp hn
      omega
    rw [genToSpecific_of_pos h.parsed h.generic hp]
    rfl
  have hru : ((range' lo (hi + 1 - lo)).map (seriesTicker info)).zipIdx.map
      (fun e => (lo + e.2, e.1)) =
      (range' lo (hi + 1 - lo)).map fun n => (n, seriesTicker info n) := by
    apply ext_getElem
    · simp
    · intro i hi hi'
      simp
  have hne : ((range' lo (hi + 1 - lo)).map (seriesTicker info)).isEmpty = false := by
    simp only [isEmpty_eq_false_iff, ne_eq, map_eq_nil_iff, range'_eq_nil_iff]
    omega
  rw [resolveCdxLadder, hal]
  simp only [bind, Except.bind, requestCdxMetadata, hr, pickCdxLadderSeries, hne,
    Bool.false_eq_true, if_false, hnw, hru, descending, map_reverse]

/-! ## Resolution as a walk -/

def CdxSeriesAt.reading (found : CdxSeriesAt) : ℕ × ℕ × ℤ :=
  (found.info.series, found.info.version, found.accrualStart)

/-- Accrual starts that are reported fall from series to series. -/
def Falling (date : ℕ → Option ℤ) (current : ℕ) : Prop :=
  ∀ m n d e, 1 ≤ m → m < n → n ≤ current → date m = some d → date n = some e → d < e

theorem toOption_pickRungs {metadata : RefdataIndex} (l : List ℕ) (above : Option (ℕ × ℤ))
    (ha : ∀ n ∈ l, Answers r metadata (seriesTicker info n) (date n) (version n))
    (hp : ∀ n ∈ l, 0 < n ∧ parseCdxTicker (seriesTicker info n) = .ok (seriesOf info n))
    (hf : l.Pairwise fun n m => ∀ d e, date n = some d → date m = some e → e < d)
    (hab : ∀ rung ∈ above, ∀ n ∈ l, ∀ d, date n = some d → d < rung.2) :
    (pickRungs r metadata genTicker dt above
      (l.map fun n => (n, seriesTicker info n))).toOption.map (Option.map CdxSeriesAt.reading) =
      walk date version dt l := by
  induction l generalizing above with
  | nil => rfl
  | cons n rest ih =>
    have hn := ha n mem_cons_self
    rw [map_cons, pickRungs, walk]
    have hd := toOption_requiredCdxDate (r := r) metadata (seriesTicker info n) accrualField
    rw [hn.date_eq] at hd
    cases hda : date n with
    | none =>
      rw [hda] at hd
      obtain ⟨error, her⟩ := exists_error_of_toOption hd
      rw [her]
      rfl
    | some d =>
      rw [hda] at hd
      have hfi : above.filter (fun rung => decide (rung.2 ≤ d)) = none := by
        cases above with
        | none => rfl
        | some rung =>
          have hlt := hab rung rfl n mem_cons_self d hda
          simp only [filter_some, decide_eq_true_eq, ite_eq_right_iff]
          intro hle
          omega
      rw [eq_ok_of_toOption hd]
      simp only [bind, Except.bind, hfi]
      by_cases hle : d ≤ dt
      · rw [if_pos hle, if_pos hle]
        have hnu := toOption_requiredCdxNumber (r := r) metadata (seriesTicker info n) "VERSION"
        rw [hn.version_eq] at hnu
        cases hv : version n with
        | none =>
          rw [hv] at hnu
          obtain ⟨error, her⟩ := exists_error_of_toOption hnu
          rw [her]
          rfl
        | some v =>
          rw [hv] at hnu hn
          obtain ⟨hpo, hpa⟩ := hp n mem_cons_self
          rw [eq_ok_of_toOption hnu, hpa]
          simp only [ofExt, resolve_seriesOf info hpo hn.version_pos]
          rfl
      · rw [if_neg hle, if_neg hle]
        obtain ⟨hh, ht⟩ := pairwise_cons.mp hf
        refine ih _ (fun m hm => ha m (mem_cons_of_mem n hm))
          (fun m hm => hp m (mem_cons_of_mem n hm)) ht ?_
        intro rung hr m hm e he
        obtain rfl := mem_some_iff.mp hr
        exact hh m hm d e hda he

theorem toOption_probeAll {α ε : Type} {probe : ℕ → ℕ → Except ε (Option α)} {exhausted : ε}
    {rd : α → ℕ × ℕ × ℤ} {windows : List (ℕ × ℕ)}
    (hp : ∀ w ∈ windows, (probe w.1 w.2).toOption.map (Option.map rd) =
      walk date version dt (descending w)) :
    (probeAll probe exhausted windows).toOption.map rd =
      (walk date version dt (windows.flatMap descending)).join := by
  induction windows with
  | nil => rfl
  | cons w rest ih =>
    obtain ⟨lo, hi⟩ := w
    have hf := hp (lo, hi) mem_cons_self
    rw [flatMap_cons, walk_append, ← hf, probeAll]
    dsimp only
    rcases probe lo hi with e | (_ | x)
    · rfl
    · exact ih fun w hw => hp w (mem_cons_of_mem _ hw)
    · rfl

theorem pairwise_descending (hf : Falling date current) {lo hi : ℕ} (hlo : 1 ≤ lo)
    (hhi : hi ≤ current) :
    (descending (lo, hi)).Pairwise fun n m => ∀ d e, date n = some d → date m = some e → e < d := by
  rw [descending, pairwise_reverse]
  refine (pairwise_lt_range' (s := lo)).imp_of_mem ?_
  intro m n hm hn hlt d e hd he
  have hmb := mem_range'_1.mp hm
  have hnb := mem_range'_1.mp hn
  exact hf m n e d (by omega) hlt (by omega) he hd

section Plain

variable (h : Replies r engine genTicker info current date version) (hp : info.version = none)
variable (hf : Falling date current)
include h hp hf

theorem toOption_resolveCdxLadder {lo hi : ℕ} (hlo : 1 ≤ lo) (hle : lo ≤ hi) (hhi : hi < current) :
    (resolveCdxLadder r engine genTicker dt lo hi).toOption.map (Option.map CdxSeriesAt.reading) =
      walk date version dt (descending (lo, hi)) := by
  obtain ⟨md, ha, hl⟩ := resolveCdxLadder_eq h hlo hle hhi dt
  have hbo := h.current_bounds.2
  rw [hl]
  apply toOption_pickRungs _ none ha _ (pairwise_descending hf hlo hhi.le) (by simp)
  intro n hn
  have hb := mem_descending.mp hn
  exact ⟨by omega, parseCdxTicker_seriesTicker h.parsed hp (by omega) (by omega)⟩

theorem toOption_resolveCdxSeriesAt (subMonths : ℕ → ℤ → Option ℤ) (dt : ℤ) :
    (resolveCdxSeriesAt r subMonths engine genTicker dt).toOption.map CdxSeriesAt.reading =
      (walk date version dt (descending (1, current))).join := by
  have hpo := h.current_bounds.1
  obtain ⟨batch, metadata, hr, hne, hs, ha⟩ := h.head
  have hn := toOption_requiredCdxNumber (r := r) metadata genTicker "ROLLING_SERIES"
  rw [hs] at hn
  have hd := toOption_requiredCdxDate (r := r) metadata genTicker accrualField
  rw [ha.date_eq] at hd
  obtain ⟨below, rfl⟩ : ∃ below, current = below + 1 := ⟨current - 1, by omega⟩
  rw [descending_succ (by omega), walk, resolveCdxSeriesAt, h.parsed]
  simp only [ofExt, bind, Except.bind, h.generic, Bool.not_true, Bool.false_eq_true, if_false,
    requestCdxMetadata, hr, hne, eq_ok_of_toOption hn]
  cases hda : date (below + 1) with
  | none =>
    rw [hda] at hd
    obtain ⟨error, he⟩ := exists_error_of_toOption hd
    rw [he]
    rfl
  | some start =>
    rw [hda] at hd
    rw [eq_ok_of_toOption hd]
    dsimp only
    by_cases hle : start ≤ dt
    · rw [if_pos hle, if_pos hle]
      have hv := toOption_requiredCdxNumber (r := r) metadata genTicker "VERSION"
      rw [ha.version_eq] at hv
      cases hve : version (below + 1) with
      | none =>
        rw [hve] at hv
        obtain ⟨error, he⟩ := exists_error_of_toOption hv
        rw [he]
        rfl
      | some v =>
        rw [hve] at hv ha
        rw [eq_ok_of_toOption hv]
        simp only [resolve_of_generic h.generic hp hpo ha.version_pos]
        rfl
    · rw [if_neg hle, if_neg hle]
      have hc := covers_probedWindows subMonths hpo (not_le.mp hle)
      rw [Nat.add_sub_cancel] at hc
      unfold probedWindows at hc
      cases hpr : cdxPriorSeriesWindow subMonths (below + 1) start dt with
      | none =>
        rw [hpr] at hc
        rw [← hc.series]
        rfl
      | some window =>
        obtain ⟨lo, hi⟩ := window
        rw [hpr] at hc
        dsimp only at hc ⊢
        rw [← hc.series, probeWindows_eq_probeAll]
        apply toOption_probeAll
        intro window hw
        obtain ⟨hlo, hwi⟩ := hc.nonempty window hw
        have ht := hc.le_top hw
        exact toOption_resolveCdxLadder h hp hf hlo hwi (by omega)

theorem reading_iff (subMonths : ℕ → ℤ → Option ℤ) (dt : ℤ) (n v : ℕ) (start : ℤ) :
    (∃ x, resolveCdxSeriesAt r subMonths engine genTicker dt = .ok x ∧ x.reading = (n, v, start)) ↔
      (1 ≤ n ∧ n ≤ current ∧ date n = some start ∧ start ≤ dt ∧ version n = some v) ∧
        ∀ m, n < m → m ≤ current → ∃ d, date m = some d ∧ dt < d := by
  rw [← walk_descending, ← toOption_resolveCdxSeriesAt h hp hf subMonths dt, map_eq_some_iff]
  constructor
  · rintro ⟨x, hok, hr⟩
    exact ⟨x, by rw [hok]; rfl, hr⟩
  · rintro ⟨x, ho, hr⟩
    exact ⟨x, eq_ok_of_toOption ho, hr⟩

end Plain

/-! ## The greatest series that has started -/

def started (accrual : ℕ → ℤ) (current : ℕ) (dt : ℤ) : Set ℕ :=
  {n | 1 ≤ n ∧ n ≤ current ∧ accrual n ≤ dt}

variable {accrual : ℕ → ℤ}

theorem exists_isGreatest_started {dt : ℤ} (hne : started accrual current dt ≠ ∅) :
    ∃ n, IsGreatest (started accrual current dt) n := by
  have hb : BddAbove (started accrual current dt) := ⟨current, fun m hm => hm.2.1⟩
  exact hb.exists_isGreatest_of_nonempty (Set.nonempty_iff_ne_empty.mpr hne)

section Rising

variable (h : Replies r engine genTicker info current date version) (hpl : info.version = none)
variable (hmo : StrictMonoOn accrual (Set.Icc 1 current))
variable (hda : ∀ n d, 1 ≤ n → n ≤ current → date n = some d → d = accrual n)
include hmo hda

theorem falling_of_strictMonoOn : Falling date current := by
  intro m n d e hm hlt hn hd he
  rw [hda m d hm (by omega) hd, hda n e (by omega) hn he]
  exact hmo ⟨hm, by omega⟩ ⟨by omega, hn⟩ hlt

include h hpl

theorem isGreatest_of_ok {subMonths : ℕ → ℤ → Option ℤ} {dt : ℤ} {x : CdxSeriesAt}
    (hok : resolveCdxSeriesAt r subMonths engine genTicker dt = .ok x) :
    IsGreatest (started accrual current dt) x.info.series ∧ x.accrualStart = accrual x.info.series ∧
      version x.info.series = some x.info.version := by
  have hf := falling_of_strictMonoOn hmo hda
  obtain ⟨⟨hp, hle, hn, hs, hv⟩, habo⟩ :=
    (reading_iff h hpl hf subMonths dt _ _ _).mp ⟨x, hok, rfl⟩
  have ha := hda _ _ hp hle hn
  refine ⟨⟨⟨hp, hle, by omega⟩, ?_⟩, ha, hv⟩
  rintro m ⟨hm, hml, hmt⟩
  by_contra hlt
  obtain ⟨d, hd, hdt⟩ := habo m (by omega) hml
  have hmd := hda m d hm hml hd
  omega

/-- Resolution fails exactly if no series has started, or a date or version is missing that it
needs. -/
theorem exists_error_iff (subMonths : ℕ → ℤ → Option ℤ) (dt : ℤ) :
    (∃ e, resolveCdxSeriesAt r subMonths engine genTicker dt = .error e) ↔
      started accrual current dt = ∅ ∨ ∃ n, IsGreatest (started accrual current dt) n ∧
        (version n = none ∨ ∃ m, n ≤ m ∧ m ≤ current ∧ date m = none) := by
  have hf := falling_of_strictMonoOn hmo hda
  constructor
  · rintro ⟨e, her⟩
    by_cases he : started accrual current dt = ∅
    · exact .inl he
    · obtain ⟨n, hg⟩ := exists_isGreatest_started he
      refine .inr ⟨n, hg, ?_⟩
      by_contra hno
      push Not at hno
      obtain ⟨hve, hr⟩ := hno
      obtain ⟨v, hv⟩ := ne_none_iff_exists'.mp hve
      obtain ⟨⟨hpo, hle, hn⟩, hmax⟩ := hg
      obtain ⟨start, hs⟩ := ne_none_iff_exists'.mp (hr n (le_refl n) hle)
      have ha := hda n start hpo hle hs
      obtain ⟨x, hok, -⟩ := (reading_iff h hpl hf subMonths dt n v start).mpr
        ⟨⟨hpo, hle, hs, by omega, hv⟩, by
          intro m hlt hm
          obtain ⟨d, hd⟩ := ne_none_iff_exists'.mp (hr m hlt.le hm)
          refine ⟨d, hd, ?_⟩
          by_contra hdt
          have hmd := hda m d (by omega) hm hd
          have hme : m ∈ started accrual current dt := ⟨by omega, hm, by omega⟩
          have hmn := hmax hme
          omega⟩
      rw [hok] at her
      cases her
  · intro hmi
    cases hre : resolveCdxSeriesAt r subMonths engine genTicker dt with
    | error e => exact ⟨e, rfl⟩
    | ok x =>
      exfalso
      obtain ⟨hg, -, hve⟩ := isGreatest_of_ok h hpl hmo hda hre
      obtain ⟨⟨-, -, hs, -⟩, habo⟩ :=
        (reading_iff h hpl hf subMonths dt _ _ _).mp ⟨x, hre, rfl⟩
      rcases hmi with he | ⟨n, hn, hno⟩
      · rw [he] at hg
        exact hg.1
      · obtain rfl := hn.unique hg
        rcases hno with hno | ⟨m, hle, hm, hno⟩
        · rw [hno] at hve
          cases hve
        · rcases hle.eq_or_lt with rfl | hlt
          · rw [hno] at hs
            cases hs
          · obtain ⟨d, hd, -⟩ := habo m hlt hm
            rw [hno] at hd
            cases hd

end Rising

/-- Resolution of a generic ticker without a version, for accrual starts that rise with the series:
the windows cover the series below the current one, the answer is the greatest series that has
started and rises with the date, and the estimate of the rolls does not matter. -/
theorem resolveCdxSeriesAt_isGreatest {accrual : ℕ → ℤ}
    (h : Replies r engine genTicker info current date version) (hplain : info.version = none)
    (hmono : StrictMonoOn accrual (Set.Icc 1 current))
    (hdate : ∀ n d, 1 ≤ n → n ≤ current → date n = some d → d = accrual n)
    (subMonths : ℕ → ℤ → Option ℤ) :
    (∀ dt, dt < accrual current →
      Covers (probedWindows subMonths current (accrual current) dt) (current - 1) ∧
      ∀ lo hi (probe : ℕ → ℕ → Except RecipeError (Option CdxSeriesAt)) exhausted,
        cdxPriorSeriesWindow subMonths current (accrual current) dt = some (lo, hi) →
        probeWindows probe exhausted lo hi =
          probeAll probe exhausted (probedWindows subMonths current (accrual current) dt)) ∧
    (∀ dt found, resolveCdxSeriesAt r subMonths engine genTicker dt = .ok found →
      IsGreatest (started accrual current dt) found.info.series ∧
        found.accrualStart = accrual found.info.series ∧
        version found.info.series = some found.info.version) ∧
    (∀ dt, (∃ error, resolveCdxSeriesAt r subMonths engine genTicker dt = .error error) ↔
      started accrual current dt = ∅ ∨ ∃ n, IsGreatest (started accrual current dt) n ∧
        (version n = none ∨ ∃ m, n ≤ m ∧ m ≤ current ∧ date m = none)) ∧
    (∀ dt dt' found found', dt ≤ dt' →
      resolveCdxSeriesAt r subMonths engine genTicker dt = .ok found →
      resolveCdxSeriesAt r subMonths engine genTicker dt' = .ok found' →
      found.info.series ≤ found'.info.series) ∧
    ∀ subMonths' dt,
      (resolveCdxSeriesAt r subMonths engine genTicker dt).toOption.map CdxSeriesAt.reading =
        (resolveCdxSeriesAt r subMonths' engine genTicker dt).toOption.map
          CdxSeriesAt.reading := by
  have hfalls := falling_of_strictMonoOn hmono hdate
  refine ⟨?_, ?_, exists_error_iff h hplain hmono hdate subMonths, ?_, ?_⟩
  · intro dt hlt
    refine ⟨covers_probedWindows subMonths h.current_bounds.1 hlt, ?_⟩
    intro lo hi probe exhausted hprior
    rw [probeWindows_eq_probeAll, probedWindows, hprior]
  · intro dt found hok
    exact isGreatest_of_ok h hplain hmono hdate hok
  · intro dt dt' found found' hle hok hok'
    obtain ⟨⟨hmem, -⟩, -⟩ := isGreatest_of_ok h hplain hmono hdate hok
    obtain ⟨⟨-, hmax⟩, -⟩ := isGreatest_of_ok h hplain hmono hdate hok'
    exact hmax ⟨hmem.1, hmem.2.1, hmem.2.2.trans hle⟩
  · intro subMonths' dt
    rw [toOption_resolveCdxSeriesAt h hplain hfalls, toOption_resolveCdxSeriesAt h hplain hfalls]

end Resolution

/-! ## Replies with a table of values -/

/-- Readings for ASCII text; dates are written as natural numbers. -/
def decimalReadings : CdxReadings where
  isWhitespace := Char.isWhitespace
  isLowercase := Char.isLower
  toUppercase s := s
  parseFloat _ := none
  display _ _ := ""
  parseDate _ := none
  displayDate _ := none
  fmtDate _ := none
  castDate _ _ := .ok none
  parseAnyDate s := (parseU32 s.toList).map Int.ofNat
  naiveDate _ := none
  showDate _ := ""

abbrev Table := List (String × String × String)

def Table.columns (table : Table) : List Column :=
  [⟨"ticker", .plain (.text .utf8 (table.map fun row => some row.1))⟩,
    ⟨"field", .plain (.text .utf8 (table.map fun row => some row.2.1))⟩,
    ⟨"value", .plain (.text .utf8 (table.map fun row => some row.2.2))⟩]

theorem Table.rectangular (table : Table) :
    ∀ col ∈ table.columns, col.array.length = table.length := by
  simp [Table.columns, ColumnArray.length, Values.length]

def Table.engine (table : Table) : CdxEngine where
  keyColumn := .ticker
  request _ := .ok ⟨table.columns, table.length, table.rectangular⟩

def Table.index (table : Table) : RefdataIndex :=
  ⟨table.map fun row => some row.1, table.map fun row => some row.2.1,
    .plain (.text .utf8 (table.map fun row => some row.2.2)), table.length⟩

theorem Table.replies {table : Table} {genTicker : String} {info : ParsedCdxInfo} {current : ℕ}
    {date : ℕ → Option ℤ} {version : ℕ → Option ℕ} (hp : parseCdxTicker genTicker = .ok info)
    (hg : info.isGeneric = true)
    (hc : (table.index.string decimalReadings genTicker "ROLLING_SERIES").bind
      (parseSeriesNumber decimalReadings) = some current)
    (hh : Answers decimalReadings table.index genTicker (date current) (version current))
    (hs : ∀ n, 1 ≤ n → n < current →
      Answers decimalReadings table.index (seriesTicker info n) (date n) (version n)) :
    Replies decimalReadings table.engine genTicker info current date version where
  parsed := hp
  generic := hg
  head := ⟨_, table.index, rfl, rfl, hc, hh⟩
  window lo hi hlo hle hhi :=
    ⟨_, table.index, rfl, rfl, fun n hn hn' => hs n (by omega) (by omega)⟩

/-- A generic ticker that has a version of its own, which is not the one reported. -/
def versioned : Table :=
  [("CDX IG CDSI GEN V2 5Y Corp", "ROLLING_SERIES", "1"),
    ("CDX IG CDSI GEN V2 5Y Corp", "CDS_FIRST_ACCRUAL_START_DATE", "100"),
    ("CDX IG CDSI GEN V2 5Y Corp", "VERSION", "1")]

def versionedInfo : ParsedCdxInfo := ⟨"CDX IG CDSI", "GEN", some 2, "5Y", "Corp", true, none⟩

theorem resolveCdxSeriesAt_version_conflict :
    Replies decimalReadings versioned.engine "CDX IG CDSI GEN V2 5Y Corp" versionedInfo 1
        (fun _ => some 100) (fun _ => some 1) ∧
      IsGreatest (started (fun _ => 100) 1 150) 1 ∧
      ∃ error, resolveCdxSeriesAt decimalReadings (fun _ _ => none) versioned.engine
        "CDX IG CDSI GEN V2 5Y Corp" 150 = .error error := by
  refine ⟨Table.replies (by decide +kernel) rfl (by decide +kernel)
    ⟨by decide +kernel, by decide +kernel⟩ (by omega), ⟨⟨by omega, by omega, by decide⟩, ?_⟩, ?_⟩
  · rintro m ⟨-, hle, -⟩
    exact hle
  · exact exists_error_of_toOption (isNone_iff_eq_none.mp (by decide +kernel))

/-- Three series with the given accrual starts. -/
def threeSeries (third second first : String) : Table :=
  [("CDX IG CDSI GEN 5Y Corp", "ROLLING_SERIES", "3"),
    ("CDX IG CDSI GEN 5Y Corp", "CDS_FIRST_ACCRUAL_START_DATE", third),
    ("CDX IG CDSI GEN 5Y Corp", "VERSION", "1"),
    ("CDX IG CDSI S2 5Y Corp", "CDS_FIRST_ACCRUAL_START_DATE", second),
    ("CDX IG CDSI S2 5Y Corp", "VERSION", "1"),
    ("CDX IG CDSI S1 5Y Corp", "CDS_FIRST_ACCRUAL_START_DATE", first),
    ("CDX IG CDSI S1 5Y Corp", "VERSION", "1")]

def rising : Table := threeSeries "300" "200" "100"

def genericInfo : ParsedCdxInfo := ⟨"CDX IG CDSI", "GEN", none, "5Y", "Corp", true, none⟩

theorem rising_replies :
    Replies decimalReadings rising.engine "CDX IG CDSI GEN 5Y Corp" genericInfo 3
      (fun n => some (100 * n)) (fun _ => some 1) := by
  refine Table.replies (by decide +kernel) rfl (by decide +kernel)
    ⟨by decide +kernel, by decide +kernel⟩ ?_
  intro n hn hlt
  obtain rfl | rfl : n = 1 ∨ n = 2 := by omega
  · exact ⟨by decide +kernel, by decide +kernel⟩
  · exact ⟨by decide +kernel, by decide +kernel⟩

theorem resolveCdxSeriesAt_isGreatest_rising :
    ∃ found, resolveCdxSeriesAt decimalReadings (fun _ _ => none) rising.engine
      "CDX IG CDSI GEN 5Y Corp" 250 = .ok found ∧ found.info.series = 2 := by
  have hmono : StrictMonoOn (fun n : ℕ => (100 * n : ℤ)) (Set.Icc 1 3) := by
    intro m _ n _ hlt
    dsimp only
    omega
  obtain ⟨-, hgreatest, herror, -⟩ := resolveCdxSeriesAt_isGreatest rising_replies rfl hmono
    (fun n d _ _ hd => (some.inj hd).symm) fun _ _ => none
  have htwo : IsGreatest (started (fun n => 100 * n) 3 250) 2 := by
    refine ⟨⟨by omega, by omega, by decide⟩, ?_⟩
    rintro m ⟨-, -, hm⟩
    dsimp only at hm
    omega
  cases hresult : resolveCdxSeriesAt decimalReadings (fun _ _ => none) rising.engine
    "CDX IG CDSI GEN 5Y Corp" 250 with
  | error error =>
    rcases (herror 250).mp ⟨error, hresult⟩ with hempty | ⟨n, -, hnone | ⟨m, -, -, hnone⟩⟩
    · rw [hempty] at htwo
      exact absurd htwo.1 (Set.notMem_empty 2)
    · cases hnone
    · cases hnone
  | ok found => exact ⟨found, rfl, (hgreatest 250 found hresult).1.unique htwo⟩

end Xbbg.Cdx
