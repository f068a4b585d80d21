import Xbbg.Verification.Cdx.Resolution

/-! # Accrual starts along the ladder

The order of the accrual starts is checked inside a window only. The dates above an answer fall
strictly exactly if they also do so from each window to the series above it. -/

namespace Xbbg.Cdx

open Library Currency Tickers

/-- A series and the one above it both report accrual starts, in the right order. -/
def StartsBefore (date : ℕ → Option ℤ) (n : ℕ) : Prop :=
  ∃ d e, date n = some d ∧ date (n + 1) = some e ∧ d < e

/-- The accrual starts of a series and the one above it are in the right order, if they are
reported. -/
def Ordered (date : ℕ → Option ℤ) (n : ℕ) : Prop :=
  ∀ d e, date n = some d → date (n + 1) = some e → d < e

theorem Ordered.startsBefore {date : ℕ → Option ℤ} {n : ℕ} (h : Ordered date n)
    (hn : (date n).isSome) (ha : (date (n + 1)).isSome) : StartsBefore date n := by
  obtain ⟨d, hd⟩ := Option.isSome_iff_exists.mp hn
  obtain ⟨e, he⟩ := Option.isSome_iff_exists.mp ha
  exact ⟨d, e, hd, he, h d e hd he⟩

variable {parsed : ParsedCdxInfo} {x : ResolvedCdxInfo}

theorem series_of_resolve {series version : ℕ}
    (h : ResolvedCdxInfo.resolve parsed series version = .ok x) : x.series = series := by
  unfold ResolvedCdxInfo.resolve at h
  split at h
  · split at h
    · split at h
      · cases h
      · split at h
        · cases h
        · rw [← Except.ok.inj h]
    · cases h
  · cases h

theorem series_of_ofExt_resolve {series version : ℕ}
    (h : ofExt (ResolvedCdxInfo.resolve parsed series version) = .ok x) :
    x.series = series := by
  unfold ofExt at h
  split at h
  · rename_i hr
    cases h
    exact series_of_resolve hr
  · cases h

variable {r : CdxReadings} {engine : CdxEngine} {genTicker : String} {info : ParsedCdxInfo}
  {current : ℕ} {date : ℕ → Option ℤ} {version : ℕ → Option ℕ} {dt : ℤ}

/-- The lowest series that a probe of a window has looked at. -/
def reached (lo : ℕ) (outcome : Option CdxSeriesAt) : ℕ :=
  outcome.elim lo fun found => found.info.series

/-- What a probe of the series from `lo` to `hi` has shown: an answer is one of them that has
started, and everything down to the lowest series that was looked at reports a date, after `dt`
above an answer and before the one above it within the series. -/
structure Shown (date : ℕ → Option ℤ) (dt : ℤ) (lo hi : ℕ) (out : Option CdxSeriesAt) :
    Prop where
  started : ∀ x ∈ out, x.info.series ≤ hi ∧ ∃ d, date x.info.series = some d ∧ d ≤ dt
  reported : ∀ m, reached lo out ≤ m → m ≤ hi →
    ∃ d, date m = some d ∧ ((∀ x ∈ out, x.info.series < m) → dt < d)
  ordered : ∀ m, reached lo out ≤ m → m < hi → StartsBefore date m

variable {out : Option CdxSeriesAt}

theorem shown_of_lt {lo hi : ℕ} (h : hi < lo) : Shown date dt lo hi none := by
  refine ⟨by simp, fun m hm hmh => ?_, fun m hm hmh => ?_⟩
  all_goals
    simp only [reached, Option.elim_none] at hm
    omega

/-- One window, from the series below a rung whose date is known. -/
theorem shown_of_pickRungs {md : RefdataIndex} {lo hi : ℕ} (hlo : 1 ≤ lo)
    {above : Option (ℕ × ℤ)}
    (ha : ∀ n ∈ descending (lo, hi), Answers r md (seriesTicker info n) (date n) (version n))
    (hab : ∀ rung ∈ above, date (hi + 1) = some rung.2) (hok : pickRungs r md genTicker dt above
      ((descending (lo, hi)).map fun n => (n, seriesTicker info n)) = .ok out) :
    Shown date dt lo hi out ∧ (reached lo out ≤ hi → above.isSome → StartsBefore date hi) := by
  induction hi generalizing above with
  | zero =>
    have hni : descending (lo, 0) = [] := by
      have hl : 0 + 1 - lo = 0 := by omega
      simp [descending, hl]
    rw [hni] at hok
    cases hok
    refine ⟨shown_of_lt hlo, fun hm => ?_⟩
    simp only [reached, Option.elim_none] at hm
    omega
  | succ hi ih =>
    by_cases hla : lo ≤ hi + 1
    · rw [descending_succ hla] at ha hok
      rw [List.map_cons, pickRungs] at hok
      obtain ⟨d, hd, hok⟩ := bind_eq_ok.mp hok
      have ht : date (hi + 1) = some d := by
        rw [← (ha (hi + 1) List.mem_cons_self).date_eq, ← toOption_requiredCdxDate, hd]
        rfl
      split at hok
      · cases hok
      · rename_i hf
        -- the series at the top of what is left to walk
        have hfi : above.isSome → StartsBefore date (hi + 1) := by
          intro hs
          obtain ⟨rung, rfl⟩ := Option.isSome_iff_exists.mp hs
          have hr : ¬rung.2 ≤ d := by simpa [Option.filter_some] using hf
          exact ⟨d, rung.2, ht, hab rung rfl, by omega⟩
        refine ⟨?_, fun _ => hfi⟩
        split at hok
        · obtain ⟨v, -, hok⟩ := bind_eq_ok.mp hok
          obtain ⟨parsed, -, hok⟩ := bind_eq_ok.mp hok
          obtain ⟨x, hfo, hok⟩ := bind_eq_ok.mp hok
          cases hok
          have hse := series_of_ofExt_resolve hfo
          refine ⟨?_, fun m hm hmh => ?_, fun m hm hmh => ?_⟩
          · rintro _ ⟨⟩
            exact ⟨hse.le, d, hse ▸ ht, ‹_›⟩
          all_goals simp only [reached, Option.elim_some, hse] at hm
          · obtain rfl : m = hi + 1 := by omega
            exact ⟨d, ht, fun hlt => absurd (hlt _ rfl) (by simp [hse])⟩
          · omega
        · obtain ⟨⟨hst, hre, hor⟩, hto⟩ := ih (fun n hn => ha n (List.mem_cons_of_mem _ hn))
            (fun rung hr => by rw [← Option.mem_some_iff.mp hr]; exact ht) hok
          refine ⟨fun x hx => ⟨(hst x hx).1.trans (by omega), (hst x hx).2⟩, ?_, ?_⟩
          · intro m hm hmh
            rcases hmh.eq_or_lt with rfl | hlt
            · exact ⟨d, ht, fun _ => by omega⟩
            · exact hre m hm (by omega)
          · intro m hm hmh
            rcases (Nat.le_of_lt_succ hmh).eq_or_lt with rfl | hlt
            · exact hto hm rfl
            · exact hor m hm hlt
    · have hni : descending (lo, hi + 1) = [] := by
        have hl : hi + 1 + 1 - lo = 0 := by omega
        simp [descending, hl]
      rw [hni] at hok
      cases hok
      refine ⟨shown_of_lt (by omega), fun hm => ?_⟩
      simp only [reached, Option.elim_none] at hm
      omega

section

variable (h : Replies r engine genTicker info current date version)
include h

theorem cases_of_resolveCdxSeriesAt {subMonths : ℕ → ℤ → Option ℤ} {x : CdxSeriesAt}
    (hok : resolveCdxSeriesAt r subMonths engine genTicker dt = .ok x) :
    ∃ start, date current = some start ∧ (x.info.series = current ∧ start ≤ dt ∨
      ∃ lo hi exhausted, cdxPriorSeriesWindow subMonths current start dt = some (lo, hi) ∧
        probeWindows (resolveCdxLadder r engine genTicker dt) exhausted lo hi = .ok x) := by
  obtain ⟨b, md, hr, hne, hs, ha⟩ := h.head
  have hn := toOption_requiredCdxNumber (r := r) md genTicker "ROLLING_SERIES"
  rw [hs] at hn
  rw [resolveCdxSeriesAt, h.parsed, ofExt, ok_bind, if_neg (by simp [h.generic]),
    requestCdxMetadata, hr] at hok
  dsimp only at hok
  rw [ok_bind, hne, ok_bind, eq_ok_of_toOption hn, ok_bind] at hok
  obtain ⟨start, hst, hok⟩ := bind_eq_ok.mp hok
  refine ⟨start, ?_, ?_⟩
  · rw [← ha.date_eq, ← toOption_requiredCdxDate, hst]
    rfl
  · split at hok
    · obtain ⟨v, -, hok⟩ := bind_eq_ok.mp hok
      obtain ⟨resolved, hre, hok⟩ := bind_eq_ok.mp hok
      cases hok
      exact .inl ⟨series_of_ofExt_resolve hre, ‹_›⟩
    · split at hok
      · cases hok
      · rename_i lo hi hp
        exact .inr ⟨lo, hi, _, hp, hok⟩

variable {lo hi : ℕ} (hlo : 1 ≤ lo) (hle : lo ≤ hi) (hhi : hi < current)
include hlo hle hhi

theorem shown_of_resolveCdxLadder (hok : resolveCdxLadder r engine genTicker dt lo hi = .ok out) :
    Shown date dt lo hi out := by
  obtain ⟨md, ha, hl⟩ := resolveCdxLadder_eq h hlo hle hhi dt
  rw [hl] at hok
  exact (shown_of_pickRungs hlo ha (by simp) hok).1

/-- The answer has started. Every series above it is in a window that was probed: it reports a date
after `dt`, and one before that of the series above it unless it is at the top of its window. -/
theorem exists_window_of_probeWindows {exhausted : RecipeError} {x : CdxSeriesAt}
    (hok : probeWindows (resolveCdxLadder r engine genTicker dt) exhausted lo hi = .ok x) :
    (x.info.series ≤ hi ∧ ∃ d, date x.info.series = some d ∧ d ≤ dt) ∧
      ∀ m, x.info.series ≤ m → m ≤ hi →
        ∃ w ∈ windowsFrom lo hi, m ≤ w.2 ∧ (m < w.2 → StartsBefore date m) ∧
          ∃ d, date m = some d ∧ (x.info.series < m → dt < d) := by
  induction lo using Nat.strong_induction_on generalizing hi with
  | _ lo ih =>
    have hw : (lo, hi) ∈ windowsFrom lo hi := by rw [windowsFrom]; simp
    rw [probeWindows] at hok
    split at hok
    · cases hok
    · rename_i answer hp
      cases hok
      have hs := shown_of_resolveCdxLadder h hlo hle hhi hp
      refine ⟨hs.started x rfl, fun m hm hmh => ⟨_, hw, hmh, hs.ordered m hm, ?_⟩⟩
      obtain ⟨d, hd, ha⟩ := hs.reported m hm hmh
      exact ⟨d, hd, fun hlt => ha (by simpa using hlt)⟩
    · rename_i hp
      have hs := shown_of_resolveCdxLadder h hlo hle hhi hp
      split at hok
      · cases hok
      · rename_i nextLo nextHi hn
        obtain ⟨hpo, hne, he⟩ := bounds_of_cdxNextSeriesWindow hn
        obtain ⟨⟨hbelow, hstarted⟩, hrest⟩ :=
          ih nextLo (lt_of_cdxNextSeriesWindow hn) hpo hne (by omega) hok
        refine ⟨⟨by omega, hstarted⟩, fun m hm hmh => ?_⟩
        by_cases hr : lo ≤ m
        · obtain ⟨d, hd, ha⟩ := hs.reported m hr hmh
          exact ⟨_, hw, hmh, hs.ordered m hr, d, hd, fun _ => ha (by simp)⟩
        · obtain ⟨w, hw, hs⟩ := hrest m hm (by omega)
          rw [windowsFrom_of_some hi hn]
          exact ⟨w, List.mem_cons_of_mem _ hw, hs⟩

end

/-- The top of each window that is looked at, if nothing above it has started, is in order with the
series above it. -/
def EdgesOrdered (subMonths : ℕ → ℤ → Option ℤ) (current : ℕ) (date : ℕ → Option ℤ) (dt : ℤ) :
    Prop :=
  ∀ start, date current = some start → ∀ window ∈ probedWindows subMonths current start dt,
    (∀ n, window.2 < n → n ≤ current → ∀ d, date n = some d → dt < d) → Ordered date window.2

/-- Everything from the current series down to an answer reports an accrual start, before that of
the series above it, exactly if the edges of the windows are in order. -/
theorem startsBefore_resolveCdxSeriesAt_iff
    (h : Replies r engine genTicker info current date version) {subMonths : ℕ → ℤ → Option ℤ}
    {found : CdxSeriesAt} (hok : resolveCdxSeriesAt r subMonths engine genTicker dt = .ok found) :
    ((∀ n, found.info.series ≤ n → n ≤ current → (date n).isSome) ∧
      ∀ n, found.info.series ≤ n → n < current → StartsBefore date n) ↔
      EdgesOrdered subMonths current date dt := by
  obtain ⟨start, hstart, ⟨hcurrent, hstarted⟩ | ⟨lo, hi, exhausted, hprior, hprobe⟩⟩ :=
    cases_of_resolveCdxSeriesAt h hok
  · refine iff_of_true ⟨?_, fun n hn hlt => by omega⟩ fun start' hstart' window hwindow => ?_
    · intro n hn hle
      obtain rfl : n = current := by omega
      simp [hstart]
    · obtain rfl : start = start' := Option.some.inj (hstart.symm.trans hstart')
      simp [probedWindows, cdxPriorSeriesWindow, hstarted] at hwindow
  obtain ⟨hlo, hle, htop⟩ := bounds_of_cdxPriorSeriesWindow hprior
  have hafter : dt < start := by
    by_contra hnot
    simp [cdxPriorSeriesWindow, show start ≤ dt by omega] at hprior
  obtain ⟨⟨hbelow, d, hd, hle_dt⟩, hwindow⟩ :=
    exists_window_of_probeWindows h hlo hle (by omega) hprobe
  have hedges : EdgesOrdered subMonths current date dt ↔ ∀ window ∈ windowsFrom lo hi,
      found.info.series ≤ window.2 → Ordered date window.2 := by
    have hprobed : probedWindows subMonths current start dt = windowsFrom lo hi := by
      rw [probedWindows, hprior]
    constructor
    · intro hedges window hmem hanswer
      refine hedges start hstart window (hprobed ▸ hmem) fun n hn hncurrent e he => ?_
      by_cases hnhi : n ≤ hi
      · obtain ⟨-, -, -, -, e', he', hlate⟩ := hwindow n (by omega) hnhi
        rw [Option.some.inj (he.symm.trans he')]
        exact hlate (by omega)
      · obtain rfl : n = current := by omega
        rwa [Option.some.inj (he.symm.trans hstart)]
    · intro hordered start' hstart' window hmem hlate
      obtain rfl : start = start' := Option.some.inj (hstart.symm.trans hstart')
      refine hordered window (hprobed ▸ hmem) ?_
      by_contra hnot
      have := hlate _ (by omega) (by omega) d hd
      omega
  have hreported : ∀ n, found.info.series ≤ n → n ≤ current → (date n).isSome := by
    intro n hn hncurrent
    by_cases hnhi : n ≤ hi
    · obtain ⟨-, -, -, -, e, he, -⟩ := hwindow n hn hnhi
      simp [he]
    · obtain rfl : n = current := by omega
      simp [hstart]
  rw [hedges]
  constructor
  · rintro ⟨-, hbefore⟩ window hmem hanswer d e hd he
    have hhi := (covers_windowsFrom lo hi hlo hle).le_top hmem
    obtain ⟨d', e', hd', he', hlt⟩ := hbefore window.2 hanswer (by omega)
    rw [Option.some.inj (hd.symm.trans hd'), Option.some.inj (he.symm.trans he')]
    exact hlt
  · intro hordered
    refine ⟨hreported, fun n hn hlt => ?_⟩
    obtain ⟨window, hmem, hnw, hinside, -⟩ := hwindow n hn (by omega)
    rcases hnw.eq_or_lt with rfl | hlt'
    · exact (hordered window hmem hn).startsBefore (hreported _ hn (by omega))
        (hreported _ (by omega) (by omega))
    · exact hinside hlt'

/-! ## Dates out of order -/

def disordered : Table := threeSeries "100" "200" "40"

def disorderedDate (n : ℕ) : Option ℤ := some (if n = 3 then 100 else if n = 2 then 200 else 40)

def subThirties (months : ℕ) (date : ℤ) : Option ℤ := some (date - 30 * months)

theorem disordered_replies :
    Replies decimalReadings disordered.engine "CDX IG CDSI GEN 5Y Corp" genericInfo 3
      disorderedDate (fun _ => some 1) := by
  refine Table.replies (by decide +kernel) rfl (by decide +kernel)
    ⟨by decide +kernel, by decide +kernel⟩ ?_
  intro n hn hlt
  obtain rfl | rfl : n = 1 ∨ n = 2 := by omega
  · exact ⟨by decide +kernel, by decide +kernel⟩
  · exact ⟨by decide +kernel, by decide +kernel⟩

/-- The answer is series 1, although series 2 does not start before series 3. -/
theorem resolveCdxSeriesAt_disordered :
    Replies decimalReadings disordered.engine "CDX IG CDSI GEN 5Y Corp" genericInfo 3
        disorderedDate (fun _ => some 1) ∧
      (∃ found, resolveCdxSeriesAt decimalReadings subThirties disordered.engine
        "CDX IG CDSI GEN 5Y Corp" 50 = .ok found ∧ found.info.series = 1) ∧
      ¬StartsBefore disorderedDate 2 := by
  refine ⟨disordered_replies, ?_, ?_⟩
  · have hreading : (resolveCdxSeriesAt decimalReadings subThirties disordered.engine
        "CDX IG CDSI GEN 5Y Corp" 50).toOption.map CdxSeriesAt.reading = some (1, 1, 40) := by
      decide +kernel
    obtain ⟨found, hfound, hseries⟩ := Option.map_eq_some_iff.mp hreading
    exact ⟨found, eq_ok_of_toOption hfound, congrArg Prod.fst hseries⟩
  · rintro ⟨d, e, hd, he, hlt⟩
    cases hd
    cases he
    revert hlt
    decide

theorem startsBefore_resolveCdxSeriesAt_rising :
    ∃ found, resolveCdxSeriesAt decimalReadings subThirties rising.engine
      "CDX IG CDSI GEN 5Y Corp" 150 = .ok found ∧ found.info.series = 1 ∧
      ∀ n, 1 ≤ n → n < 3 → StartsBefore (fun n => some (100 * n)) n := by
  have hreading : (resolveCdxSeriesAt decimalReadings subThirties rising.engine
      "CDX IG CDSI GEN 5Y Corp" 150).toOption.map CdxSeriesAt.reading = some (1, 1, 100) := by
    decide +kernel
  obtain ⟨found, hfound, hseries⟩ := Option.map_eq_some_iff.mp hreading
  have hone : found.info.series = 1 := congrArg Prod.fst hseries
  have hok := eq_ok_of_toOption hfound
  refine ⟨found, hok, hone, ?_⟩
  rw [← hone]
  refine ((startsBefore_resolveCdxSeriesAt_iff rising_replies hok).mpr ?_).2
  intro start _ window _ _ d e hd he
  cases hd
  cases he
  push_cast
  omega

end Xbbg.Cdx
