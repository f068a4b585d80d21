import Xbbg.Model.CdxSeries
import Xbbg.Verification.Tickers.Aliases

/-! # The ladder of series

The windows that are probed cover the series below the current one, and probing them amounts to a
walk down all the series that takes the first one that has started. -/

namespace Xbbg.Cdx

open List Library Currency Tickers

/-! ## Windows -/

theorem bounds_of_cdxNextSeriesWindow {probedLo lo hi : ℕ}
    (h : cdxNextSeriesWindow probedLo = some (lo, hi)) : 1 ≤ lo ∧ lo ≤ hi ∧ hi + 1 = probedLo := by
  unfold cdxNextSeriesWindow at h
  split at h
  · cases h
  · cases h
    omega

theorem le_one_of_cdxNextSeriesWindow {probedLo : ℕ} (h : cdxNextSeriesWindow probedLo = none) :
    probedLo ≤ 1 := by
  unfold cdxNextSeriesWindow at h
  split at h
  · assumption
  · cases h

theorem bounds_of_cdxPriorSeriesWindow {subMonths : ℕ → ℤ → Option ℤ} {current lo hi : ℕ}
    {start dt : ℤ} (h : cdxPriorSeriesWindow subMonths current start dt = some (lo, hi)) :
    1 ≤ lo ∧ lo ≤ hi ∧ hi + 1 = current := by
  unfold cdxPriorSeriesWindow at h
  split at h
  · cases h
  · rename_i hn
    cases h
    simp only [Bool.or_eq_true, decide_eq_true_eq, not_or] at hn
    omega

theorem le_one_of_cdxPriorSeriesWindow {subMonths : ℕ → ℤ → Option ℤ} {cur : ℕ}
    {start dt : ℤ} (hlt : dt < start)
    (h : cdxPriorSeriesWindow subMonths cur start dt = none) : cur ≤ 1 := by
  unfold cdxPriorSeriesWindow at h
  split at h
  · rename_i hor
    simp only [Bool.or_eq_true, decide_eq_true_eq] at hor
    omega
  · cases h

def windowsFrom (lo hi : ℕ) : List (ℕ × ℕ) :=
  (lo, hi) ::
    match _ : cdxNextSeriesWindow lo with
    | none => []
    | some (nextLo, nextHi) => windowsFrom nextLo nextHi
termination_by lo
decreasing_by exact lt_of_cdxNextSeriesWindow ‹_›

/-- The windows that a resolution has to look at, if no series of them has started. -/
def probedWindows (subMonths : ℕ → ℤ → Option ℤ) (current : ℕ) (start dt : ℤ) : List (ℕ × ℕ) :=
  match cdxPriorSeriesWindow subMonths current start dt with
  | none => []
  | some (lo, hi) => windowsFrom lo hi

theorem windowsFrom_of_none {lo : ℕ} (hi : ℕ) (h : cdxNextSeriesWindow lo = none) :
    windowsFrom lo hi = [(lo, hi)] := by
  rw [windowsFrom]
  split
  · rfl
  · simp_all

theorem windowsFrom_of_some {lo nextLo nextHi : ℕ} (hi : ℕ)
    (h : cdxNextSeriesWindow lo = some (nextLo, nextHi)) :
    windowsFrom lo hi = (lo, hi) :: windowsFrom nextLo nextHi := by
  rw [windowsFrom]
  split
  · simp_all
  · rename_i hn
    obtain ⟨rfl, rfl⟩ := Prod.mk.inj (Option.some.inj (h.symm.trans hn))
    rfl

def descending (window : ℕ × ℕ) : List ℕ :=
  (List.range' window.1 (window.2 + 1 - window.1)).reverse

theorem mem_descending {w : ℕ × ℕ} {n : ℕ} : n ∈ descending w ↔ w.1 ≤ n ∧ n ≤ w.2 := by
  simp only [descending, mem_reverse, mem_range'_1]
  omega

theorem descending_append {lo middle hi : ℕ} (hp : 0 < middle) (hlo : lo ≤ middle)
    (hhi : middle ≤ hi + 1) :
    descending (middle, hi) ++ descending (lo, middle - 1) = descending (lo, hi) := by
  have hl : hi + 1 - lo = (middle - 1 + 1 - lo) + (hi + 1 - middle) := by omega
  have hm : middle = lo + (middle - 1 + 1 - lo) := by omega
  rw [descending, descending, descending, ← reverse_append]
  dsimp only
  rw [hl, ← range'_append_1, ← hm]

theorem descending_succ {lo hi : ℕ} (h : lo ≤ hi + 1) :
    descending (lo, hi + 1) = (hi + 1) :: descending (lo, hi) := by
  have ht : descending (hi + 1, hi + 1) = [hi + 1] := by simp [descending]
  rw [← descending_append (by omega) h (by omega), ht]
  rfl

/-- The windows are nonempty, and one after the other they have every series once, from the top. -/
structure Covers (windows : List (ℕ × ℕ)) (top : ℕ) : Prop where
  nonempty : ∀ window ∈ windows, 1 ≤ window.1 ∧ window.1 ≤ window.2
  series : windows.flatMap descending = descending (1, top)

theorem Covers.le_top {windows : List (ℕ × ℕ)} {top : ℕ} (h : Covers windows top)
    {window : ℕ × ℕ} (hw : window ∈ windows) : window.2 ≤ top := by
  have hl : window.2 ∈ descending window :=
    mem_descending.mpr ⟨(h.nonempty window hw).2, le_refl _⟩
  have ha : window.2 ∈ windows.flatMap descending := mem_flatMap.mpr ⟨window, hw, hl⟩
  rw [h.series] at ha
  exact (mem_descending.mp ha).2

theorem covers_windowsFrom (lo hi : ℕ) (hlo : 1 ≤ lo) (hhi : lo ≤ hi) :
    Covers (windowsFrom lo hi) hi := by
  induction lo using Nat.strong_induction_on generalizing hi with
  | _ lo ih =>
    cases hn : cdxNextSeriesWindow lo with
    | none =>
      have ho := le_one_of_cdxNextSeriesWindow hn
      obtain rfl : lo = 1 := by omega
      rw [windowsFrom_of_none hi hn]
      exact ⟨by simp [hhi], by simp⟩
    | some next =>
      obtain ⟨nextLo, nextHi⟩ := next
      obtain ⟨hp, hle, ht⟩ := bounds_of_cdxNextSeriesWindow hn
      have hr := ih nextLo (lt_of_cdxNextSeriesWindow hn) nextHi hp hle
      rw [windowsFrom_of_some hi hn]
      constructor
      · intro w hw
        rcases mem_cons.mp hw with rfl | hw
        · exact ⟨hlo, hhi⟩
        · exact hr.nonempty w hw
      · obtain rfl : nextHi = lo - 1 := by omega
        rw [flatMap_cons, hr.series]
        exact descending_append hlo hlo (by omega)

theorem covers_probedWindows (subMonths : ℕ → ℤ → Option ℤ) {current : ℕ} (hp : 0 < current)
    {start dt : ℤ} (hlt : dt < start) :
    Covers (probedWindows subMonths current start dt) (current - 1) := by
  unfold probedWindows
  split
  · rename_i hn
    have ho := le_one_of_cdxPriorSeriesWindow hlt hn
    obtain rfl : current = 1 := by omega
    exact ⟨by simp, rfl⟩
  · rename_i lo hi hs
    obtain ⟨hlo, hle, ht⟩ := bounds_of_cdxPriorSeriesWindow hs
    obtain rfl : hi = current - 1 := by omega
    exact covers_windowsFrom lo _ hlo hle

section ProbeAll

variable {ε α : Type} (probe : ℕ → ℕ → Except ε (Option α)) (exhausted : ε)

def probeAll : List (ℕ × ℕ) → Except ε α
  | [] => .error exhausted
  | (lo, hi) :: rest =>
    match probe lo hi with
    | .error error => .error error
    | .ok (some found) => .ok found
    | .ok none => probeAll rest

theorem probeWindows_eq_probeAll (lo hi : ℕ) :
    probeWindows probe exhausted lo hi = probeAll probe exhausted (windowsFrom lo hi) := by
  induction lo using Nat.strong_induction_on generalizing hi with
  | _ lo ih =>
    rw [probeWindows]
    cases hn : cdxNextSeriesWindow lo with
    | none =>
      rw [windowsFrom_of_none hi hn, probeAll]
      rcases probe lo hi with e | (_ | x)
      · rfl
      · rfl
      · rfl
    | some next =>
      obtain ⟨nextLo, nextHi⟩ := next
      rw [windowsFrom_of_some hi hn, probeAll]
      rcases probe lo hi with e | (_ | x)
      · rfl
      · exact ih nextLo (lt_of_cdxNextSeriesWindow hn) nextHi
      · rfl

end ProbeAll

/-! ## The walk -/

section Walk

variable (date : ℕ → Option ℤ) (version : ℕ → Option ℕ) (dt : ℤ)

/-- Look at series in turn for the first one that has started, with its version and accrual start.
It fails at a series without a date, and if the series it stops at has no version. -/
def walk : List ℕ → Option (Option (ℕ × ℕ × ℤ))
  | [] => some none
  | n :: rest =>
    match date n with
    | none => none
    | some start => if start ≤ dt then (version n).map fun v => some (n, v, start) else walk rest

variable {date version dt}

theorem walk_append (front back : List ℕ) : walk date version dt (front ++ back) =
      (walk date version dt front).bind fun x =>
        x.elim (walk date version dt back) fun answer => some (some answer) := by
  induction front with
  | nil => rfl
  | cons n front ih =>
    rw [cons_append, walk, walk]
    split
    · rfl
    · split
      · cases version n <;> rfl
      · exact ih

/-- Walking down to series 1 finds the first series that has started, if everything above it
reports a date and it has a version. -/
theorem walk_descending (cur n v : ℕ) (start : ℤ) :
    (walk date version dt (descending (1, cur))).join = some (n, v, start) ↔
      (1 ≤ n ∧ n ≤ cur ∧ date n = some start ∧ start ≤ dt ∧ version n = some v) ∧
        ∀ m, n < m → m ≤ cur → ∃ d, date m = some d ∧ dt < d := by
  induction cur with
  | zero =>
    have hni : descending (1, 0) = [] := rfl
    rw [hni, walk]
    constructor
    · intro h
      cases h
    · rintro ⟨⟨hp, hle, -⟩, -⟩
      omega
  | succ cur ih =>
    rw [descending_succ (by omega), walk]
    constructor
    · intro h
      cases hda : date (cur + 1) with
      | none => simp [hda] at h
      | some d =>
        rw [hda] at h
        dsimp only at h
        by_cases hd : d ≤ dt
        · rw [if_pos hd] at h
          cases hv : version (cur + 1) with
          | none => simp [hv] at h
          | some w =>
            rw [hv] at h
            obtain ⟨rfl, rfl, rfl⟩ : cur + 1 = n ∧ w = v ∧ d = start := by simpa using h
            refine ⟨⟨by omega, le_refl _, hda, hd, hv⟩, ?_⟩
            intro m hlt hle
            omega
        · rw [if_neg hd] at h
          obtain ⟨⟨hp, hle, hn⟩, habo⟩ := ih.mp h
          refine ⟨⟨hp, by omega, hn⟩, ?_⟩
          intro m hlt hm
          by_cases ht : m = cur + 1
          · subst ht
            exact ⟨d, hda, by omega⟩
          · exact habo m hlt (by omega)
    · rintro ⟨⟨hp, hle, hda, hs, hv⟩, habo⟩
      by_cases ht : n = cur + 1
      · subst ht
        simp [hda, hs, hv]
      · obtain ⟨d, hd, hlt⟩ := habo (cur + 1) (by omega) (le_refl _)
        rw [hd]
        dsimp only
        rw [if_neg (by omega)]
        exact ih.mpr ⟨⟨hp, by omega, hda, hs, hv⟩, fun m hlt hm => habo m hlt (by omega)⟩

end Walk

end Xbbg.Cdx
