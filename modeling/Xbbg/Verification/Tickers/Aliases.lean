import Mathlib.Data.List.TakeDrop
import Mathlib.Data.List.TakeWhile
import Xbbg.Library.Results
import Xbbg.Verification.Tickers.GenericIndex

/-! The ticker of a series that is made from a generic ticker is read as that series. -/

namespace Xbbg.Tickers

open List Library

theorem join_append {front back : List String} (hf : front ≠ []) (hb : back ≠ []) :
    join (front ++ back) = join front ++ " " ++ join back := by
  induction front with
  | nil => exact absurd rfl hf
  | cons part rest ih =>
    cases rest with
    | nil => rw [singleton_append, join_cons part hb, join_singleton]
    | cons next rest =>
      rw [cons_append, join_cons part (by simp), join_cons part (by simp), ih (by simp)]
      simp only [String.append_assoc]

/-- The parts of a generic ticker that has no version. -/
structure IsGenericForm (before : List String) (tenor asset : String) : Prop where
  length : 2 ≤ before.length
  before_part : ∀ part ∈ before, IsPart part ∧ seriesToken part = none
  tenor_part : IsPart tenor
  asset_part : IsPart asset
  tenor_token : ∀ ticker, versionToken ticker (some tenor) = .ok (none, 0)

/-- What a version token says: nothing, or a positive number. -/
theorem versionToken_cases {ticker : String} {token : Option String} {version : Option ℕ}
    {skipped : ℕ} (h : versionToken ticker token = .ok (version, skipped)) :
    (version = none ∧ skipped = 0 ∧ ∀ o, versionToken o token = .ok (none, 0)) ∨
      skipped = 1 ∧ ∃ v, version = some v ∧ 0 < v ∧ v < 4294967296 := by
  cases token with
  | none =>
    cases h
    exact .inl ⟨rfl, rfl, fun _ => rfl⟩
  | some token =>
    unfold versionToken at h ⊢
    dsimp only at h ⊢
    split at h
    · split at h
      · rename_i v hv
        cases h
        exact .inr ⟨rfl, _, rfl, Nat.succ_pos v, lt_of_parseUnsigned hv⟩
      · cases h
    · cases h
      exact .inl ⟨rfl, rfl, fun _ => rfl⟩

theorem lt_of_seriesToken {token : String} {n : ℕ} (h : seriesToken token = some (some n)) :
    n < 4294967296 := by
  unfold seriesToken at h
  split at h
  · cases h
  · split at h
    · obtain ⟨m, hm, he⟩ := Option.map_eq_some_iff.mp h
      cases he
      exact lt_of_parseUnsigned hm
    · cases h

variable {info : ParsedCdxInfo} {before : List String} {ticker : String} {n : ℕ}

/-- The index has two parts, and the tenor is not taken for a version. -/
def Unambiguous (info : ParsedCdxInfo) : Prop :=
  2 ≤ (splitWhitespace info.index).length ∧ info.tenor.toList.head? ≠ some 'V'

theorem versionToken_of_head {token : String} (h : token.toList.head? ≠ some 'V')
    (ticker : String) : versionToken ticker (some token) = .ok (none, 0) := by
  unfold versionToken
  dsimp only
  split
  · rename_i ht
    simp [ht] at h
  · rfl

structure IsParsed (info : ParsedCdxInfo) (before : List String) : Prop extends
    IsGenericForm before info.tenor info.asset where
  index : info.index = join before
  series_part : IsPart info.series
  series_token : seriesToken info.series = some info.seriesNum
  positive : info.seriesNum ≠ some 0
  generic : info.isGeneric = decide (info.series = "GEN")
  version : ∀ v ∈ info.version, 0 < v ∧ v < 4294967296

theorem exists_isParsed (hp : parseCdxTicker ticker = .ok info)
    (hw : info.version = none ∨ Unambiguous info) : ∃ before, IsParsed info before := by
  unfold parseCdxTicker at hp
  dsimp only at hp
  split at hp
  · cases hp
  rename_i hl
  rw [span_eq_takeWhile_dropWhile] at hp
  have ha := takeWhile_append_dropWhile (p := fun part => (seriesToken part).isNone)
    (l := splitWhitespace ticker)
  have hb : ∀ part ∈ (splitWhitespace ticker).takeWhile fun part => (seriesToken part).isNone,
      IsPart part ∧ seriesToken part = none := by
    intro part hpa
    refine ⟨isPart_of_mem_splitWhitespace ((takeWhile_sublist _).mem hpa), ?_⟩
    simpa using mem_takeWhile_imp hpa
  generalize (splitWhitespace ticker).takeWhile (fun part => (seriesToken part).isNone) = before
    at hp ha hb
  cases hr : (splitWhitespace ticker).dropWhile fun part => (seriesToken part).isNone with
  | nil =>
    rw [hr] at hp
    cases hp
  | cons token rest =>
    have hto : (seriesToken token).isNone = false := by
      have := head?_dropWhile_not (fun part => (seriesToken part).isNone) (splitWhitespace ticker)
      simpa [hr] using this
    rw [hr] at hp ha
    dsimp only at hp
    split at hp
    · cases hp
    rename_i hz
    obtain ⟨⟨version, skipped⟩, htok, hp⟩ := bind_eq_ok.mp hp
    dsimp only at hp
    split at hp
    · rename_i tenor asset ht
      cases hp
      have hpa : ∀ part ∈ token :: rest, IsPart part := by
        intro part hm
        apply isPart_of_mem_splitWhitespace
        rw [← ha]
        exact mem_append_right _ hm
      have hre : ∀ part ∈ [tenor, asset], IsPart part := fun part hm =>
        hpa part (mem_cons_of_mem _ (mem_of_mem_drop (ht ▸ hm)))
      have hse : seriesToken token = some (seriesToken token).join := by
        cases hs : seriesToken token with
        | none => simp [hs] at hto
        | some num => rfl
      have hne : (seriesToken token).join ≠ some 0 := fun he => hz (hse.trans (by rw [he]))
      rcases versionToken_cases htok with ⟨rfl, rfl, han⟩ | ⟨rfl, v, rfl, hv⟩
      · obtain rfl : rest = [tenor, asset] := ht
        refine ⟨before, ⟨?_, hb, hre tenor (by simp), hre asset (by simp), han⟩, rfl,
          hpa token (by simp), hse, hne, rfl, by simp⟩
        rw [← ha, length_append] at hl
        simp only [length_cons, length_nil] at hl
        omega
      · obtain ⟨hle, hte⟩ := hw.resolve_left (by simp)
        rw [splitWhitespace_join fun part hm => (hb part hm).1] at hle
        exact ⟨before, ⟨hle, hb, hre tenor (by simp), hre asset (by simp),
          versionToken_of_head hte⟩, rfl, hpa token (by simp), hse, hne, rfl, by simpa using hv⟩
    · cases hp

theorem seriesToken_series (h : n < 4294967296) :
    seriesToken ("S" ++ toString n) = some (some n) := by
  have hl : ("S" ++ toString n).toList = 'S' :: Nat.toDigits 10 n := by
    rw [String.toList_append, toList_toString]
    rfl
  have hne : "S" ++ toString n ≠ "GEN" := by
    intro hg
    rw [hg] at hl
    cases hl
  have hr : parseU32 (Nat.toDigits 10 n) = some n := parseUnsigned_toDigits h
  rw [seriesToken, if_neg hne, hl]
  exact congrArg (Option.map some) hr

theorem versionToken_version {v : ℕ} (hv : 0 < v ∧ v < 4294967296) (ticker : String) :
    versionToken ticker (some ("V" ++ toString v)) = .ok (some v, 1) := by
  have hl : ("V" ++ toString v).toList = 'V' :: Nat.toDigits 10 v := by
    rw [String.toList_append, toList_toString]
    rfl
  have hr : parseU32 (Nat.toDigits 10 v) = some v := parseUnsigned_toDigits hv.2
  obtain ⟨m, rfl⟩ := Nat.exists_eq_succ_of_ne_zero hv.1.ne'
  simp only [versionToken, hl, hr]

def tokens (info : ParsedCdxInfo) : List String :=
  info.series :: (info.version.map fun v => "V" ++ toString v).toList ++ [info.tenor, info.asset]

theorem buildCdxAlias_eq (hi : info.index = join before) (hb : before ≠ []) :
    buildCdxAlias info = join (before ++ tokens info) := by
  rw [join_append hb (by simp [tokens])]
  cases hv : info.version with
  | none => simp [buildCdxAlias, tokens, hv, hi, join_cons, join_singleton, String.append_assoc]
  | some v =>
    simp only [buildCdxAlias, tokens, hv, hi, Option.map_some, Option.toList_some, cons_append,
      nil_append, ne_eq, reduceCtorEq, not_false_eq_true, join_cons, join_singleton,
      String.append_assoc]
    exact congrArg _ (congrArg _ (congrArg _ (@String.append_assoc " " "V" _)))

theorem IsParsed.parse (h : IsParsed info before) :
    parseCdxTicker (buildCdxAlias info) = .ok info := by
  have hb : before ≠ [] := by
    rintro rfl
    exact absurd h.length (by simp)
  have hpa : splitWhitespace (buildCdxAlias info) = before ++ tokens info := by
    rw [buildCdxAlias_eq h.index hb]
    apply splitWhitespace_join
    intro part hp
    rcases mem_append.mp hp with hp | hp
    · exact (h.before_part part hp).1
    · simp only [tokens, cons_append, mem_cons, mem_append, Option.mem_toList,
        Option.map_eq_some_iff, not_mem_nil, or_false] at hp
      obtain rfl | ⟨v, -, rfl⟩ | rfl | rfl := hp
      · exact h.series_part
      · exact isPart_base ⟨by decide, by simp [isWhitespace]⟩ v
      · exact h.tenor_part
      · exact h.asset_part
  have hno : ∀ part ∈ before, (seriesToken part).isNone = true := by
    intro part hp
    rw [(h.before_part part hp).2]
    rfl
  have hs : (before ++ tokens info).span (fun part => (seriesToken part).isNone) =
      (before, tokens info) := by
    rw [span_eq_takeWhile_dropWhile, takeWhile_append_of_pos hno, dropWhile_append_of_pos hno,
      tokens, cons_append, takeWhile_cons_of_neg (by simp [h.series_token]),
      dropWhile_cons_of_neg (by simp [h.series_token]), append_nil]
  have hl : ¬(before ++ tokens info).length < 5 := by
    have hb := h.length
    simp only [tokens, length_append, length_cons, length_nil]
    omega
  have hz : seriesToken info.series ≠ some (some 0) := by
    rw [h.series_token]
    simpa using h.positive
  rw [parseCdxTicker, hpa]
  dsimp only
  rw [if_neg hl, hs]
  dsimp only [tokens, cons_append]
  rw [if_neg hz]
  cases info with
  | mk index series version tenor asset isGeneric seriesNum =>
    obtain ⟨⟨-, -, -, -, ht⟩, hi, -, hse, -, hg, hv⟩ := h
    dsimp only at ht hi hse hg hv ⊢
    cases version with
    | none => simp [ht, hse, hg, hi, bind, Except.bind, pure, Except.pure]
    | some v =>
      dsimp only [Option.map, Option.toList, cons_append, head?_cons]
      rw [versionToken_version (hv v rfl)]
      simp [hse, hg, hi, bind, Except.bind, pure, Except.pure]

/-- A series of the index of a parsed generic ticker. -/
def seriesOf (info : ParsedCdxInfo) (n : ℕ) : ParsedCdxInfo :=
  { info with
    series := "S" ++ toString n
    seriesNum := some n
    version := none
    isGeneric := false }

def seriesTicker (info : ParsedCdxInfo) (n : ℕ) : String := buildCdxAlias (seriesOf info n)

theorem IsParsed.series (h : IsParsed info before) (hpo : 0 < n) (hn : n < 4294967296)
    {version : Option ℕ} (hv : ∀ v ∈ version, 0 < v ∧ v < 4294967296) :
    IsParsed { seriesOf info n with version } before := by
  have ht := seriesToken_series hn
  have hne : "S" ++ toString n ≠ "GEN" := by
    intro hg
    rw [hg] at ht
    cases ht
  exact ⟨h.toIsGenericForm, h.index, isPart_base ⟨by decide, by simp [isWhitespace]⟩ n, ht,
    by simpa [seriesOf] using hpo.ne', (decide_eq_false hne).symm, hv⟩

theorem IsParsed.parse_series (h : IsParsed info before) (hpo : 0 < n) (hn : n < 4294967296) :
    parseCdxTicker (seriesTicker info n) = .ok (seriesOf info n) :=
  (h.series hpo hn (by simp)).parse

theorem genToSpecific_of_pos (hp : parseCdxTicker genTicker = .ok info) (hg : info.isGeneric = true)
    (hpo : 0 < n) : genToSpecific genTicker n = .ok (seriesTicker info n) := by
  have hz : n ≠ 0 := by omega
  rw [genToSpecific, hp]
  simp only [bind, Except.bind, hg, Bool.not_true, Bool.false_eq_true, if_false, hz]
  rfl

/-- The ticker of a series is read as that series, if the generic ticker has no version. -/
theorem parseCdxTicker_seriesTicker (hp : parseCdxTicker genTicker = .ok info)
    (hv : info.version = none) (hpo : 0 < n) (hn : n < 4294967296) :
    parseCdxTicker (seriesTicker info n) = .ok (seriesOf info n) := by
  obtain ⟨before, h⟩ := exists_isParsed hp (.inl hv)
  exact h.parse_series hpo hn

theorem buildResolved_of_resolve {series version : ℕ} {resolved : ResolvedCdxInfo}
    (h : ResolvedCdxInfo.resolve info series version = .ok resolved) :
    0 < series ∧ 0 < version ∧ buildResolvedCdxTickerWithOptions resolved false =
      buildCdxAlias { seriesOf info series with version := some version } := by
  unfold ResolvedCdxInfo.resolve at h
  split_ifs at h with hsp hvp
  cases h
  refine ⟨hsp, hvp, ?_⟩
  simp only [buildResolvedCdxTickerWithOptions, buildCdxAlias, seriesOf, Bool.false_eq_true,
    if_false, String.append_assoc]
  exact congrArg _ (@String.append_assoc " " "S" _)

theorem IsParsed.previousSeriesTicker_eq (h : IsParsed info before)
    (hp : parseCdxTicker ticker = .ok info) (hn : info.seriesNum = some n) (hpo : 1 < n) :
    previousSeriesTicker ticker = .ok (some (seriesTicker info (n - 1))) := by
  have hg : info.isGeneric = false := by
    rw [h.generic, decide_eq_false_iff_not]
    intro hg
    have ht := h.series_token
    rw [hg, hn] at ht
    cases ht
  rw [previousSeriesTicker, hp]
  simp only [bind, Except.bind, hg, Bool.false_eq_true, if_false, hn, if_pos hpo]
  rfl

/-- Aliases, resolved tickers, previous series and series of a generic ticker are read as what they
were built for. -/
theorem cdxTicker_roundTrips {ticker : String} {info : ParsedCdxInfo}
    (hparse : parseCdxTicker ticker = .ok info) (hinfo : Unambiguous info) :
    parseCdxTicker (buildCdxAlias info) = .ok info ∧
    (∀ series version resolved, series < 4294967296 → version < 4294967296 →
      ResolvedCdxInfo.resolve info series version = .ok resolved →
      parseCdxTicker (buildResolvedCdxTickerWithOptions resolved false) =
        .ok { seriesOf info series with version := some version }) ∧
    (∀ series, info.seriesNum = some series → 1 < series → ∃ previous,
      previousSeriesTicker ticker = .ok (some previous) ∧
        parseCdxTicker previous = .ok (seriesOf info (series - 1))) ∧
    (info.isGeneric = true → ∀ series, 0 < series → series < 4294967296 → ∃ specific,
      genToSpecific ticker series = .ok specific ∧
        parseCdxTicker specific = .ok (seriesOf info series)) := by
  obtain ⟨before, h⟩ := exists_isParsed hparse (.inr hinfo)
  refine ⟨h.parse, ?_, ?_, ?_⟩
  · intro series version resolved hs hv hr
    obtain ⟨hsp, hvp, ht⟩ := buildResolved_of_resolve hr
    rw [ht]
    exact (h.series hsp hs (by simpa using ⟨hvp, hv⟩)).parse
  · intro series hs hpos
    have hlt := lt_of_seriesToken (hs ▸ h.series_token)
    exact ⟨_, h.previousSeriesTicker_eq hparse hs hpos, h.parse_series (by omega) (by omega)⟩
  · intro hg series hpos hlt
    exact ⟨_, genToSpecific_of_pos hparse hg hpos, h.parse_series hpos hlt⟩

/-- The series before a versioned one, as it is read. -/
theorem cdxTicker_roundTrips_versioned : ∃ previous,
    previousSeriesTicker "CDX IG CDSI S45 V2 5Y Corp" = .ok (some previous) ∧
      parseCdxTicker previous = .ok ⟨"CDX IG CDSI", "S44", none, "5Y", "Corp", false, some 44⟩ := by
  have hparse : parseCdxTicker "CDX IG CDSI S45 V2 5Y Corp" =
      .ok ⟨"CDX IG CDSI", "S45", some 2, "5Y", "Corp", false, some 45⟩ := by decide +kernel
  exact (cdxTicker_roundTrips hparse ⟨by decide +kernel, by decide⟩).2.2.1 45 rfl (by decide)

end Xbbg.Tickers
