import Xbbg.Model.Entitlements

/-! # When only feeds that were checked count as entitled -/

namespace Xbbg.Entitlements

open List Library

/-- The row holds an EID in a slot whose feed it reports as entitled. -/
def DelayStatusRow.Claims (row : DelayStatusRow) (eid : ℤ) : Prop :=
  row.realtimeEntitled = some true ∧ some eid ∈ row.realtimeEids ∨
    row.delayedEntitled = some true ∧ row.delayedEid = some eid

instance (row : DelayStatusRow) (eid : ℤ) : Decidable (row.Claims eid) :=
  inferInstanceAs (Decidable (_ ∨ _))

/-- The service was asked about the EID and denied neither it nor the identity as a whole. -/
def Granted {ε : Type*} (checkEntitlements : List ℤ → Except ε EntitlementCheck) (sent : List ℤ)
    (eid : ℤ) : Prop :=
  eid ∈ sent ∧ ∃ check, checkEntitlements sent = .ok check ∧ check.deniedAll = false ∧
    eid ∉ check.failedEids

/-- The feeds of a row: the real-time slots and the delayed one. -/
def DelayStatusRow.feeds (row : DelayStatusRow) : List (List ℤ) :=
  [row.realtimeEids.reduceOption, row.delayedEid.toList]

/-- A feed that is left entitled has no EID beyond 32 bits. -/
def EntitlementCheck.Covers (check : EntitlementCheck) (row : DelayStatusRow) : Prop :=
  ∀ feed ∈ row.feeds,
    (∀ eid ∈ feed, Entitlements.entitled check.failedEids check.deniedAll eid = true) →
      ∀ eid ∈ feed, (toI32 eid).isSome

def uncheckedRows (n : Numbers) (tickers : List String) (values : Map String (Map String String))
    (status : Map String DelayedMeta) (errors : Map String String) : List DelayStatusRow :=
  tickers.eraseDups.map (delayStatusRow n values status errors)

variable {ε : Type*} {n : Numbers} {tickers : List String} {eid : ℤ}
  {values : Map String (Map String String)} {status : Map String DelayedMeta}
  {errors : Map String String} {rows : List DelayStatusRow} {row : DelayStatusRow}
  {checkEntitlements : List ℤ → Except ε EntitlementCheck} {checkIdentity : Bool}

theorem identityEids_applyIdentityCheck (rows : List DelayStatusRow) (failedEids : List ℤ)
    (deniedAll : Bool) :
    identityEids (applyIdentityCheck rows failedEids deniedAll) = identityEids rows := by
  simp only [identityEids, applyIdentityCheck, flatMap_map]
  rfl

theorem mem_identityEids_iff :
    eid ∈ identityEids rows ↔ (∃ row ∈ rows, eid ∈ row.eids) ∧ (toI32 eid).isSome := by
  simp only [identityEids, mem_eraseDups, mem_filterMap, mem_flatMap, toI32]
  grind

/-- After a check a row claims the EIDs of the feeds that have passed as a whole. -/
theorem exists_claims_iff {failedEids : List ℤ} {deniedAll : Bool}
    (hnone : ∀ row ∈ rows, row.realtimeEntitled = none) :
    (∃ row ∈ applyIdentityCheck rows failedEids deniedAll, row.Claims eid) ↔
      ∃ row ∈ rows, ∃ feed ∈ row.feeds, eid ∈ feed ∧
        ∀ other ∈ feed, entitled failedEids deniedAll other = true := by
  constructor
  · rintro ⟨checked, hchecked, h⟩
    obtain ⟨row, hrow, rfl⟩ := mem_map.mp hchecked
    refine ⟨row, hrow, ?_⟩
    rcases h with ⟨htrue, hmem⟩ | ⟨htrue, heq⟩
    · dsimp only at htrue hmem
      split at htrue
      · simp [hnone row hrow] at htrue
      · exact ⟨_, mem_cons_self, reduceOption_mem_iff.mpr hmem, by simpa using htrue⟩
    · dsimp only at htrue heq
      exact ⟨[eid], by simp [DelayStatusRow.feeds, heq], mem_singleton_self eid,
        by simpa [heq] using htrue⟩
  · rintro ⟨row, hrow, feed, hfeed, heid, hall⟩
    refine ⟨_, mem_map_of_mem hrow, ?_⟩
    rcases mem_cons.mp hfeed with rfl | hfeed
    · left
      dsimp only
      rw [if_neg (ne_nil_of_mem heid)]
      exact ⟨by simpa using hall, reduceOption_mem_iff.mp heid⟩
    · obtain rfl := mem_singleton.mp hfeed
      have heq : row.delayedEid = some eid := by simpa using heid
      exact .inr ⟨by simpa [heq] using hall, heq⟩

theorem mem_eids_of_feeds {feed : List ℤ} (hfeed : feed ∈ row.feeds) (heid : eid ∈ feed) :
    eid ∈ row.eids := by
  simp only [DelayStatusRow.feeds, mem_cons, not_mem_nil, or_false] at hfeed
  rw [DelayStatusRow.eids, reduceOption_mem_iff, mem_append, mem_singleton]
  rcases hfeed with rfl | rfl
  · exact .inl (reduceOption_mem_iff.mp heid)
  · exact .inr (Option.mem_toList.mp heid).symm

/-- Every feed reported as entitled was in the check that was sent and passed it, exactly if no feed
that the answer leaves entitled has an EID beyond 32 bits. -/
theorem granted_delayStatus_iff
    (h : delayStatus n tickers values status errors checkIdentity checkEntitlements = .ok rows) :
    (∀ row ∈ rows, ∀ eid, row.Claims eid → Granted checkEntitlements (identityEids rows) eid) ↔
      (checkIdentity = true →
        identityEids (uncheckedRows n tickers values status errors) ≠ [] →
        ∀ check, checkEntitlements (identityEids (uncheckedRows n tickers values status errors)) =
          .ok check → ∀ row ∈ uncheckedRows n tickers values status errors, check.Covers row) := by
  have hnone : ∀ row ∈ uncheckedRows n tickers values status errors,
      row.realtimeEntitled = none ∧ row.delayedEntitled = none := by
    intro row hmem
    obtain ⟨ticker, -, rfl⟩ := mem_map.mp hmem
    exact ⟨rfl, rfl⟩
  rw [delayStatus, ← uncheckedRows] at h
  generalize uncheckedRows n tickers values status errors = fresh at h hnone ⊢
  split at h
  · rename_i hasked
    cases hcheck : checkEntitlements (identityEids fresh) with
    | error error =>
      rw [hcheck] at h
      cases h
    | ok check =>
      rw [hcheck] at h
      cases h
      rw [identityEids_applyIdentityCheck]
      constructor
      · intro hgranted _ _ _ hanswer row hrow feed hfeed hentitled eid heid
        obtain rfl := Except.ok.inj hanswer
        obtain ⟨checked, hmem, hclaims⟩ :=
          (exists_claims_iff fun row hmem => (hnone row hmem).1).mpr
            ⟨row, hrow, feed, hfeed, heid, hentitled⟩
        exact (mem_identityEids_iff.mp (hgranted checked hmem eid hclaims).1).2
      · intro hcovers checked hmem eid hclaims
        obtain ⟨row, hrow, feed, hfeed, heid, hentitled⟩ :=
          (exists_claims_iff fun row hmem => (hnone row hmem).1).mp ⟨checked, hmem, hclaims⟩
        have hfit := hcovers hasked.1 hasked.2 check rfl row hrow feed hfeed hentitled eid heid
        refine ⟨mem_identityEids_iff.mpr ⟨⟨row, hrow, mem_eids_of_feeds hfeed heid⟩, hfit⟩,
          check, hcheck, ?_⟩
        simpa [entitled] using hentitled eid heid
  · rename_i hasked
    obtain rfl := Except.ok.inj h
    constructor
    · exact fun _ hflag hsent => absurd ⟨hflag, hsent⟩ hasked
    · intro _ row hrow eid hclaims
      obtain ⟨hreal, hdel⟩ := hnone row hrow
      simp [DelayStatusRow.Claims, hreal, hdel] at hclaims

def decimal : Numbers where
  trim := id
  parseI64 text := some (text.toList.foldl (fun n c => 10 * n + (c.toNat - 48)) 0 : ℕ)
  parseF64 _ := none

def feeds (ticker first second : String) : Map String (Map String String) :=
  AList.singleton ticker ((AList.singleton "FEED_EID1" first).insert "FEED_EID2" second)

/-- The service knows the identity and fails the given EIDs. -/
def failing (eids : List ℤ) (_ : List ℤ) : Except Unit EntitlementCheck := .ok ⟨false, eids⟩

/-- Two entitled EIDs, and one beyond 32 bits beside one that has failed. -/
theorem granted_delayStatus_feeds :
    ∃ rows, delayStatus decimal ["VOD LN Equity", "BARC LN Equity"]
        ((feeds "VOD LN Equity" "14003" "14005").union (feeds "BARC LN Equity" "7" "2147483648"))
        ∅ ∅ true (failing [7]) = .ok rows ∧
      rows.map (·.realtimeEntitled) = [some true, some false] ∧
      ∀ row ∈ rows, ∀ eid, row.Claims eid → Granted (failing [7]) (identityEids rows) eid := by
  obtain ⟨rows, hrows⟩ : ∃ rows, delayStatus decimal ["VOD LN Equity", "BARC LN Equity"]
      ((feeds "VOD LN Equity" "14003" "14005").union (feeds "BARC LN Equity" "7" "2147483648"))
      ∅ ∅ true (failing [7]) = .ok rows := ⟨_, rfl⟩
  refine ⟨rows, hrows, ?_, (granted_delayStatus_iff hrows).mpr ?_⟩
  · cases hrows
    rfl
  · intro _ _ check hcheck
    obtain rfl := Except.ok.inj hcheck
    unfold EntitlementCheck.Covers
    decide

/-- An EID beyond 32 bits is left out of the check and counts as entitled. -/
theorem delayStatus_claims_unchecked :
    ∃ row, delayStatus decimal ["VOD LN Equity"]
        (feeds "VOD LN Equity" "14003" "2147483648") ∅ ∅ true
        (fun _ => (.ok ⟨true, []⟩ : Except Unit EntitlementCheck)) = .ok [row] ∧
      row.Claims 2147483648 ∧ identityEids [row] = [14003] := by
  refine ⟨⟨"VOD LN Equity", none, none, none, none, [some 14003, some 2147483648, none, none], none,
    some true, none, none⟩, ?_, ?_, ?_⟩
  · rfl
  · decide
  · decide

end Xbbg.Entitlements
