import Xbbg.Library.Lists
import Xbbg.Library.Machine
import Xbbg.Model.ServiceOpens
import Mathlib.Data.Nat.Bitwise

/-! Attempts to open a service: one for each service at a time, told apart by their correlation
ids. A waiter stands in one place only, as a sender of its attempt or with the outcome that it got,
and every step but a registration moves or drops it. -/

namespace Xbbg.ServiceOpens

open List Library

def Attempt.key (attempt : Attempt) : String × ℕ := (attempt.service, attempt.cid)

/-- The senders, each with the correlation id of the attempt. -/
def Attempt.claims (attempt : Attempt) : List (ℕ × ℕ) :=
  attempt.waiters.map fun w => (w, attempt.cid)

theorem attemptCid_of_lt {id : ℕ} (h : id < 2 ^ 62) : attemptCid id = 2 ^ 62 + id := by
  rw [attemptCid, serviceOpenCidTag, Nat.and_two_pow_sub_one_eq_mod, Nat.mod_eq_of_lt h]
  simpa using (Nat.two_pow_add_eq_or_of_lt h 1).symm

namespace Opens

variable {s t u : Opens} {attempt : Attempt} {service : String} {cid w : ℕ}

def keys (s : Opens) : List (String × ℕ) :=
  s.byService.map Attempt.key

def tableClaims (byService : List Attempt) : List (ℕ × ℕ) :=
  byService.flatMap Attempt.claims

/-- Every sender and every outcome that a waiter got, with the attempt that it is of. -/
def claims (s : Opens) : List (ℕ × ℕ) :=
  tableClaims s.byService ++ (tableClaims (s.completing.map Prod.fst) ++
    s.sent.map fun outcome => (outcome.waiter, outcome.cid))

/-- The result is the waiter's own timeout, or what it got. -/
def Accounts (s : Opens) (w : ℕ) (result : OpenResult) : Prop :=
  result = .timeout ∨ ∃ outcome ∈ s.sent, outcome.waiter = w ∧ outcome.result = result

structure Sound (s : Opens) : Prop where
  nextId : s.nextId = s.issued.length
  issued : s.issued.Nodup ∧ ∀ cid ∈ s.issued, cid ≤ 2 ^ 62 + s.issued.length
  services : (s.keys.map Prod.fst).Nodup
  cids : (s.keys.map Prod.snd).Nodup ∧ s.keys.map Prod.snd ⊆ s.issued
  once : ∀ claim, s.claims.count claim ≤ 1
  joined : ∀ claim ∈ s.claims, (s.waiters.map (·.cid))[claim.1]? = some claim.2
  results : ∀ w waiter result, s.waiters[w]? = some waiter → waiter.result = some result →
    s.Accounts w result

theorem sound_new : Sound new := by
  constructor <;> simp [new, keys, claims, tableClaims]

/-- Attempts and waiters stay where they are, move or get lost. -/
structure Shrinks (s t : Opens) : Prop where
  ids : t.nextId = s.nextId ∧ t.issued = s.issued
  keys : t.keys.Subperm s.keys
  count : ∀ claim, t.claims.count claim ≤ s.claims.count claim
  waiters : t.waiters.map (·.cid) = s.waiters.map (·.cid)
  sent : s.sent ⊆ t.sent
  results : ∀ w waiter result, t.waiters[w]? = some waiter → waiter.result = some result →
    s.Accounts w result ∨ ∃ old, s.waiters[w]? = some old ∧ old.result = some result

theorem Sound.shrinks (h : Sound s) (hs : Shrinks s t) : Sound t := by
  obtain ⟨hn, hi⟩ := hs.ids
  obtain ⟨keys, hp, hsu⟩ := hs.keys
  refine ⟨by rw [hn, hi, h.nextId], hi ▸ h.issued,
    (hp.map _).nodup_iff.mp ((hsu.map _).nodup h.services),
    ⟨(hp.map _).nodup_iff.mp ((hsu.map _).nodup h.cids.1), ?_⟩,
    fun claim => (hs.count claim).trans (h.once claim), ?_, ?_⟩
  · rw [hi]
    exact Subset.trans (map_subset _ hs.keys.subset) h.cids.2
  · intro claim hm
    rw [hs.waiters]
    have hc := hs.count claim
    exact h.joined claim (count_pos_iff.mp ((count_pos_iff.mpr hm).trans_le hc))
  · intro w waiter result hg hr
    have ha : s.Accounts w result := by
      rcases hs.results w waiter result hg hr with ha | ⟨old, ho, hr⟩
      · exact ha
      · exact h.results w old result ho hr
    exact ha.imp_right fun ⟨outcome, hm, hf⟩ => ⟨outcome, hs.sent hm, hf⟩

variable {byService : List Attempt}

theorem Shrinks.of_table {completing : List (Attempt × OpenResult)}
    (hk : (byService.map Attempt.key).Subperm s.keys)
    (hc : ∀ claim, (tableClaims byService).count claim +
        (tableClaims (completing.map Prod.fst)).count claim ≤
      (tableClaims s.byService).count claim +
        (tableClaims (s.completing.map Prod.fst)).count claim) :
    Shrinks s { s with byService, completing } := by
  refine ⟨⟨rfl, rfl⟩, hk, fun claim => ?_, rfl, Subset.refl _,
    fun w waiter res hg hr => .inr ⟨waiter, hg, hr⟩⟩
  have := hc claim
  simp only [claims, count_append]
  omega

theorem Shrinks.refl (s : Opens) : Shrinks s s :=
  .of_table (.refl _) fun _ => le_rfl

theorem Shrinks.set {waiter : Waiter} (hg : s.waiters[w]? = some waiter) (stage : Stage)
    {result : Option OpenResult} (hre : result = waiter.result ∨ ∀ r ∈ result, s.Accounts w r) :
    Shrinks s (s.set w { waiter with stage, result }) := by
  refine ⟨⟨rfl, rfl⟩, .refl _, fun _ => le_rfl, ?_, Subset.refl _, ?_⟩
  · obtain ⟨front, back, hsp, -, hm⟩ := exists_split_of_getElem? hg
    rw [Opens.set, set_eq_modify, hm, hsp]
    simp
  · intro i found r hf hr
    rw [Opens.set, getElem?_set] at hf
    split at hf
    · rename_i hi
      subst hi
      split at hf
      · cases hf
        rcases hre with hs | ha
        · exact .inr ⟨waiter, hg, hs ▸ hr⟩
        · exact .inl (ha r hr)
      · cases hf
    · exact .inr ⟨found, hf, hr⟩

theorem count_table (hm : attempt ∈ s.byService) (claim : ℕ × ℕ) :
    (tableClaims s.byService).count claim =
      attempt.claims.count claim + (tableClaims (s.byService.erase attempt)).count claim := by
  have hp := (perm_cons_erase hm).flatMap_right Attempt.claims
  rw [tableClaims, hp.count_eq, flatMap_cons, count_append, tableClaims]

theorem Shrinks.complete (hm : attempt ∈ s.byService) (res : OpenResult) :
    Shrinks s (s.complete attempt res) := by
  refine .of_table (erase_sublist.map _).subperm fun claim => ?_
  rw [count_table hm]
  simp only [tableClaims, map_append, map_singleton, flatMap_append,
    flatMap_singleton, count_append]
  omega

theorem get_eq_some (h : s.get service = some attempt) :
    attempt ∈ s.byService ∧ attempt.service = service :=
  ⟨mem_of_find?_eq_some h, by simpa using find?_some h⟩

theorem Shrinks.remove (s : Opens) (service : String) (cid : ℕ) :
    Shrinks s (s.remove service cid) := by
  unfold Opens.remove
  split
  · rename_i attempt hg
    split
    · exact .complete (get_eq_some hg).1 _
    · exact .refl s
  · exact .refl s

theorem Shrinks.prune (s : Opens) (service : String) (cid : ℕ) :
    Shrinks s (s.prune service cid) := by
  unfold Opens.prune
  split
  · rename_i attempt hg
    have hm := (get_eq_some hg).1
    split
    · exact .refl s
    · split
      · refine .of_table (erase_sublist.map _).subperm fun claim => ?_
        rw [count_table hm]
        omega
      · have hp := (perm_cons_erase hm).map Attempt.key
        refine .of_table hp.symm.subperm fun claim => ?_
        have hl : ((s.live attempt.waiters).map fun w => (w, attempt.cid)).Sublist
            attempt.claims := filter_sublist.map _
        have := hl.count_le claim
        rw [count_table hm, tableClaims, flatMap_cons, count_append, Attempt.claims]
        simp only [tableClaims]
        omega
  · exact .refl s

theorem Shrinks.send {i : ℕ} {rest : List ℕ} {res : OpenResult}
    (hg : s.completing[i]? = some (⟨service, cid, w :: rest⟩, res)) (lost : Bool) :
    Shrinks s { s with
      completing := s.completing.set i (⟨service, cid, rest⟩, res)
      sent := if lost then s.sent else s.sent ++ [⟨w, cid, res⟩] } := by
  obtain ⟨front, back, hs, -, hm⟩ := exists_split_of_getElem? hg
  refine ⟨⟨rfl, rfl⟩, .refl _, fun claim => ?_, rfl, ?_,
    fun w waiter res hg hr => .inr ⟨waiter, hg, hr⟩⟩
  · rw [claims, claims, set_eq_modify, hm, hs]
    cases lost <;>
      simp [tableClaims, Attempt.claims, count_cons, count_append]
    omega
  · cases lost <;> simp

theorem Sound.join (h : Sound s) {nextId : ℕ} {issued : List ℕ} (hn : nextId = issued.length)
    (hi : issued.Nodup ∧ ∀ cid ∈ issued, cid ≤ 2 ^ 62 + issued.length)
    (hs : ((byService.map Attempt.key).map Prod.fst).Nodup)
    (hci : ((byService.map Attempt.key).map Prod.snd).Nodup ∧
      (byService.map Attempt.key).map Prod.snd ⊆ issued)
    (hco : ∀ claim, (tableClaims byService).count claim ≤
      ((s.waiters.length, cid) :: tableClaims s.byService).count claim) :
    Sound { s with
      byService, nextId, issued
      waiters := s.waiters ++ [⟨service, cid, .waiting, none⟩] } := by
  have hgr : ∀ claim, count claim (tableClaims byService ++
      (tableClaims (s.completing.map Prod.fst) ++ s.sent.map fun out => (out.waiter, out.cid))) ≤
      ((s.waiters.length, cid) :: s.claims).count claim := fun claim => by
    have := hco claim
    simp only [claims, count_append, count_cons] at this ⊢
    omega
  refine ⟨hn, hi, hs, hci, fun claim => (hgr claim).trans ?_, fun claim hm => ?_, ?_⟩
  · by_cases heq : claim = (s.waiters.length, cid)
    · have hne : claim ∉ s.claims := fun hm => by
        simpa [heq] using h.joined claim hm
      rw [heq, count_cons_self, ← heq, count_eq_zero.mpr hne]
    · rw [count_cons_of_ne (Ne.symm heq)]
      exact h.once claim
  · have hp := (count_pos_iff.mpr hm).trans_le (hgr claim)
    rcases mem_cons.mp (count_pos_iff.mp hp) with rfl | ho
    · simp
    · have hc := h.joined claim ho
      rw [List.map_append, List.getElem?_append_left (List.getElem?_eq_some_iff.mp hc).1, hc]
  · intro w waiter res hg hr
    rw [getElem?_append] at hg
    split at hg
    · exact h.results w waiter res hg hr
    · rw [getElem?_singleton] at hg
      split at hg
      · cases hg
        cases hr
      · cases hg

theorem Sound.register (h : Sound s) (service : String) (accepted : Bool)
    (hf : (s.register service accepted).issued.length < 2 ^ 62) :
    Sound (s.register service accepted) := by
  unfold Opens.register at hf ⊢
  split
  · rename_i attempt hg
    have hm := (get_eq_some hg).1
    have hk : s.keys.Perm (attempt.key :: (s.byService.erase attempt).map Attempt.key) :=
      (perm_cons_erase hm).map Attempt.key
    refine h.join h.nextId h.issued ((hk.map _).nodup_iff.mp h.services)
      ⟨(hk.map _).nodup_iff.mp h.cids.1,
        Subset.trans (hk.map Prod.snd).symm.subset h.cids.2⟩ fun claim => ?_
    have hli : ((s.live attempt.waiters).map fun w => (w, attempt.cid)).Sublist
        attempt.claims := filter_sublist.map _
    have hle := hli.count_le claim
    rw [count_cons, count_table hm]
    simp only [tableClaims, flatMap_cons, Attempt.claims, map_append, map_singleton,
      count_append, count_singleton] at hle ⊢
    omega
  · rename_i hn
    simp only [hn] at hf
    have hl : s.issued.length + 1 < 2 ^ 62 := by
      cases accepted <;> simpa using hf
    have hnx : (s.nextId + 1) % 2 ^ 64 = s.issued.length + 1 := by
      rw [h.nextId, Nat.mod_eq_of_lt (by omega)]
    have hfr : attemptCid (s.issued.length + 1) ∉ s.issued := fun hm => by
      have := h.issued.2 _ hm
      rw [attemptCid_of_lt hl] at this
      omega
    have hi : (s.issued ++ [attemptCid (s.issued.length + 1)]).Nodup ∧
        ∀ cid ∈ s.issued ++ [attemptCid (s.issued.length + 1)],
          cid ≤ 2 ^ 62 + (s.issued ++ [attemptCid (s.issued.length + 1)]).length := by
      refine ⟨h.issued.1.append (by simp) (by simpa using hfr), fun cid hm => ?_⟩
      rw [length_append, length_singleton]
      rcases mem_append.mp hm with ho | hnw
      · have := h.issued.2 cid ho
        omega
      · rw [mem_singleton.mp hnw, attemptCid_of_lt hl]
    have hkn := Subset.trans h.cids.2
      (subset_append_left s.issued [attemptCid (s.issued.length + 1)])
    rw [hnx]
    cases accepted with
    | false => exact ⟨by simp, hi, h.services, ⟨h.cids.1, hkn⟩, h.once, h.joined, h.results⟩
    | true =>
      refine h.join (by simp) hi (nodup_cons.mpr ⟨fun hm => ?_, h.services⟩)
        ⟨nodup_cons.mpr ⟨fun hm => hfr (h.cids.2 hm), h.cids.1⟩,
          cons_subset.mpr ⟨by simp [Attempt.key], hkn⟩⟩ fun claim => le_rfl
      simp only [mem_map, exists_exists_and_eq_and] at hm
      obtain ⟨attempt, ha, heq⟩ := hm
      have hne := find?_eq_none.mp hn attempt ha
      exact hne (by simpa [Attempt.key] using heq)

theorem turn_eq_some {stage : Stage} {next : Waiter → Opens} (h : s.turn w stage next = some t) :
    ∃ waiter, s.waiters[w]? = some waiter ∧ waiter.stage = stage ∧ t = next waiter := by
  obtain ⟨waiter, hg, hn⟩ := Option.bind_eq_some_iff.mp h
  obtain ⟨hs, heq⟩ := Option.ite_none_right_eq_some.mp hn
  exact ⟨waiter, hg, hs, (Option.some.inj heq).symm⟩

variable {a : Action}

/-- Every step but a registration, in two turns. -/
theorem shrinks_of_step (hs : step s a = some t)
    (ho : ∀ service accepted, a ≠ .register service accepted) :
    ∃ u, Shrinks s u ∧ Shrinks u t := by
  cases a with
  | register service accepted => exact absurd rfl (ho service accepted)
  | receive w =>
    obtain ⟨outcome, hf, ht⟩ := Option.bind_eq_some_iff.mp hs
    obtain ⟨waiter, hg, -, rfl⟩ := turn_eq_some ht
    have hm := mem_of_find?_eq_some hf
    have hw : outcome.waiter = w := by simpa using find?_some hf
    refine ⟨s, .refl s, .set hg _ (.inr fun r hr => .inr ⟨outcome, hm, hw, ?_⟩)⟩
    exact Option.some.inj hr
  | timeout w | cancel w =>
    obtain ⟨waiter, hg, -, rfl⟩ := turn_eq_some hs
    exact ⟨s, .refl s, .set hg _ (.inl rfl)⟩
  | expire w =>
    obtain ⟨waiter, hg, -, rfl⟩ := turn_eq_some hs
    exact ⟨s, .refl s, .set hg _ (.inr fun r hr => .inl (Option.some.inj hr).symm)⟩
  | removeAttempt w =>
    obtain ⟨waiter, hg, -, rfl⟩ := turn_eq_some hs
    exact ⟨_, .set hg .expired (.inl rfl), .remove _ _ _⟩
  | prune w =>
    obtain ⟨waiter, hg, -, rfl⟩ := turn_eq_some hs
    exact ⟨_, .set hg .done (.inl rfl), .prune _ _ _⟩
  | reply cid failure =>
    simp only [step] at hs
    split at hs
    · rename_i attempt hf
      cases hs
      exact ⟨s, .refl s, .complete (mem_of_find?_eq_some hf) _⟩
    · cases hs
      exact ⟨s, .refl s, .refl s⟩
  | drain reason =>
    cases hs
    refine ⟨s, .refl s, .of_table nil_subperm fun claim => ?_⟩
    simp only [tableClaims, map_append, map_map, Function.comp_def, map_id',
      flatMap_append, count_append, flatMap_nil, count_nil]
    omega
  | send i =>
    simp only [step] at hs
    split at hs
    · rename_i hg
      cases hs
      exact ⟨s, .refl s, .send hg _⟩
    · cases hs

theorem sound_of_step (hs : step s a = some t)
    (h : s.issued.length < 2 ^ 62 → Sound s) (hf : t.issued.length < 2 ^ 62) : Sound t := by
  by_cases hr : ∃ service accepted, a = .register service accepted
  · obtain ⟨service, accepted, rfl⟩ := hr
    cases hs
    refine (h (lt_of_le_of_lt ?_ hf)).register service accepted hf
    unfold Opens.register
    split
    · exact le_rfl
    · cases accepted <;> simp
  · obtain ⟨u, hsu, hut⟩ := shrinks_of_step hs fun service accepted heq =>
      hr ⟨service, accepted, heq⟩
    rw [hut.ids.2, hsu.ids.2] at hf
    exact ((h hf).shrinks hsu).shrinks hut

def addressed (s : Opens) : Action → Option ℕ
  | .reply cid _ => some cid
  | .removeAttempt w | .prune w => s.waiters[w]?.map (·.cid)
  | _ => none

/-- The attempt is still pending, with all its waiters that have not gone away. -/
def Keeps (s t : Opens) (attempt : Attempt) : Prop :=
  ∃ kept ∈ t.byService, kept.key = attempt.key ∧ s.live attempt.waiters ⊆ kept.waiters

theorem Keeps.of_mem (h : attempt ∈ t.byService) : Keeps s t attempt :=
  ⟨attempt, h, rfl, filter_subset_self _⟩

theorem live_set {waiter : Waiter} (hg : s.waiters[w]? = some waiter)
    (hs : waiter.stage = .closed) (waiters : List ℕ) :
    (s.set w { waiter with stage := .done }).live waiters = s.live waiters := by
  refine filter_congr fun i _ => ?_
  rw [isClosed, isClosed, Opens.set, getElem?_set]
  split
  · rename_i hi
    subst hi
    split <;> simp_all
  · rfl

theorem keeps_of_step (hs : step s a = some t) (hd : ∀ reason, a ≠ .drain reason)
    (hm : attempt ∈ s.byService) (hst : s.addressed a ≠ some attempt.cid ∨
      (∃ w, a = .prune w) ∧ s.live attempt.waiters ≠ []) : Keeps s t attempt := by
  have he : ∀ found : Attempt, attempt.cid ≠ found.cid → attempt ∈ s.byService.erase found :=
    fun found hne => (mem_erase_of_ne fun heq => hne (congrArg _ heq)).mpr hm
  cases a with
  | register service accepted =>
    cases hs
    unfold Opens.register
    split
    · rename_i found hg
      by_cases heq : attempt = found
      · subst heq
        exact ⟨_, .head _, rfl, subset_append_left _ _⟩
      · exact .of_mem (.tail _ ((mem_erase_of_ne heq).mpr hm))
    · cases accepted with
      | false => exact .of_mem hm
      | true => exact .of_mem (.tail _ hm)
  | receive w =>
    obtain ⟨_, -, ht⟩ := Option.bind_eq_some_iff.mp hs
    obtain ⟨_, -, -, rfl⟩ := turn_eq_some ht
    exact .of_mem hm
  | timeout w | cancel w | expire w =>
    obtain ⟨_, -, -, rfl⟩ := turn_eq_some hs
    exact .of_mem hm
  | removeAttempt w =>
    obtain ⟨waiter, hg, -, rfl⟩ := turn_eq_some hs
    have hne : waiter.cid ≠ attempt.cid := by
      simpa [addressed, hg] using hst
    unfold Opens.remove
    split
    · split
      · rename_i found _ hc
        exact .of_mem (he found (hc ▸ hne.symm))
      · exact .of_mem hm
    · exact .of_mem hm
  | prune w =>
    obtain ⟨waiter, hg, hsa, rfl⟩ := turn_eq_some hs
    simp only [addressed, hg, Option.map_some, ne_eq, Option.some.injEq] at hst
    unfold Opens.prune
    split
    · rename_i found hf
      rw [live_set hg hsa]
      split
      · exact .of_mem hm
      · rename_i hc
        by_cases heq : attempt = found
        · subst heq
          have hl := (hst.resolve_left fun hne => hne (not_not.mp hc).symm).2
          rw [if_neg hl]
          exact ⟨_, .head _, rfl, Subset.refl _⟩
        · have hr := (mem_erase_of_ne heq).mpr hm
          split
          · exact .of_mem hr
          · exact .of_mem (.tail _ hr)
    · exact .of_mem hm
  | reply cid failure =>
    simp only [ServiceOpens.step] at hs
    split at hs
    · rename_i found hf
      cases hs
      have hc : found.cid = cid := by simpa using find?_some hf
      have hne : cid ≠ attempt.cid := by simpa [addressed] using hst
      exact .of_mem (he found (hc ▸ hne.symm))
    · cases hs
      exact .of_mem hm
  | drain reason => exact absurd rfl (hd reason)
  | send i =>
    simp only [ServiceOpens.step] at hs
    split at hs
    · cases hs
      exact .of_mem hm
    · cases hs

end Opens

open Xbbg.ServiceOpens.Opens

/-- While fewer than `2 ^ 62` correlation ids have been drawn: pending attempts have their own
services and ids, which no other attempt has had; a waiter gets at most one outcome, of the attempt
that it joined, and returns that or its own timeout; and an attempt only leaves the table in a
drain or on behalf of itself, and when it is pruned without live waiters. -/
theorem attempts_of_run {s : Opens} {actions : List Action} (hrun : FreeRun step .new actions s)
    (hfew : s.issued.length < 2 ^ 62) :
    ((s.byService.map (·.service)).Nodup ∧ (s.byService.map (·.cid)).Nodup ∧ s.issued.Nodup ∧
      s.byService.map (·.cid) ⊆ s.issued) ∧
    (s.sent.map (·.waiter)).Nodup ∧
    (∀ outcome ∈ s.sent, ∃ waiter, s.waiters[outcome.waiter]? = some waiter ∧
      waiter.cid = outcome.cid) ∧
    (∀ w waiter result, s.waiters[w]? = some waiter → waiter.result = some result →
      result = .timeout ∨ ∃ outcome ∈ s.sent, outcome.waiter = w ∧ outcome.result = result) ∧
    ∀ a t, step s a = some t → (∀ reason, a ≠ .drain reason) → ∀ attempt ∈ s.byService,
      s.addressed a ≠ some attempt.cid ∨ (∃ w, a = .prune w) ∧ s.live attempt.waiters ≠ [] →
      Keeps s t attempt := by
  have hsound : Sound s :=
    hrun.invariant (fun _ _ _ h _ hstep => sound_of_step hstep h) (fun _ => sound_new) hfew
  have hser := hsound.services
  have hcids := hsound.cids
  simp only [Opens.keys, map_map] at hser hcids
  have hjoined : ∀ outcome ∈ s.sent, ∃ waiter, s.waiters[outcome.waiter]? = some waiter ∧
      waiter.cid = outcome.cid := by
    intro outcome hmem
    have hclaim := hsound.joined (outcome.waiter, outcome.cid)
      (mem_append_right _ (mem_append_right _ (mem_map_of_mem hmem)))
    rwa [getElem?_map, Option.map_eq_some_iff] at hclaim
  refine ⟨⟨hser, hcids.1, hsound.issued.1, hcids.2⟩, ?_, hjoined, hsound.results,
    fun a t hstep hdrain attempt hmem => keeps_of_step hstep hdrain hmem⟩
  -- outcomes of one waiter are of one attempt, so that they are the same place
  have hnodup : (s.sent.map fun outcome => (outcome.waiter, outcome.cid)).Nodup := by
    refine nodup_iff_count_le_one.mpr fun claim => le_trans ?_ (hsound.once claim)
    simp only [claims, count_append]
    omega
  have hfst := hnodup.map_on (f := Prod.fst) fun x hx y hy heq => by
    obtain ⟨outcome, hmem, rfl⟩ := mem_map.mp hx
    obtain ⟨outcome', hmem', rfl⟩ := mem_map.mp hy
    obtain ⟨waiter, hget, hcid⟩ := hjoined outcome hmem
    obtain ⟨waiter', hget', hcid'⟩ := hjoined outcome' hmem'
    rw [show outcome.waiter = outcome'.waiter from heq] at hget
    cases hget.symm.trans hget'
    exact Prod.ext heq (hcid.symm.trans hcid')
  rwa [map_map] at hfst

/-- Two callers share an attempt, which the timer of the first ends. A third starts a new attempt,
which the late reply to the first one and the first caller's prune leave alone. -/
def staleReply : List Action :=
  [.register "//blp/refdata" true, .register "//blp/refdata" true, .timeout 0, .removeAttempt 0,
    .register "//blp/refdata" true, .reply (2 ^ 62 + 1) none, .send 0, .send 0, .receive 1,
    .expire 0, .prune 0]

theorem attempts_of_run_stale : ∃ s, FreeRun step .new staleReply s ∧ s.issued.length = 2 ∧
      (s.sent.map fun outcome => (outcome.waiter, outcome.cid, outcome.result)) =
        [(0, 2 ^ 62 + 1, .timeout), (1, 2 ^ 62 + 1, .timeout)] ∧
      (s.byService.map (·.cid)).Nodup ∧ (s.sent.map (·.waiter)).Nodup := by
  have hend : ((runActions step .new staleReply).map fun s => (s.issued.length,
      s.sent.map fun outcome => (outcome.waiter, outcome.cid, outcome.result))) =
      some (2, [(0, 2 ^ 62 + 1, .timeout), (1, 2 ^ 62 + 1, .timeout)]) := by
    decide +kernel
  obtain ⟨s, hs, hfac⟩ := Option.map_eq_some_iff.mp hend
  simp only [Prod.mk.injEq] at hfac
  have hrun := FreeRun.of_runActions hs
  obtain ⟨⟨-, hcids, -⟩, hsent, -⟩ := attempts_of_run hrun (by rw [hfac.1]; decide)
  exact ⟨s, hrun, hfac.1, hfac.2, hcids, hsent⟩

end Xbbg.ServiceOpens
