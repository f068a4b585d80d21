import Xbbg.Library.Lists
import Xbbg.Model.SharedSubscriptions

/-! # Topic aliases

The aliases and the requested topics are checked one after the other against two maps; what is
accepted is a one-to-one assignment of labels to topics. -/

namespace Xbbg.SharedSubscriptions

open List Library

variable {trim : String → String} {topics : List String} {aliases pairs : List (String × String)}
  {byTopic byLabel : Map String String}

def trimmed (trim : String → String) (aliases : List (String × String)) : List (String × String) :=
  aliases.map fun pair => (trim pair.1, pair.2)

/-- The topics with their labels; a requested topic without an alias is its own label. -/
def assigned (trim : String → String) (topics : List String) (aliases : List (String × String)) :
    List (String × String) :=
  trimmed trim aliases ++ ((topics.map trim).filter fun topic =>
    topic ∉ (trimmed trim aliases).map (·.1)).map fun topic => (topic, topic)

/-- Every topic has one label and every label one topic. -/
def OneToOne (pairs : List (String × String)) : Prop :=
  ∀ p ∈ pairs, ∀ q ∈ pairs, p.1 = q.1 ↔ p.2 = q.2

structure Represents (pairs : List (String × String)) (byTopic byLabel : Map String String) :
    Prop where
  topics : ∀ t l, byTopic.lookup t = some l ↔ (t, l) ∈ pairs
  labels : ∀ t l, byLabel.lookup l = some t ↔ (t, l) ∈ pairs

theorem lookup_insert_iff {m : Map String String} {j b : String} {P : String → String → Prop}
    (h : ∀ k c, m.lookup k = some c ↔ P k c) (hj : ∀ c, P j c → c = b) (k c : String) :
    (m.insert j b).lookup k = some c ↔ P k c ∨ k = j ∧ c = b := by
  rw [Map.lookup_insert_if]
  by_cases hk : k = j
  · subst hk
    rw [if_pos rfl, Option.some_inj]
    exact ⟨fun hb => .inr ⟨rfl, hb.symm⟩, fun hc => (hc.elim (hj c) And.right).symm⟩
  · rw [if_neg hk, h]
    exact ⟨.inl, fun hc => hc.resolve_right fun hc => hk hc.1⟩

theorem Represents.insert (h : Represents pairs byTopic byLabel) {t l : String}
    (ht : ∀ c, (t, c) ∈ pairs → c = l) (hl : ∀ c, (c, l) ∈ pairs → c = t) :
    Represents (pairs ++ [(t, l)]) (byTopic.insert t l) (byLabel.insert l t) := by
  constructor
  · intro k c
    rw [lookup_insert_iff h.topics ht, mem_append, mem_singleton, Prod.mk.injEq]
  · intro k c
    rw [lookup_insert_iff (fun c k => h.labels k c) hl, mem_append, mem_singleton, Prod.mk.injEq,
      and_comm]

/-- The aliases are collected, or one of them has another label or topic than one before. -/
theorem collectAliases_spec (h : Represents pairs byTopic byLabel) :
    match collectAliases trim aliases byTopic byLabel with
    | .ok maps => Represents (pairs ++ trimmed trim aliases) maps.1 maps.2
    | .error _ => ¬OneToOne (pairs ++ trimmed trim aliases) := by
  induction aliases generalizing pairs byTopic byLabel with
  | nil => simpa [collectAliases, trimmed] using h
  | cons pair rest ih =>
    obtain ⟨topic, l⟩ := pair
    have hs : pairs ++ trimmed trim ((topic, l) :: rest) =
        (pairs ++ [(trim topic, l)]) ++ trimmed trim rest := by
      simp [trimmed]
    have hm : (trim topic, l) ∈ (pairs ++ [(trim topic, l)]) ++ trimmed trim rest := by simp
    have hc : ∀ p ∈ pairs, ¬(p.1 = trim topic ↔ p.2 = l) →
        ¬OneToOne ((pairs ++ [(trim topic, l)]) ++ trimmed trim rest) := by
      intro p hp hne ho
      exact hne (ho p (by simp [hp]) _ hm)
    rw [hs, collectAliases]
    cases ht : byTopic.lookup (trim topic) with
    | some previous =>
      have hp := (h.topics _ _).mp ht
      by_cases he : previous = l
      · subst he
        simp only [ne_eq, not_true_eq_false, if_false]
        refine ih ⟨fun t c => ?_, fun t c => ?_⟩
        · rw [h.topics, mem_append, mem_singleton]
          exact ⟨.inl, fun hc => hc.elim id fun he => he ▸ hp⟩
        · rw [h.labels, mem_append, mem_singleton]
          exact ⟨.inl, fun hc => hc.elim id fun he => he ▸ hp⟩
      · simp only [ne_eq, he, not_false_eq_true, if_true]
        exact hc _ hp (by simpa using he)
    | none =>
      have hn : ∀ c, (trim topic, c) ∉ pairs := by
        intro c hp
        rw [(h.topics _ _).mpr hp] at ht
        cases ht
      cases hl : byLabel.lookup l with
      | some previous =>
        have hp := (h.labels _ _).mp hl
        have he : previous ≠ trim topic := fun he => hn l (he ▸ hp)
        simp only [ne_eq, he, not_false_eq_true, if_true]
        exact hc _ hp (by simpa using he)
      | none =>
        refine ih (h.insert (fun c hp => absurd hp (hn c)) fun c hp => ?_)
        rw [(h.labels _ _).mpr hp] at hl
        cases hl

def labelled (byTopic : Map String String) (topic : String) : String × String :=
  (topic, (byTopic.lookup topic).getD topic)

/-- The topics are requested in their order, or one of the pairs has the label of another one. -/
def Requested (byTopic : Map String String) (topics : List String)
    (pairs : List (String × String)) : Except String (List (String × String)) → Prop
  | .ok requested => requested = topics.eraseDups.map (labelled byTopic) ∧
      ∀ p ∈ pairs, ∀ q ∈ pairs, p.2 = q.2 → p.1 = q.1
  | .error _ => ¬OneToOne pairs

theorem requested_concat {seen : List String} {t : String}
    (hs : ∀ u ∈ seen, labelled byTopic u ∈ pairs)
    (hn : ∀ u, (u, (labelled byTopic t).2) ∈ pairs → u = t) :
    (if (labelled byTopic t).2 ∈ (seen.eraseDups.map (labelled byTopic)).map (·.2) then
        seen.eraseDups.map (labelled byTopic)
      else seen.eraseDups.map (labelled byTopic) ++ [labelled byTopic t]) =
      (seen ++ [t]).eraseDups.map (labelled byTopic) := by
  have hm : (labelled byTopic t).2 ∈ (seen.eraseDups.map (labelled byTopic)).map (·.2) ↔
      t ∈ seen := by
    simp only [mem_map, mem_eraseDups, exists_exists_and_eq_and]
    refine ⟨fun ⟨u, hu, he⟩ => ?_, fun hm => ⟨t, hm, rfl⟩⟩
    rw [← hn u (he ▸ hs u hu)]
    exact hu
  rw [eraseDups_concat]
  by_cases ht : t ∈ seen
  · rw [if_pos (hm.mpr ht), if_pos ht]
  · rw [if_neg (mt hm.mp ht), if_neg ht, map_append, map_singleton]

theorem requestTopics_spec {seen : List String}
    (h : ∀ l t, byLabel.lookup l = some t ↔ (t, l) ∈ pairs)
    (hs : ∀ t ∈ seen, labelled byTopic t ∈ pairs) :
    Requested byTopic (seen ++ topics.map trim)
      (pairs ++ (topics.map trim).map (labelled byTopic))
      (requestTopics trim byTopic topics byLabel (seen.eraseDups.map (labelled byTopic))) := by
  induction topics generalizing byLabel pairs seen with
  | nil =>
    refine ⟨by simp, fun p hp q hq he => ?_⟩
    simp only [map_nil, append_nil] at hp hq
    have hl := (h p.2 p.1).mpr hp
    rw [he, (h q.2 q.1).mpr hq] at hl
    exact (Option.some.inj hl).symm
  | cons topic rest ih =>
    rw [map_cons, map_cons, append_cons, append_cons pairs, requestTopics]
    generalize trim topic = t
    by_cases hn : ∀ u, (u, (labelled byTopic t).2) ∈ pairs → u = t
    · have hl : ∀ l u, (byLabel.insert (labelled byTopic t).2 t).lookup l = some u ↔
          (u, l) ∈ pairs ++ [labelled byTopic t] := by
        intro l u
        rw [lookup_insert_iff h hn, mem_append, mem_singleton, labelled, Prod.mk.injEq, and_comm]
      have hs' : ∀ u ∈ seen ++ [t], labelled byTopic u ∈ pairs ++ [labelled byTopic t] := by
        intro u hu
        rcases mem_snoc.mp hu with hu | rfl
        · exact mem_append_left _ (hs u hu)
        · exact mem_append_right _ mem_cons_self
      have hi := ih hl hs'
      rw [← requested_concat hs hn] at hi
      cases hl : byLabel.lookup (labelled byTopic t).2 with
      | none =>
        rw [show byLabel.lookup ((byTopic.lookup t).getD t) = none from hl]
        exact hi
      | some previous =>
        obtain rfl : previous = t := hn _ ((h _ _).mp hl)
        rw [show byLabel.lookup ((byTopic.lookup previous).getD previous) = some previous from hl]
        simp only [ne_eq, not_true_eq_false, if_false]
        exact hi
    · obtain ⟨u, hu, hne⟩ : ∃ u, (u, (labelled byTopic t).2) ∈ pairs ∧ u ≠ t := by
        simpa using hn
      rw [show byLabel.lookup ((byTopic.lookup t).getD t) = some u from (h _ _).mpr hu]
      simp only [ne_eq, hne, not_false_eq_true, if_true]
      intro ho
      exact hne ((ho (u, (labelled byTopic t).2) (by simp [hu]) (labelled byTopic t)
        (by simp)).mpr rfl)

/-! ### Valid requests -/

theorem mem_assigned_iff (h : Represents (trimmed trim aliases) byTopic byLabel)
    (p : String × String) :
    p ∈ trimmed trim aliases ++ (topics.map trim).map (labelled byTopic) ↔
      p ∈ assigned trim topics aliases := by
  have hl : ∀ t, t ∈ (trimmed trim aliases).map (·.1) ∧ labelled byTopic t ∈ trimmed trim aliases ∨
      t ∉ (trimmed trim aliases).map (·.1) ∧ labelled byTopic t = (t, t) := by
    intro t
    cases ht : byTopic.lookup t with
    | some l =>
      have hm := (h.topics t l).mp ht
      exact .inl ⟨mem_map.mpr ⟨_, hm, rfl⟩, by simpa [labelled, ht] using hm⟩
    | none =>
      refine .inr ⟨fun hm => ?_, by simp [labelled, ht]⟩
      obtain ⟨⟨u, l⟩, hp, rfl⟩ := mem_map.mp hm
      rw [(h.topics u l).mpr hp] at ht
      cases ht
  rw [assigned, mem_append, mem_append, mem_map, mem_map]
  refine or_congr_right' fun hp => exists_congr fun t => ?_
  rw [mem_filter]
  rcases hl t with ⟨hm, hs⟩ | ⟨hm, hs⟩
  · simp only [hm, not_true_eq_false, decide_false, Bool.false_eq_true, and_false, false_and,
      iff_false, not_and]
    exact fun _ he => hp (he ▸ hs)
  · simp [hm, hs]

/-- An accepted request: the distinct topics in their order, each with its label. -/
def Valid (trim : String → String) (topics : List String)
    (aliases requested : List (String × String)) : Prop :=
  OneToOne (assigned trim topics aliases) ∧ requested.map (·.1) = (topics.map trim).eraseDups ∧
    requested ⊆ assigned trim topics aliases

theorem validateTopicAliases_spec (trim : String → String) (topics : List String)
    (aliases : List (String × String)) :
    match validateTopicAliases trim topics aliases with
    | .ok requested => Valid trim topics aliases requested
    | .error _ => ¬OneToOne (assigned trim topics aliases) := by
  have hc : match collectAliases trim aliases ∅ ∅ with
      | .ok maps => Represents (trimmed trim aliases) maps.1 maps.2
      | .error _ => ¬OneToOne (trimmed trim aliases) :=
    collectAliases_spec (show Represents [] ∅ ∅ from ⟨by simp, by simp⟩)
  cases hm : collectAliases trim aliases ∅ ∅ with
  | error e =>
    rw [hm] at hc
    rw [validateTopicAliases, hm]
    exact fun ho => hc fun p hp q hq => ho p (mem_append_left _ hp) q (mem_append_left _ hq)
  | ok maps =>
    obtain ⟨byTopic, byLabel⟩ := maps
    rw [hm] at hc
    have ha : ∀ p, p ∈ _ ↔ p ∈ assigned trim topics aliases := mem_assigned_iff hc
    have hr : Requested byTopic (topics.map trim)
        (trimmed trim aliases ++ (topics.map trim).map (labelled byTopic))
        (requestTopics trim byTopic topics byLabel []) :=
      requestTopics_spec (fun l t => hc.labels t l) (forall_mem_nil _)
    have hv : validateTopicAliases trim topics aliases =
        requestTopics trim byTopic topics byLabel [] := by
      rw [validateTopicAliases, hm]
      rfl
    rw [← hv] at hr
    cases hq : validateTopicAliases trim topics aliases with
    | error e =>
      rw [hq] at hr
      exact fun ho => hr fun p hp q hq => ho p ((ha p).mp hp) q ((ha q).mp hq)
    | ok requested =>
      rw [hq] at hr
      obtain ⟨rfl, hi⟩ := hr
      -- every pair is the labelled one, so a topic has one label
      have hf : ∀ p ∈ assigned trim topics aliases, p = labelled byTopic p.1 := by
        intro p hp
        rcases mem_append.mp ((ha p).mpr hp) with hp | hp
        · rw [labelled, (hc.topics p.1 p.2).mpr hp, Option.getD_some]
        · obtain ⟨t, -, rfl⟩ := mem_map.mp hp
          rfl
      refine ⟨fun p hp q hq => ⟨fun he => ?_, hi p ((ha p).mpr hp) q ((ha q).mpr hq)⟩, ?_, ?_⟩
      · rw [hf p hp, hf q hq, he]
      · rw [map_map]
        exact map_id _
      · intro p hp
        obtain ⟨t, ht, rfl⟩ := mem_map.mp hp
        exact (ha _).mp (mem_append_right _ (mem_map_of_mem (mem_eraseDups.mp ht)))

theorem OneToOne.eq_of_map_fst {r r' : List (String × String)} (ho : OneToOne pairs)
    (hr : r ⊆ pairs) (hr' : r' ⊆ pairs) (h : r.map (·.1) = r'.map (·.1)) : r = r' := by
  induction r generalizing r' with
  | nil => exact (map_eq_nil_iff.mp h.symm).symm
  | cons p r ih =>
    cases r' with
    | nil => cases h
    | cons q r' =>
      obtain ⟨hp, hr⟩ := cons_subset.mp hr
      obtain ⟨hq, hr'⟩ := cons_subset.mp hr'
      obtain ⟨he, ht⟩ := cons.inj h
      rw [ih hr hr' ht, Prod.ext he ((ho p hp q hq).mp he)]

theorem exists_validateTopicAliases (ho : OneToOne (assigned trim topics aliases)) :
    ∃ requested, validateTopicAliases trim topics aliases = .ok requested := by
  have hs := validateTopicAliases_spec trim topics aliases
  cases hv : validateTopicAliases trim topics aliases with
  | error e =>
    rw [hv] at hs
    exact absurd ho hs
  | ok requested => exact ⟨requested, rfl⟩

theorem validateTopicAliases_eq_ok_iff {requested : List (String × String)} :
    validateTopicAliases trim topics aliases = .ok requested ↔
      Valid trim topics aliases requested := by
  have hs := validateTopicAliases_spec trim topics aliases
  constructor
  · intro hv
    rw [hv] at hs
    exact hs
  · rintro ⟨ho, ht, hm⟩
    obtain ⟨accepted, hv⟩ := exists_validateTopicAliases ho
    rw [hv] at hs ⊢
    rw [ho.eq_of_map_fst hs.2.2 hm (hs.2.1.trans ht.symm)]

theorem nodup_validateTopicAliases {requested : List (String × String)}
    (h : validateTopicAliases trim topics aliases = .ok requested) :
    (requested.map (·.2)).Nodup := by
  obtain ⟨ho, ht, hm⟩ := validateTopicAliases_eq_ok_iff.mp h
  have hn : (requested.map (·.1)).Nodup := by
    rw [ht]
    exact nodup_eraseDups _
  refine (Nodup.of_map _ hn).map_on fun p hp q hq he => ?_
  exact Prod.ext ((ho p (hm hp) q (hm hq)).mpr he) he

/-- The aliases and topics are accepted exactly if they assign one label to each topic and one topic
to each label. The result is the distinct topics in their order with their labels, and neither
depends on the order or repetition of the aliases. -/
theorem validateTopicAliases_exact (trim : String → String) (topics : List String)
    (aliases : List (String × String)) :
    ((∃ requested, validateTopicAliases trim topics aliases = .ok requested) ↔
      OneToOne (assigned trim topics aliases)) ∧
    (∀ requested, validateTopicAliases trim topics aliases = .ok requested →
      requested.map (·.1) = (topics.map trim).eraseDups ∧
      requested ⊆ assigned trim topics aliases ∧ (requested.map (·.2)).Nodup) ∧
    ∀ aliases', (∀ pair, pair ∈ aliases' ↔ pair ∈ aliases) → ∀ requested,
      validateTopicAliases trim topics aliases' = .ok requested ↔
        validateTopicAliases trim topics aliases = .ok requested := by
  refine ⟨⟨?_, exists_validateTopicAliases⟩, ?_, ?_⟩
  · rintro ⟨requested, h⟩
    exact (validateTopicAliases_eq_ok_iff.mp h).1
  · intro requested h
    obtain ⟨-, ht, hm⟩ := validateTopicAliases_eq_ok_iff.mp h
    exact ⟨ht, hm, nodup_validateTopicAliases h⟩
  · intro aliases' ha requested
    have hp : ∀ p, p ∈ assigned trim topics aliases' ↔ p ∈ assigned trim topics aliases := by
      have ht : ∀ p, p ∈ trimmed trim aliases' ↔ p ∈ trimmed trim aliases := by
        simp only [trimmed, mem_map, ha, implies_true]
      simp only [assigned, mem_append, mem_map, mem_filter, decide_eq_true_eq, ht, implies_true]
    rw [validateTopicAliases_eq_ok_iff, validateTopicAliases_eq_ok_iff]
    simp only [Valid, OneToOne, subset_def, hp]

end Xbbg.SharedSubscriptions
