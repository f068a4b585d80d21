import Xbbg.Verification.CacheFiles.Publication

/-! # Entries taken out of the exchange cache

The file and the saves on their way may have entries that the memory has evicted. What is taken out
of the memory then stays in the file; otherwise no later load finds it. -/

namespace Xbbg.CacheFiles

open List Library Cache

/-! ### Eviction -/

theorem entries_foldl_erase_sublist {β : Type} (ks : List String) (m : Map String β) :
    (ks.foldl (fun m key => m.erase key) m).entries.Sublist m.entries := by
  induction ks generalizing m with
  | nil => exact List.Sublist.refl _
  | cons key rest ih => exact (ih (m.erase key)).trans (kerase_sublist key m.entries)

theorem entries_evictOldest_sublist {β : Type} (age : β → ℤ) (maxEntries : ℕ) (m : Map String β) :
    (evictOldest age maxEntries m).entries.Sublist m.entries :=
  entries_foldl_erase_sublist _ m

namespace ExchangeCache

variable {trim : String → String} {maxEntries : ℕ} {Q : String → Prop}
variable {m : Memory} {key : String} {file : Option (Contents ExchangeInfo)}

/-! ### Memories and documents by their tickers -/

/-- Every entry stands under its own ticker, which is one of the given ones. -/
def Keeps (Q : String → Prop) (m : Memory) : Prop :=
  ∀ entry ∈ m.entries, entry.2.ticker = entry.1 ∧ Q entry.1

def Names (Q : String → Prop) (contents : Contents ExchangeInfo) : Prop :=
  ∀ entries, contents = .ok entries → ∀ info ∈ entries, Q info.ticker

theorem keeps_empty (Q : String → Prop) : Keeps Q ∅ := by
  intro e hm
  cases hm

/-- What may be put: an info under its own ticker, which is one of the given ones. -/
def Puts (trim : String → String) (Q : String → Prop) (entries : List Put) : Prop :=
  ∀ put ∈ entries, ¬(trim put.ticker).isEmpty = true →
    put.info.ticker = trim put.ticker ∧ Q (trim put.ticker)

section

variable (h : Keeps Q m)
include h

theorem Keeps.of_sublist {m' : Memory} (hs : m'.entries.Sublist m.entries) : Keeps Q m' :=
  fun e hm => h e (hs.subset hm)

theorem Keeps.evictOldest (age : ExchangeInfo → ℤ) (n : ℕ) : Keeps Q (evictOldest age n m) :=
  h.of_sublist (entries_evictOldest_sublist age n m)

theorem Keeps.insert {info : ExchangeInfo} (ht : info.ticker = key) (hk : Q key) :
    Keeps Q (m.insert key info) := by
  intro e hm
  rw [AList.entries_insert] at hm
  rcases mem_cons.mp hm with rfl | ho
  · exact ⟨ht, hk⟩
  · exact h e ((kerase_sublist key m.entries).subset ho)

theorem Keeps.of_lookup (hn : m.lookup key = none) : Keeps (· ≠ key) m := by
  intro e hm
  refine ⟨(h e hm).1, ?_⟩
  rintro rfl
  exact AList.lookup_eq_none.mp hn (mem_keys_of_mem hm)

theorem Keeps.lookup (hk : ¬Q key) : m.lookup key = none := by
  rw [AList.lookup_eq_none]
  intro hm
  obtain ⟨info, he⟩ := exists_of_mem_keys hm
  exact hk (h _ he).2

theorem Keeps.foldl_putEntry {es : List Put} (hp : Puts trim Q es) :
    Keeps Q (es.foldl (putEntry trim) m) := by
  induction es generalizing m with
  | nil => exact h
  | cons put rest ih =>
    refine ih ?_ fun o hm => hp o (mem_cons_of_mem put hm)
    unfold putEntry
    by_cases he : (trim put.ticker).isEmpty = true
    · simpa only [if_pos he] using h
    · simp only [if_neg he]
      obtain ⟨ht, hk⟩ := hp put (by simp) he
      exact h.insert ht hk

theorem Keeps.putMany {es : List Put} (hp : Puts trim Q es) :
    Keeps Q (putMany trim maxEntries es m) := by
  unfold ExchangeCache.putMany
  split
  · exact h
  · exact (h.foldl_putEntry hp).evictOldest _ _

end

theorem rules_keeps (trim : String → String) (maxEntries : ℕ) (Q : String → Prop) :
    Rules (kind trim maxEntries) (Names Q) (Keeps Q) (Puts trim Q) where
  persist := by
    intro m hm es heq info hi
    cases heq
    obtain ⟨e, he, rfl⟩ := mem_map.mp hi
    obtain ⟨ht, hk⟩ := hm e he
    rwa [ht]
  empty := keeps_empty Q
  write := fun _ _ hp hm => hm.putMany hp
  without := by
    intro key m next hm hn
    obtain ⟨-, heq⟩ := Option.ite_none_right_eq_some.mp hn
    cases heq
    exact hm.of_sublist (kerase_sublist key m.entries)

/-! ### Loading -/

theorem keeps_remember {es : List ExchangeInfo} (h : ∀ info ∈ es, Q info.ticker)
    (now : ℤ) : Keeps Q (remember maxEntries now es) := by
  have hf : ∀ (ps : List (String × ExchangeInfo)) (m : Memory), Keeps Q m →
      (∀ p ∈ ps, p.2.ticker = p.1 ∧ Q p.1) →
      Keeps Q (ps.foldl (fun (m : Memory) p => m.insert p.1 p.2) m) := by
    intro ps
    induction ps with
    | nil => exact fun m hm _ => hm
    | cons p rest ih =>
      intro m hm hp
      obtain ⟨ht, hk⟩ := hp p (by simp)
      exact ih _ (hm.insert ht hk) fun o ho => hp o (mem_cons_of_mem p ho)
  unfold remember
  extract_lets ps
  split
  · exact keeps_empty Q
  · refine (hf ps ∅ (keeps_empty Q) ?_).evictOldest _ _
    intro p hpair
    obtain ⟨info, hi, rfl⟩ := mem_map.mp hpair
    exact ⟨rfl, h info (mem_of_mem_filter hi)⟩

theorem entries_of_readJsonArrayBounded {ε : Type} {reading : Reading ε} {maxBytes n : ℕ}
    {contents : Contents ε} {entries : List ε}
    (h : readJsonArrayBounded reading maxBytes n contents = .ok entries) :
    contents = .ok entries := by
  unfold readJsonArrayBounded at h
  extract_lets path length position at h
  cases ho : reading.opened with
  | error e => simp [ho] at h
  | ok =>
    rw [ho] at h
    cases contents with
    | error e =>
      dsimp only at h
      split at h <;> cases h
    | ok found =>
      dsimp only at h
      split at h
      · cases h
      · split at h
        · cases h
        · exact h

theorem keeps_start (h : ∀ contents, file = some contents → Names Q contents)
    (reading : Reading ExchangeInfo) (now : ℤ) :
    Keeps Q (start maxEntries reading now file).memory := by
  unfold start
  cases hl : loadFromDisk maxEntries reading now file with
  | error e => exact keeps_empty Q
  | ok m =>
    cases file with
    | none =>
      cases hl
      exact keeps_empty Q
    | some contents =>
      unfold loadFromDisk at hl
      cases hr : readJsonArrayBounded reading maxExchangeCacheFileBytes maxEntries contents with
      | error e => simp [hr, Except.map] at hl
      | ok entries =>
        obtain rfl : remember maxEntries now entries = m := by
          simpa [hr, Except.map] using hl
        exact keeps_remember (h contents rfl entries (entries_of_readJsonArrayBounded hr)) now

theorem get_eq_none (h : Keeps Q m) (now : ℤ) {ticker : String} (ht : ¬Q (trim ticker)) :
    get trim now m ticker = none := by
  unfold get
  simp [h.lookup ht]

/-! ### Taking out one entry -/

def hasTicker (key : String) (contents : Contents ExchangeInfo) : Bool :=
  match contents with
  | .ok entries => entries.any fun info => info.ticker == key
  | .error _ => false

theorem names_of_hasTicker {contents : Contents ExchangeInfo} (h : hasTicker key contents = false) :
    Names (· ≠ key) contents := by
  rintro es rfl info hi rfl
  have ht : hasTicker info.ticker (.ok es) = true := by
    simp only [hasTicker, any_eq_true, beq_iff_eq]
    exact ⟨info, hi, rfl⟩
  rw [h] at ht
  cases ht

/-- Infos are put under their own tickers, and an entry that the memory does not have is taken out
only when neither the file nor a save on its way has it. -/
def Tracked (trim : String → String) (s : Cache Memory (Contents ExchangeInfo)) :
    Cache.Action (List Put) → Prop
  | .write entries => ∀ put ∈ entries, ¬(trim put.ticker).isEmpty = true →
      put.info.ticker = trim put.ticker
  | .invalidate key => s.memory.lookup key = none →
      s.file.any (hasTicker key) = false ∧ ∀ save ∈ s.saves, hasTicker key save.snapshot = false
  | _ => True

instance (s : Cache Memory (Contents ExchangeInfo)) (a : Cache.Action (List Put)) :
    Decidable (Tracked trim s a) := by
  cases a <;> unfold Tracked <;> infer_instance

theorem holder_start (rd : Reading ExchangeInfo) (now : ℤ) (file : Option (Contents ExchangeInfo)) :
    (start maxEntries rd now file).holder = none := by
  unfold start
  cases loadFromDisk maxEntries rd now file <;> rfl

theorem saves_start (rd : Reading ExchangeInfo) (now : ℤ) (file : Option (Contents ExchangeInfo)) :
    (start maxEntries rd now file).saves = [] := by
  unfold start
  cases loadFromDisk maxEntries rd now file <;> rfl

variable {acts : List (Action (List Put))} {rd : Reading ExchangeInfo}

theorem keeps_of_tracked {now : ℤ} {s : Cache Memory (Contents ExchangeInfo)}
    (hrun : Run (step (kind trim maxEntries)) (Tracked trim) (start maxEntries rd now
      file) acts s) : Clean (Names fun _ => True) (Keeps fun _ => True) s := by
  refine Clean.run (rules_keeps trim maxEntries _) ?_ hrun (numbered_exchangeStart ..) ?_
  · rintro u a htracked es rfl put hput
    exact fun hnonempty => ⟨htracked put hput hnonempty, trivial⟩
  · have hmemo : Keeps (fun _ => True) (start maxEntries rd now file).memory :=
      keeps_start (fun _ _ _ _ _ _ => trivial) rd now
    refine ⟨hmemo, ?_, ?_, fun _ _ _ _ _ _ => trivial⟩
    · intro key n next hholder
      cases (holder_start rd now file).symm.trans hholder
    · intro save hmem
      rw [saves_start] at hmem
      cases hmem

/-- When the removal of an entry returns, the memory is without it, and so is the file, or nothing
has changed because the memory did not have it. -/
theorem invalidated_cases {μ δ ω : Type} {kind : Kind μ δ ω} {s t : Cache μ δ} {a : Action ω}
    (hn : s.Numbered) (he : s.ends kind a = some (.invalidated key, true))
    (hs : s.step kind a = some t) : (∃ n next, s.holder = some (.invalidating key n next) ∧
      t = s.unlock n (some (kind.persist next)) next) ∨
    (a = .invalidate key ∧ kind.without key s.memory = none ∧ t = s) := by
  cases a with
  | write op | save | publish index prepare replace | clear => cases he
  | invalidate key' =>
    right
    obtain ⟨-, heq⟩ := Option.ite_none_right_eq_some.mp hs
    simp only [ends] at he
    cases hl : s.loaded with
    | error e => simp [hl] at he
    | ok =>
      cases hne : kind.without key' s.memory with
      | some next => simp [hl, hne] at he
      | none =>
        obtain rfl : key' = key := by simpa [hl, hne] using he
        refine ⟨rfl, hne, ?_⟩
        rw [← Option.some.inj heq]
        simp [Cache.invalidate, hl, hne]
  | finish prepare commit =>
    left
    simp only [ends] at he
    simp only [step] at hs
    cases hh : s.holder with
    | none => simp [hh] at he
    | some holder =>
      rw [hh] at he hs
      cases holder with
      | clearing n => cases he
      | invalidating key' n next =>
        have hno : s.publisher.isSuperseded n = false := hn.holder_not_superseded hh
        cases hs
        rw [finishInvalidate_eq hn hh]
        cases prepare with
        | error e => simp [AtomicJsonPublisher.publish, Except.toOption] at he
        | ok =>
          cases commit with
          | error e => simp [AtomicJsonPublisher.publish, hno, Except.toOption] at he
          | ok =>
            obtain rfl : key' = key := by
              simpa [AtomicJsonPublisher.publish, hno, Except.toOption] using he
            exact ⟨n, next, rfl, rfl⟩

theorem without_of_run {μ δ ω : Type} {kind : Kind μ δ ω} {s t : Cache μ δ}
    {allowed : Cache μ δ → Action ω → Prop} {acts : List (Action ω)}
    (hn : s.Numbered) (hr : Run (step kind) allowed s acts t) (hf : s.holder = none)
    {n : ℕ} {next : μ} (hh : t.holder = some (.invalidating key n next)) :
    ∃ m, kind.without key m = some next := by
  have ha : ∀ key n next, t.holder = some (.invalidating key n next) →
      ∃ m, kind.without key m = some next := by
    refine hn.invariant (I := fun u => ∀ key n next,
      u.holder = some (.invalidating key n next) → ∃ m, kind.without key m = some next) hr ?_ ?_
    · intro u a v _ hu _ hs
      cases hs with
      | invalidate key' _ hne =>
        intro key n next h
        cases h
        exact ⟨u.memory, hne⟩
      | clear _ | failed prepare commit | cleared prepare commit _ | invalidated prepare commit _ =>
        exact nofun
      | write op _ => exact hu
      | save _ => exact hu
      | publish i prepare replace _ _ => exact hu
      | missing key => exact hu
    · intro key n next h
      cases hf.symm.trans h
  exact ha key n next hh

/-- When the removal of an entry returns, neither the memory nor the file has it, and no save on
its way brings it back. -/
theorem clean_of_invalidated {now : ℤ} {s t : Cache Memory (Contents ExchangeInfo)}
    {a : Action (List Put)}
    (hr : Run (step (kind trim maxEntries)) (Tracked trim) (start maxEntries rd now
      file) acts s) (ht : Tracked trim s a)
    (he : s.ends (kind trim maxEntries) a = some (.invalidated key, true))
    (hs : s.step (kind trim maxEntries) a = some t) :
    Clean (Names (· ≠ key)) (Keeps (· ≠ key)) t := by
  have hstart := numbered_exchangeStart maxEntries rd now file
  have hn := numbered_run hr hstart
  have hk := keeps_of_tracked hr
  rcases invalidated_cases hn he hs with ⟨n, next, hh, rfl⟩ | ⟨rfl, hmiss, rfl⟩
  · obtain ⟨m, hne⟩ := without_of_run hstart hr (holder_start rd now file) hh
    obtain ⟨-, heq⟩ := Option.ite_none_right_eq_some.mp hne
    cases heq
    have herased : Keeps (· ≠ key) (m.erase key) :=
      (hk.holder _ _ _ hh).of_lookup (AList.lookup_erase key m)
    refine ⟨herased, nofun, fun save hm => .inl (hn.saves_superseded hh hm), ?_⟩
    intro d hd
    cases hd
    exact (rules_keeps trim maxEntries _).persist _ herased
  · have hno : t.memory.lookup key = none := by
      simpa [kind] using hmiss
    obtain ⟨hf, hsaves⟩ := ht hno
    refine ⟨hk.memory.of_lookup hno, ?_, ?_, ?_⟩
    · -- the lock is free while a removal looks the entry up
      intro key' n next hh
      simp [step, hh] at hs
    · exact fun save hm => .inr (names_of_hasTicker (hsaves save hm))
    · intro d hd
      apply names_of_hasTicker
      simpa [hd] using hf

/-- Once the removal of a ticker has returned, a fresh cache on the file has no entry for it, as
long as it is not put again. -/
theorem invalidate_durable {reading : Reading ExchangeInfo} {now : ℤ}
    {file : Option (Contents ExchangeInfo)} {before after : List (Cache.Action (List Put))}
    {a : Cache.Action (List Put)} {s t u : Cache Memory (Contents ExchangeInfo)} {ticker : String}
    (hbefore : Run (Cache.step (kind trim maxEntries)) (Tracked trim)
      (start maxEntries reading now file) before s)
    (htracked : Tracked trim s a)
    (hends : s.ends (kind trim maxEntries) a = some (.invalidated (trim ticker), true))
    (hstep : s.step (kind trim maxEntries) a = some t)
    (hafter : Run (Cache.step (kind trim maxEntries)) (Tracked trim) t after u)
    (hput : ∀ entries, .write entries ∈ after → ∀ put ∈ entries, trim put.ticker ≠ trim ticker)
    (reading' : Reading ExchangeInfo) (maxEntries' : ℕ) (loadedAt servedAt : ℤ) :
    get trim servedAt (start maxEntries' reading' loadedAt u.file).memory ticker = none := by
  have hn := numbered_run hbefore (numbered_exchangeStart maxEntries reading now file)
  have hclean := clean_of_invalidated hbefore htracked hends hstep
  have hboth : Run (step (kind trim maxEntries))
      (fun v b => Tracked trim v b ∧ b ∈ after) t after u := hafter.and hafter.mem
  have hlast : Clean (Names (· ≠ trim ticker)) (Keeps (· ≠ trim ticker)) u := by
    refine Clean.run (rules_keeps trim maxEntries _) ?_ hboth
      (hn.step (step_cases hn hstep)) hclean
    rintro v b ⟨hb, hmem⟩ entries rfl put hmemPut hempty
    exact ⟨hb put hmemPut hempty, hput entries hmem put hmemPut⟩
  exact get_eq_none (keeps_start hlast.file reading' loadedAt) servedAt (by simp)

def samplePut (ticker : String) (now : ℤ) : Cache.Action (List Put) :=
  .write [⟨ticker, ⟨ticker, .bloomberg, none⟩, now⟩]

/-- An entry that a save on its way has is taken out, and the save ends after that. -/
theorem invalidate_durable_late_save :
    ∃ s t u, FreeRun (Cache.step (kind id 4)) (start 4 plainReading 0 none)
        [samplePut "A" 0, samplePut "B" 1, .save, .invalidate "A"] s ∧
      s.step (kind id 4) (.finish (.ok ()) (.ok ())) = some t ∧
      FreeRun (Cache.step (kind id 4)) t [.publish 0 (.ok ()) (.ok ())] u ∧
      u.saves.length = 0 ∧ u.file.isSome = true ∧
      get id 2 (start 4 plainReading 2 u.file).memory "A" = none := by
  have hrun : ((runActions (fun v b => if Tracked id v b then step (kind id 4) v b else none)
        (start 4 plainReading 0 none)
        [samplePut "A" 0, samplePut "B" 1, .save, .invalidate "A"]).bind fun s =>
      (s.step (kind id 4) (.finish (.ok ()) (.ok ()))).bind fun t =>
      (runActions (fun v b => if Tracked id v b then step (kind id 4) v b else none) t
        [.publish 0 (.ok ()) (.ok ())]).map fun u =>
      s.ends (kind id 4) (.finish (.ok ()) (.ok ())) == some (.invalidated "A", true) &&
        u.saves.length == 0 && u.file.isSome) = some true := by decide +kernel
  obtain ⟨s, hs, hrest⟩ := Option.bind_eq_some_iff.mp hrun
  obtain ⟨t, ht, hrest⟩ := Option.bind_eq_some_iff.mp hrest
  obtain ⟨u, hu, hcheck⟩ := Option.map_eq_some_iff.mp hrest
  simp only [Bool.and_eq_true, beq_iff_eq] at hcheck
  obtain ⟨⟨hends, hsaves⟩, hfile⟩ := hcheck
  have hbefore := Run.of_checkedActions hs
  have hafter := Run.of_checkedActions hu
  refine ⟨s, t, u, hbefore.mono fun _ _ _ => trivial, ht, hafter.mono fun _ _ _ => trivial,
    hsaves, hfile, ?_⟩
  have htracked : Tracked id s (.finish (.ok ()) (.ok ())) := trivial
  refine invalidate_durable hbefore htracked hends ht hafter ?_ plainReading 4 2 2
  intro entries hmem
  simp at hmem

/-- The memory has evicted the entry that is taken out, and the file still has it. -/
theorem invalidate_evicted : ∃ s t, FreeRun (Cache.step (kind id 1)) (start 1 plainReading 0 none)
        [samplePut "A" 0, .save, .publish 0 (.ok ()) (.ok ()), samplePut "B" 1] s ∧
      s.ends (kind id 1) (invalidate id (some "A")) = some (.invalidated "A", true) ∧
      s.step (kind id 1) (invalidate id (some "A")) = some t ∧ t.saves.length = 0 ∧
      get id 2 (start 1 plainReading 2 t.file).memory "A" = some ⟨"A", .cache, some 0⟩ := by
  have hrun : ((runActions (step (kind id 1)) (start 1 plainReading 0 none)
        [samplePut "A" 0, .save, .publish 0 (.ok ()) (.ok ()), samplePut "B" 1]).bind fun s =>
      (s.step (kind id 1) (invalidate id (some "A"))).map fun t =>
      s.ends (kind id 1) (invalidate id (some "A")) == some (.invalidated "A", true) &&
        t.saves.length == 0 &&
        get id 2 (start 1 plainReading 2 t.file).memory "A" == some ⟨"A", .cache, some 0⟩) =
      some true := by decide +kernel
  obtain ⟨s, hs, hrest⟩ := Option.bind_eq_some_iff.mp hrun
  obtain ⟨t, ht, hcheck⟩ := Option.map_eq_some_iff.mp hrest
  simp only [Bool.and_eq_true, beq_iff_eq] at hcheck
  obtain ⟨⟨hends, hsaves⟩, hget⟩ := hcheck
  exact ⟨s, t, FreeRun.of_runActions hs, hends, ht, hsaves, hget⟩

end ExchangeCache

end Xbbg.CacheFiles
