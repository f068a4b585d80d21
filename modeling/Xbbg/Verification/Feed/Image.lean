import Xbbg.Library.LastWrite
import Xbbg.Verification.Feed.Recovery

/-! The last-value image of a feed. Its positions follow the decoder's layout, which only
appends; fields that the feed seeds after them have no value. -/

namespace Xbbg.Feed

open List Library

def writes (values : List UpdateField) : List (ℕ × UpdateValue) :=
  values.map fun field => (field.index, field.value)

@[simp] theorem writes_cons (field : UpdateField) (rest : List UpdateField) :
    writes (field :: rest) = (field.index, field.value) :: writes rest := rfl

theorem length_resize (im : List (Option UpdateValue)) (length : ℕ) :
    (resize im length).length = length := by
  simp only [resize, length_append, length_take, length_replicate]
  omega

variable {i : ℕ}

theorem join_getElem?_resize (im : List (Option UpdateValue)) {length : ℕ} (hi : i < length) :
    ((resize im length)[i]?).join = (im[i]?).join := by
  rcases Nat.lt_or_ge i im.length with hlt | hge
  · rw [resize, getElem?_append_left (by simp; omega), getElem?_take_of_lt hi]
  · rw [resize, getElem?_append_right (by simp; omega), getElem?_eq_none hge]
    rw [getElem?_replicate]
    split <;> rfl

theorem length_storeValues (im : List (Option UpdateValue)) (vs : List UpdateField) :
    (storeValues im vs).length = im.length := by
  induction vs generalizing im with
  | nil => rfl
  | cons field rest ih => exact (ih _).trans length_set

theorem join_getElem?_storeValues (im : List (Option UpdateValue)) (vs : List UpdateField)
    (hi : i < im.length) :
    ((storeValues im vs)[i]?).join = (lastWrite (writes vs) i).or (im[i]?).join := by
  induction vs generalizing im with
  | nil => rfl
  | cons field rest ih =>
    have hr := ih (im.set field.index (some field.value)) (by simpa using hi)
    rw [writes_cons, lastWrite_cons, Option.or_assoc]
    refine hr.trans ?_
    by_cases hin : field.index = i
    · subst hin
      simp [hi]
    · simp [hin]

def nameValues (names : List String) (values : List UpdateField) : List (String × UpdateValue) :=
  values.filterMap fun field => (names[field.index]?).map fun name => (name, field.value)

theorem named_eq (u : SubscriptionUpdate) :
    u.named = nameValues (layoutNames u.layout) u.values := by
  simp [SubscriptionUpdate.named, nameValues, layoutNames, Function.comp_def]

theorem lastWrite_nameValues {names : List String} (hn : names.Nodup) (values : List UpdateField)
    {field : String} (hi : names[i]? = some field) :
    lastWrite (nameValues names values) field = lastWrite (writes values) i := by
  have hna : nameValues names values = (writes values).filterMap fun write =>
      (names[write.1]?).map fun name => (name, write.2) := by
    rw [nameValues, writes, filterMap_map]
    rfl
  rw [hna]
  exact lastWrite_filterMap_getElem? hn _ hi

theorem mem_nameValues {names : List String} {values : List UpdateField} {name : String}
    {value : UpdateValue} : (name, value) ∈ nameValues names values ↔
      ∃ field ∈ values, names[field.index]? = some name ∧ field.value = value := by
  simp [nameValues]

theorem lastWrite_nameValues_of_notMem {names : List String} (values : List UpdateField)
    {field : String} (h : field ∉ names) : lastWrite (nameValues names values) field = none := by
  rw [lastWrite_eq_none_iff]
  intro hm
  obtain ⟨⟨name, value⟩, hwri, rfl⟩ := mem_map.mp hm
  obtain ⟨entry, -, he, -⟩ := mem_nameValues.mp hwri
  exact h (mem_of_getElem? he)

variable {u : SubscriptionUpdate}

theorem Decoded.layout {decoder : Decoder} (h : Decoded decoder u) :
    decoder.names <+: layoutNames u.layout ∧ (layoutNames u.layout).Nodup ∧
      u.layout.fields.map (·.index) = range u.layout.fields.length := by
  obtain ⟨hp, hb, hi, -⟩ := h
  refine ⟨hp ▸ (pushFieldIfNew_foldl _ _).1, hp ▸ (decoder.push _).nodup, hi.trans ?_⟩
  rw [map_congr_left fun i hm => Nat.mod_eq_of_lt ((mem_range.mp hm).trans_le hb), map_id']

namespace FeedState

variable {st st' : FeedState} {field : String} {known : List String}

theorem imageValue_of_getElem? (hn : st.names.Nodup) (hi : st.names[i]? = some field) :
    st.imageValue field = (st.image[i]?).join := by
  rw [imageValue, idxOf?_of_getElem? hn hi, Option.bind_some]

theorem imageValue_of_notMem (h : field ∉ st.names) : st.imageValue field = none := by
  rw [imageValue, idxOf?_eq_none_iff.mpr h, Option.bind_none]

/-- The layout names every field once, `known` are its fields from the decoder, and only they
have values. -/
structure Indexed (st : FeedState) (known : List String) : Prop where
  names : known <+: st.names
  nodup : st.names.Nodup
  length : st.image.length = st.names.length
  unknown : ∀ i, known.length ≤ i → (st.image[i]?).join = none
  indices : ∀ layout, st.layout = some layout →
    layout.fields.map (·.index) = List.range layout.fields.length

theorem Indexed.imageValue_of_unknown (h : Indexed st known) (hf : field ∉ known) :
    st.imageValue field = none := by
  by_cases hm : field ∈ st.names
  · obtain ⟨i, hi⟩ := mem_iff_getElem?.mp hm
    rw [imageValue_of_getElem? h.nodup hi]
    apply h.unknown
    by_contra hlt
    obtain ⟨rest, hn⟩ := h.names
    rw [← hn, getElem?_append_left (by omega)] at hi
    exact hf (mem_of_getElem? hi)
  · exact imageValue_of_notMem hm

theorem Indexed.join_getElem? {ns : List String} (h : Indexed st known)
    (he : known <+: ns) (hn : ns.Nodup) (hi : ns[i]? = some field) :
    (st.image[i]?).join = st.imageValue field := by
  rcases Nat.lt_or_ge i known.length with hlt | hge
  · have hk : known[i]? = some field := by
      rw [getElem?_eq_getElem hlt, ← hi, he.getElem hlt, getElem?_eq_getElem]
    rw [imageValue_of_getElem? h.nodup (getElem?_of_isPrefix h.names hk)]
  · rw [h.unknown i hge, h.imageValue_of_unknown]
    intro hm
    obtain ⟨j, hj⟩ := mem_iff_getElem?.mp hm
    have hlt := (List.getElem?_eq_some_iff.mp hj).1
    have heq := (List.getElem?_inj (List.getElem?_eq_some_iff.mp hi).1 hn).mp
      (hi.trans (getElem?_of_isPrefix he hj).symm)
    omega

/-- The feed keeps its layout and its values. -/
structure SameImage (st st' : FeedState) : Prop where
  layout : st'.layout = st.layout
  image : st'.image = st.image
  lastUpdate : st'.lastUpdate = st.lastUpdate

theorem SameImage.refl (st : FeedState) : SameImage st st := ⟨rfl, rfl, rfl⟩

theorem SameImage.names (h : SameImage st st') : st'.names = st.names := by
  rw [FeedState.names, FeedState.names, h.layout]

theorem SameImage.imageValue (h : SameImage st st') (field : String) :
    st'.imageValue field = st.imageValue field := by
  rw [FeedState.imageValue, FeedState.imageValue, h.names, h.image]

theorem Indexed.of_sameImage (h : Indexed st known) (hs : SameImage st st') :
    Indexed st' known := by
  refine ⟨?_, ?_, ?_, ?_, ?_⟩
  · exact hs.names ▸ h.names
  · exact hs.names ▸ h.nodup
  · rw [hs.image, hs.names, h.length]
  · exact hs.image ▸ h.unknown
  · exact hs.layout ▸ h.indices

theorem Indexed.appendFields (h : Indexed st known) {version : ℕ} {fs : List FieldMeta}
    (he : st.names <+: fs.map (·.name)) (hn : (fs.map (·.name)).Nodup)
    (hid : fs.map (·.index) = range fs.length) :
    let st' := { st with
      image := resize st.image fs.length
      layout := some ⟨version, fs⟩ }
    Indexed st' known ∧ ∀ field, st'.imageValue field = st.imageValue field := by
  intro st'
  have hin : Indexed st' known := by
    refine ⟨h.names.trans he, hn, ?_, ?_, ?_⟩
    · simp [st', length_resize, FeedState.names]
    · intro i hi
      rcases Nat.lt_or_ge i fs.length with hlt | hge
      · exact (join_getElem?_resize _ hlt).trans (h.unknown i hi)
      · rw [getElem?_eq_none (by rw [length_resize]; exact hge), Option.join_none]
    · intro l hl
      cases hl
      exact hid
  refine ⟨hin, fun field => ?_⟩
  by_cases hm : field ∈ st.names
  · obtain ⟨i, hi⟩ := mem_iff_getElem?.mp hm
    have hi' := getElem?_of_isPrefix he hi
    have hlt : i < fs.length := by simpa using (List.getElem?_eq_some_iff.mp hi').1
    rw [imageValue_of_getElem? h.nodup hi, imageValue_of_getElem? hin.nodup hi']
    exact join_getElem?_resize _ hlt
  · have hu : field ∉ known := fun hk => hm (h.names.subset hk)
    rw [h.imageValue_of_unknown hu, hin.imageValue_of_unknown hu]

theorem pushMeta_foldl (fs : List FieldMeta) (ns : List String) (hn : (fs.map (·.name)).Nodup)
    (hi : fs.map (·.index) = range fs.length) :
    fs <+: ns.foldl pushMeta fs ∧ ((ns.foldl pushMeta fs).map (·.name)).Nodup ∧
      (ns.foldl pushMeta fs).map (·.index) = range (ns.foldl pushMeta fs).length := by
  induction ns generalizing fs with
  | nil => exact ⟨prefix_rfl, hn, hi⟩
  | cons name rest ih =>
    rw [foldl_cons]
    by_cases hm : fs.any (·.name == name) = true
    · rw [pushMeta, if_pos hm]
      exact ih fs hn hi
    · rw [pushMeta, if_neg hm]
      have hno : name ∉ fs.map (·.name) := by simpa using hm
      obtain ⟨he, hr⟩ := ih (fs ++ [⟨name, fs.length, .unknown, false⟩])
        (by simpa [nodup_append] using ⟨hn, by simpa using hno⟩)
        (by simp [hi, range_succ])
      exact ⟨(prefix_append _ _).trans he, hr⟩

theorem map_seedKind (ks : List (String × FieldKind)) (fs : List FieldMeta) :
    (fs.map (seedKind ks)).map (·.name) = fs.map (·.name) ∧
      (fs.map (seedKind ks)).map (·.index) = fs.map (·.index) := by
  have hf : ∀ field, (seedKind ks field).name = field.name ∧
      (seedKind ks field).index = field.index := by
    intro field
    unfold seedKind
    split <;> exact ⟨rfl, rfl⟩
  rw [map_map, map_map]
  exact ⟨map_congr_left fun field _ => (hf field).1, map_congr_left fun field _ => (hf field).2⟩

theorem Indexed.seedImageKinds (h : Indexed st known) (ks : List (String × FieldKind)) :
    Indexed (st.seedImageKinds ks) known ∧
      ∀ field, (st.seedImageKinds ks).imageValue field = st.imageValue field := by
  have hna : st.names = ((st.layout.map (·.fields)).getD []).map (·.name) := by
    cases hl : st.layout <;> simp [FeedState.names, hl]
  have hi : ((st.layout.map (·.fields)).getD []).map (·.index) =
      range ((st.layout.map (·.fields)).getD []).length := by
    cases hl : st.layout with
    | none => rfl
    | some l => exact h.indices l hl
  obtain ⟨he, hno, hr⟩ := pushMeta_foldl _ (st.fields ++ [eventType, eventSubtype])
    (hna ▸ h.nodup) hi
  unfold FeedState.seedImageKinds
  dsimp only
  generalize hnamed : (st.fields ++ [eventType, eventSubtype]).foldl pushMeta _ = named at he hno hr
  have hs : SameImage st { st with kinds := ks.foldl addKind st.kinds } := ⟨rfl, rfl, rfl⟩
  split
  case isFalse => exact ⟨h.of_sameImage hs, hs.imageValue⟩
  case isTrue =>
    obtain ⟨hn, hin⟩ := map_seedKind (ks.foldl addKind st.kinds) named
    apply (h.of_sameImage hs).appendFields
    · rw [hn, hs.names, hna]
      exact he.map _
    · rw [hn]
      exact hno
    · rw [hin, length_map]
      exact hr

theorem indexed_new (fields : List String) (kinds : List (String × FieldKind)) :
    Indexed (new fields kinds) [] ∧ ∀ field, (new fields kinds).imageValue field = none := by
  have hi : Indexed (new fields kinds) [] :=
    (Indexed.seedImageKinds ⟨by simp [names], by simp [names], rfl, by simp, by simp⟩ kinds).1
  exact ⟨hi, fun field => hi.imageValue_of_unknown (by simp)⟩

variable {decoder : Decoder}

theorem Indexed.store (h : Indexed st known) (hk : known <+: decoder.names)
    {update : SubscriptionUpdate} (hd : Decoded decoder update) (initpaint finishPaint : Bool) :
    Indexed (st.store update initpaint finishPaint) (layoutNames update.layout) ∧
      ∀ field, (st.store update initpaint finishPaint).imageValue field =
        (lastWrite update.named field).or (st.imageValue field) := by
  obtain ⟨he, hn, hid⟩ := hd.layout
  have hl : (layoutNames update.layout).length = update.layout.fields.length :=
    length_map _
  have hin : Indexed (st.store update initpaint finishPaint) (layoutNames update.layout) := by
    refine ⟨prefix_rfl, hn, ?_, ?_, ?_⟩
    · exact (length_storeValues _ _).trans ((length_resize _ _).trans hl.symm)
    · intro i hi
      rw [getElem?_eq_none, Option.join_none]
      rw [FeedState.store, length_storeValues, length_resize, ← hl]
      exact hi
    · intro layout hla
      cases hla
      exact hid
  refine ⟨hin, fun field => ?_⟩
  by_cases hm : field ∈ layoutNames update.layout
  · obtain ⟨i, hi⟩ := mem_iff_getElem?.mp hm
    have hlt : i < update.layout.fields.length := hl ▸ (List.getElem?_eq_some_iff.mp hi).1
    rw [imageValue_of_getElem? hin.nodup hi, ← h.join_getElem? (hk.trans he) hn hi,
      named_eq, lastWrite_nameValues hn _ hi, ← join_getElem?_resize st.image hlt]
    exact join_getElem?_storeValues _ _ (by rw [length_resize]; exact hlt)
  · have hu : field ∉ known := fun hf => hm ((hk.trans he).subset hf)
    rw [hin.imageValue_of_unknown hm, h.imageValue_of_unknown hu, named_eq,
      lastWrite_nameValues_of_notMem _ hm]
    rfl

theorem Indexed.wipe (h : Indexed st known) :
    Indexed { st with image := st.image.map fun _ => none } known ∧
      ∀ field, imageValue { st with image := st.image.map fun _ => none } field = none := by
  have hj : ∀ i : ℕ, ((st.image.map fun _ => (none : Option UpdateValue))[i]?).join = none := by
    intro i
    rw [getElem?_map]
    cases st.image[i]? <;> rfl
  refine ⟨⟨h.names, h.nodup, ?_, fun i _ => hj i, h.indices⟩, fun field => ?_⟩
  · exact (length_map _).trans h.length
  · unfold imageValue
    cases idxOf? field _ with
    | none => rfl
    | some i => exact hj i

theorem Indexed.paint (h : Indexed st known) (hk : known <+: decoder.names)
    (hd : Decoded decoder u) (mktdata : Bool)
    (hf : (paintEffect st.recovery (isInitpaint u)).isFrozen = false) :
    Indexed (st.paint mktdata u).1 (layoutNames u.layout) ∧
      ∀ field, (st.paint mktdata u).1.imageValue field = (lastWrite u.named field).or
          (if paintEffect st.recovery (isInitpaint u) = .recovered then none
          else st.imageValue field) := by
  have hh : ∀ held : FeedState, Indexed held known → (∀ field, held.imageValue field =
        if paintEffect st.recovery (isInitpaint u) = .recovered then none
        else st.imageValue field) →
      ∀ initpaint finishPaint, Indexed (held.store u initpaint finishPaint) (layoutNames u.layout) ∧
        ∀ field, (held.store u initpaint finishPaint).imageValue field =
          (lastWrite u.named field).or
            (if paintEffect st.recovery (isInitpaint u) = .recovered then none
            else st.imageValue field) := by
    intro held hi hv initpaint finishPaint
    obtain ⟨hs, hw⟩ := hi.store hk hd initpaint finishPaint
    exact ⟨hs, fun field => hv field ▸ hw field⟩
  unfold FeedState.paint
  simp only [hf, Bool.false_eq_true, if_false]
  by_cases hr : paintEffect st.recovery (isInitpaint u) = .recovered
  · simp only [hr, if_true] at hh ⊢
    apply hh
    · exact h.wipe.1.of_sameImage ⟨rfl, rfl, rfl⟩
    · intro field
      exact (SameImage.imageValue ⟨rfl, rfl, rfl⟩ field).trans (h.wipe.2 field)
  · have hb : (paintEffect st.recovery (isInitpaint u) == .recovered) = false := by
      simpa using hr
    simp only [hb, hr, Bool.false_eq_true, if_false] at hh ⊢
    apply hh
    · exact h.of_sameImage ⟨rfl, rfl, rfl⟩
    · exact SameImage.imageValue ⟨rfl, rfl, rfl⟩

theorem sameImage_paint (mktdata : Bool)
    (hf : (paintEffect st.recovery (isInitpaint u)).isFrozen = true) :
    SameImage st (st.paint mktdata u).1 ∧ (st.paint mktdata u).1.live = st.live := by
  cases he : paintEffect st.recovery (isInitpaint u) with
  | none | recovered =>
    rw [he] at hf
    cases hf
  | restart | held =>
    unfold paint
    simp only [he, PaintEffect.isFrozen, beq_self_eq_true, Bool.true_or, Bool.or_true, if_true]
    exact ⟨⟨rfl, by simp, rfl⟩, trivial⟩

theorem lastUpdate_paint (mktdata : Bool)
    (hf : (paintEffect st.recovery (isInitpaint u)).isFrozen = false) :
    (st.paint mktdata u).1.lastUpdate = some u.timestampUs := by
  simp [paint, hf, store]

theorem sameImage_onUpdate (hl : st.isDead = false) (mktdata : Bool) (accepts : ℕ → ℕ → Bool)
    (u : SubscriptionUpdate) (closed : ℕ → Bool) :
    SameImage (st.paint mktdata u).1 (st.onUpdate mktdata accepts u closed).1 := by
  rw [onUpdate_of_live hl]
  exact ⟨rfl, rfl, rfl⟩

/-- Nothing but seeding happens to the image. -/
structure KeepsImage (st st' : FeedState) : Prop where
  indexed : ∀ known, Indexed st known → Indexed st' known
  imageValue : ∀ known, Indexed st known → ∀ field, st'.imageValue field = st.imageValue field
  lastUpdate : st'.lastUpdate = st.lastUpdate

theorem SameImage.keepsImage (h : SameImage st st') : KeepsImage st st' :=
  ⟨fun _ hi => hi.of_sameImage h, fun _ _ => h.imageValue, h.lastUpdate⟩

theorem KeepsImage.trans {st'' : FeedState} (h : KeepsImage st st') (h' : KeepsImage st' st'') :
    KeepsImage st st'' :=
  ⟨fun known hi => h'.indexed known (h.indexed known hi),
    fun known hi field => (h'.imageValue known (h.indexed known hi) field).trans
      (h.imageValue known hi field),
    h'.lastUpdate.trans h.lastUpdate⟩

theorem keepsImage_seedImageKinds (st : FeedState) (ks : List (String × FieldKind)) :
    KeepsImage st (st.seedImageKinds ks) := by
  refine ⟨fun _ h => (h.seedImageKinds ks).1, fun _ h => (h.seedImageKinds ks).2, ?_⟩
  unfold seedImageKinds
  dsimp only
  split <;> rfl

theorem Grown.keepsImage (h : Grown st st') : KeepsImage st st' := by
  obtain ⟨fs, ks, revision, consumers, rfl⟩ := h
  have hg : SameImage st (st.growUnion fs).2 := ⟨rfl, rfl, rfl⟩
  have hs := keepsImage_seedImageKinds (st.growUnion fs).2 ks
  exact (hg.keepsImage.trans hs).trans (SameImage.keepsImage ⟨rfl, rfl, rfl⟩)

theorem sameImage_onDataLoss (st : FeedState) (closed : ℕ → Bool) :
    SameImage st (st.onDataLoss closed).1 := by
  unfold onDataLoss
  dsimp only
  split
  · exact .refl st
  · split <;> exact ⟨rfl, rfl, rfl⟩

theorem sameImage_onError (st : FeedState) : SameImage st st.onError := by
  unfold onError
  split <;> exact ⟨rfl, rfl, rfl⟩

theorem sameImage_onStreamAvailability (st : FeedState) (active : Bool) :
    SameImage st (st.onStreamAvailability active) := by
  unfold onStreamAvailability
  split <;> exact ⟨rfl, rfl, rfl⟩

theorem sameImage_collectStatus (st : FeedState) (change : StatusChange) (closed : ℕ → Bool) :
    SameImage st (st.collectStatus change closed) := by
  cases h : change.started <;> constructor <;> simp [collectStatus, h, subscriptionStarted]

theorem sameImage_recoveryTurn (st : FeedState) (shutdown : Bool) :
    SameImage st (st.recoveryTurn shutdown).1 := by
  unfold recoveryTurn
  split
  · exact ⟨rfl, rfl, rfl⟩
  · split
    · split <;> exact ⟨rfl, rfl, rfl⟩
    · exact ⟨rfl, rfl, rfl⟩

end FeedState

namespace System

open FeedState

variable {s t : System}

/-- A step that is not an update keeps the image and its history. -/
structure KeepsHistory (s t : System) : Prop where
  image : s.state.KeepsImage t.state
  decoder : t.decoder = s.decoder
  applied : t.applied = s.applied
  created : s.created = true → t.created = true
  shutdown : s.shutdown = true → t.shutdown = true
  mktdata : t.mktdata = s.mktdata

theorem keepsHistory_of_session {a : SessionAction} (h : s.stepSession a = some t)
    (ha : ∀ u accepts, a ≠ .update u accepts) : KeepsHistory s t := by
  cases a with
  | update u accepts => exact absurd rfl (ha u accepts)
  | dataLoss =>
    simp only [stepSession] at h
    split at h
    · cases h
      exact ⟨(s.state.sameImage_onDataLoss s.closed).keepsImage, rfl, rfl, id, id, rfl⟩
    · cases h
  | error =>
    cases h
    exact ⟨s.state.sameImage_onError.keepsImage, rfl, rfl, id, id, rfl⟩
  | fieldError element scalar =>
    cases h
    exact ⟨SameImage.keepsImage ⟨rfl, rfl, rfl⟩, rfl, rfl, id, id, rfl⟩
  | streamAvailability active =>
    cases h
    exact ⟨(s.state.sameImage_onStreamAvailability active).keepsImage, rfl, rfl, id, id, rfl⟩
  | status change =>
    cases h
    exact ⟨(s.state.sameImage_collectStatus change s.closed).keepsImage, rfl, rfl, id, id, rfl⟩

theorem keepsHistory_of_hub {a : HubAction} (h : s.stepHub a = some t) : KeepsHistory s t := by
  cases a with
  | attach subscriber ks now accepts =>
    simp only [stepHub] at h
    split at h
    · cases h
    · obtain ⟨⟨st, closed, growth⟩, ha, rfl⟩ := Option.map_eq_some_iff.mp h
      exact ⟨(grown_of_attach ha).keepsImage, rfl, rfl, fun _ => rfl, id, rfl⟩
  | addFields owner fs ks now accepts =>
    simp only [stepHub] at h
    split at h
    · cases h
    · cases h
      exact ⟨Grown.keepsImage ⟨_, _, _, _, rfl⟩, rfl, rfl, id, id, rfl⟩
  | detach owner key | cleanup | closeStream owner =>
    cases h
    exact ⟨SameImage.keepsImage ⟨rfl, rfl, rfl⟩, rfl, rfl, id, id, rfl⟩
  | shutdown =>
    cases h
    exact ⟨SameImage.keepsImage ⟨rfl, rfl, rfl⟩, rfl, rfl, id, fun _ => rfl, rfl⟩
  | unregister | scheduleOther | closeFeed | schedule =>
    simp only [stepHub] at h
    split at h <;> cases h
    exact ⟨SameImage.keepsImage ⟨rfl, rfl, rfl⟩, rfl, rfl, id, id, rfl⟩

theorem keepsHistory_of_worker {a : WorkerAction} (h : s.stepWorker a i = some t) :
    KeepsHistory s t := by
  have hs : SameImage s.state s.state.onError := s.state.sameImage_onError
  unfold stepWorker at h
  split at h
  case h_1 =>
    cases h
    exact ⟨(s.state.sameImage_recoveryTurn s.shutdown).keepsImage, rfl, rfl, id, id, rfl⟩
  case h_5 | h_7 =>
    cases h
    exact ⟨hs.keepsImage, rfl, rfl, id, id, rfl⟩
  case h_9 => cases h
  all_goals
    cases h
    exact ⟨SameImage.keepsImage ⟨rfl, rfl, rfl⟩, rfl, rfl, id, id, rfl⟩

theorem keepsHistory_of_step {a : Action} (h : s.step a = some t)
    (ha : ∀ u accepts, a ≠ .session (.update u accepts)) : KeepsHistory s t := by
  cases a with
  | session a =>
    exact keepsHistory_of_session (act_of_step h) fun u accepts heq => ha u accepts (congrArg _ heq)
  | hub a => exact keepsHistory_of_hub (act_of_step h)
  | worker a i => exact keepsHistory_of_worker (act_of_step h)

/-- The image holds the last values of the applied updates. -/
structure Imaged (s : System) : Prop where
  indexed : ∃ known, known <+: s.decoder.names ∧ s.state.Indexed known
  value : ∀ field, s.state.imageValue field =
    lastWrite (s.applied.flatMap SubscriptionUpdate.named) field
  updated : s.state.lastUpdate = none → s.applied = []
  created : s.created = false → s.applied = []

theorem imaged_new (mktdata : Bool) (tp : String) (fs : List String)
    (ks : List (String × FieldKind)) (consumerFields : ℕ → List String) :
    Imaged (new mktdata tp fs ks consumerFields) := by
  obtain ⟨hi, hv⟩ := indexed_new fs ks
  exact ⟨⟨[], nil_prefix, hi⟩, hv, fun _ => rfl, fun _ => rfl⟩

theorem Imaged.of_keepsHistory (hs : Imaged s) (h : KeepsHistory s t) : Imaged t := by
  obtain ⟨known, hk, hi⟩ := hs.indexed
  refine ⟨⟨known, h.decoder ▸ hk, h.image.indexed known hi⟩, fun field => ?_,
    fun hl => ?_, fun hc => ?_⟩
  · rw [h.image.imageValue known hi field, hs.value field, h.applied]
  · exact h.applied.trans (hs.updated (h.image.lastUpdate ▸ hl))
  · cases hb : s.created with
    | true => simp [h.created hb] at hc
    | false => exact h.applied.trans (hs.created hb)

variable {accepts : ℕ → ℕ → Bool}

theorem Imaged.update (hs : Imaged s)
    (h : s.stepSession (.update u accepts) = some t) : Imaged t := by
  simp only [stepSession] at h
  split at h
  case isFalse => cases h
  case isTrue hd =>
    cases h
    obtain ⟨hc, hd⟩ := hd
    obtain ⟨known, hk, hi⟩ := hs.indexed
    have hla : known <+: (s.decoder.push (layoutNames u.layout)).names :=
      hk.trans (pushFieldIfNew_foldl _ _).1
    cases hde : s.state.isDead with
    | true =>
      rw [onUpdate_of_dead hde]
      exact ⟨⟨known, hla, hi⟩, hs.value, hs.updated, hs.created⟩
    | false =>
      have hv := sameImage_onUpdate hde s.mktdata accepts u s.closed
      cases hf : (paintEffect s.state.recovery (isInitpaint u)).isFrozen with
      | true =>
        have hsa := (sameImage_paint s.mktdata hf).1
        simp only [Bool.or_true, if_true]
        refine ⟨⟨known, hla, ?_⟩, fun field => ?_, fun hl => ?_, hs.created⟩
        · exact (hi.of_sameImage hsa).of_sameImage hv
        · exact (hv.imageValue field).trans ((hsa.imageValue field).trans (hs.value field))
        · exact hs.updated (hsa.lastUpdate.symm.trans (hv.lastUpdate.symm.trans hl))
      | false =>
        obtain ⟨hp, hva⟩ := hi.paint hk hd s.mktdata hf
        simp only [Bool.or_false, Bool.false_eq_true, if_false]
        refine ⟨⟨_, by simp [hd.1], hp.of_sameImage hv⟩, fun field => ?_, fun hl => ?_, fun h => ?_⟩
        · rw [hv.imageValue, hva field]
          split
          · simp
          · rw [flatMap_append, lastWrite_append, ← hs.value field]
            simp
        · rw [hv.lastUpdate, lastUpdate_paint s.mktdata hf] at hl
          cases hl
        · simp [hc] at h

theorem Imaged.step {a : Action} (hs : Imaged s) (h : s.step a = some t) : Imaged t := by
  by_cases hu : ∃ u accepts, a = .session (.update u accepts)
  · obtain ⟨u, accepts, rfl⟩ := hu
    exact hs.update (act_of_step h)
  · exact hs.of_keepsHistory (keepsHistory_of_step h fun u accepts ha =>
      hu ⟨u, accepts, ha⟩)

theorem imaged_of_run {mktdata : Bool} {tp : String} {fs : List String}
    {ks : List (String × FieldKind)} {consumerFields : ℕ → List String}
    {ok : System → Action → Prop} {acts : List Action}
    (h : Run step ok (new mktdata tp fs ks consumerFields) acts s) : Imaged s := by
  have hst : ∀ s a t, Imaged s → ok s a → s.step a = some t → Imaged t :=
    fun _ _ _ hs _ h => hs.step h
  exact h.invariant hst (imaged_new mktdata tp fs ks consumerFields)

/-- An update that leaves a recovery in progress changes nothing that consumers can see. -/
theorem frozen_of_update (h : s.step (.session (.update u accepts)) = some t)
    (hb : s.state.recovery.isSome = true) (ha : t.state.recovery.isSome = true) :
    t.state.image = s.state.image ∧ t.state.layout = s.state.layout ∧
      t.state.lastUpdate = s.state.lastUpdate ∧ t.state.live = s.state.live := by
  replace h := act_of_step h
  simp only [act, stepSession] at h
  split at h
  case isFalse => cases h
  case isTrue =>
    cases h
    cases hd : s.state.isDead with
    | true =>
      rw [onUpdate_of_dead hd]
      exact ⟨rfl, rfl, rfl, rfl⟩
    | false =>
      have hc := (s.state.paint_course s.mktdata u).1
      rw [onUpdate_of_live hd] at ha ⊢
      have hf : (paintEffect s.state.recovery (isInitpaint u)).isFrozen = true := by
        cases he : paintEffect s.state.recovery (isInitpaint u) with
        | none => simp [paintEffect_eq_none he] at hb
        | recovered =>
          rw [he] at hc
          simp [hc] at ha
        | restart | held => rfl
      obtain ⟨hs, hl⟩ := sameImage_paint s.mktdata hf
      exact ⟨hs.image, hs.layout, hs.lastUpdate, hl⟩

/-- The image of a live feed is the last value of each field since the paint that ended the
latest recovery, a recovery freezes it, and a registered feed has a task for every resubscribe
that its recovery has queued. -/
theorem image_of_run {mktdata : Bool} {topic : String} {fields : List String}
    {kinds : List (String × FieldKind)} {consumerFields : ℕ → List String} {actions : List Action}
    {s : System} (h : FreeRun step (new mktdata topic fields kinds consumerFields) actions s)
    (hlive : s.state.isDead = false) :
    (∀ field, s.state.imageValue field =
      lastWrite (s.applied.flatMap SubscriptionUpdate.named) field) ∧
    (∀ update accepts t, s.step (.session (.update update accepts)) = some t →
      s.state.recovery.isSome = true → t.state.recovery.isSome = true →
      t.state.image = s.state.image ∧ t.state.layout = s.state.layout ∧
        t.state.lastUpdate = s.state.lastUpdate ∧ t.state.live = s.state.live) ∧
    (s.registered = true → ∀ recovery, s.state.recovery = some recovery →
      recovery.stage.isQueued = true → s.state.recoveryTaskScheduled = true ∧ (0 < s.schedules ∨
          ∃ worker ∈ s.workers, worker.isRecovery = true ∧ worker ≠ .recoveryFailed)) := by
  have htasks := tasks_of_run h
  refine ⟨(imaged_of_run h).value, fun update accepts t hs => frozen_of_update hs, ?_⟩
  intro hregistered recovery hrecovery hqueued
  have hscheduled := htasks.queued recovery hrecovery hqueued
  refine ⟨hscheduled, (htasks.pending hscheduled hregistered).imp id fun hany => ?_⟩
  obtain ⟨worker, hmem, hworker⟩ := any_eq_true.mp hany
  refine ⟨worker, hmem, hworker, ?_⟩
  rintro rfl
  simp [htasks.failed hmem] at hlive

theorem image_of_run_lost :
    ∃ actions s, FreeRun step viewedFeed actions s ∧
      s.state.recovery = some ⟨.queuedInitial, false⟩ ∧
      s.state.imageValue "LAST_PRICE" = some (.i64 7) ∧ s.state.recoveryTaskScheduled = true := by
  have hrun : FreeRun step viewedFeed
      [.hub (.attach viewer [] 0 true), .session (.update initialPaint fun _ _ => true),
        .session .dataLoss] _ := .of_runActions rfl
  obtain ⟨hvalue, -, htask⟩ := image_of_run hrun rfl
  exact ⟨_, _, hrun, rfl, hvalue "LAST_PRICE", (htask rfl _ rfl rfl).1⟩

/-- Between the two sections of `retire` a feed is alive but no longer in the registry: a restart
that a paint queues then finds no feed to recover. -/
theorem exists_run_restart_forgotten :
    ∃ actions s, FreeRun step viewedFeed actions s ∧ s.state.isDead = false ∧
      s.state.recovery = some ⟨.queuedRestart, true⟩ ∧ s.schedules = 0 ∧ s.workers = [] := by
  have hrun : FreeRun step viewedFeed
      (.hub (.attach viewer [] 0 true) :: lossAndRestart ++ [.session .dataLoss,
        .hub (.detach 0 0), .hub .unregister, .session (.update initialPaint fun _ _ => true),
        .hub .schedule]) _ := .of_runActions rfl
  exact ⟨_, _, hrun, rfl, rfl, rfl, rfl⟩

/-- The image has one slot for each field of the layout, the fields differ and are numbered in
order by 16 bits, and what was never decoded has no value. -/
theorem aligned_of_run {mktdata : Bool} {consumerFields : ℕ → List String}
    (hnumbered : (new mktdata tp fs ks consumerFields).Numbered)
    (h : FreeRun step (new mktdata tp fs ks consumerFields) acts s) :
    s.state.names.Nodup ∧ s.state.image.length = s.state.names.length ∧
    (∀ field ∉ s.decoder.names, s.state.imageValue field = none) ∧
    ∀ layout, s.state.layout = some layout → layout.fields.length ≤ 65536 ∧
      layout.fields.map (·.index) = range layout.fields.length := by
  obtain ⟨⟨known, hknown, hindexed⟩, -⟩ := imaged_of_run h
  have hstep : ∀ s a t, s.Numbered → True → step s a = some t → t.Numbered :=
    fun _ _ _ _ _ hs => of_decide_eq_true (Option.filter_eq_some_iff.mp hs).2
  refine ⟨hindexed.nodup, hindexed.length, fun field hf =>
    hindexed.imageValue_of_unknown fun hk => hf (hknown.subset hk), fun layout hlayout => ?_⟩
  refine ⟨?_, hindexed.indices layout hlayout⟩
  simpa [names, hlayout] using (h.invariant hstep hnumbered).1

theorem aligned_of_run_painted : ∃ s, FreeRun step viewedFeed
      [.hub (.attach viewer [] 0 true), .session (.update initialPaint fun _ _ => true)] s ∧
    s.state.names.length = 2 ∧ s.state.image.length = 2 := by
  have hnumbered : viewedFeed.Numbered := by decide
  exact Run.exists_imp (fun _ hrun hend => ⟨hend, (aligned_of_run hnumbered hrun).2.1.trans hend⟩)
    ⟨_, FreeRun.of_runActions rfl, rfl⟩

end System

end Xbbg.Feed
