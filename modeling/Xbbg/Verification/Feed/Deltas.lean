import Xbbg.Verification.Feed.Projection

/-! The view of a consumer of deltas. It gets updates, repaints as differences against the image
and synthetic images; `Coherent` says that what it has got last agrees with the image. -/

namespace Xbbg.Feed

open List Library UpdateValue MetadataSlots

variable {decoder : Decoder} {update : SubscriptionUpdate}

theorem nodup_named (h : Decoded decoder update) : (update.named.map Prod.fst).Nodup := by
  rw [named_eq]
  exact nodup_nameValues h.layout.2.1 h.2.2.2.2

theorem isMetadata_of_slot {l : FieldLayout} {i : ℕ} {name : String}
    (hn : (layoutNames l)[i]? = some name)
    (h : (resolve l).isMetadata i = true) : isMetadata name = true := by
  have hs : ∀ wanted, l.fields.findIdx? (·.name == wanted) = some i → name = wanted := by
    intro wanted hi
    obtain ⟨hlt, heq, -⟩ := findIdx?_eq_some_iff_getElem.mp hi
    rw [layoutNames, getElem?_map, getElem?_eq_getElem hlt] at hn
    exact (Option.some.inj hn).symm.trans (by simpa using heq)
  rw [MetadataSlots.isMetadata, Bool.or_eq_true, beq_iff_eq, beq_iff_eq] at h
  rcases h with h | h
  · rw [hs _ h]
    rfl
  · rw [hs _ h]
    rfl

/-- What an update means for an image: its writes, and the writes that change something. -/
structure Paints (paint : Paint) (image : String → Option UpdateValue) : Prop where
  update : (paint.update.named.map Prod.fst).Nodup
  changes : (paint.changes.1.named.map Prod.fst).Nodup
  changed : ∀ field, isMetadata field = false → lastWrite paint.changes.1.named field =
    (lastWrite paint.update.named field).filter fun v => !(image field).any (·.same v)
  unchanged : paint.changes.2 = false → ∀ field, isMetadata field = false →
    lastWrite paint.changes.1.named field = none
  finish : paint.finishPaint = true → paint.initpaint = false

theorem lastWrite_repaintChanges {image : List (Option UpdateValue)}
    (hde : Decoded decoder update) {old : Option UpdateValue} {field : String}
    (hd : isMetadata field = false)
    (ho : ∀ i : ℕ, (layoutNames update.layout)[i]? = some field → (image[i]?).join = old) :
    let changes := repaintChanges update image (resolve update.layout)
    lastWrite changes.1.named field =
        ((lastWrite update.named field).filter fun v => !old.any (·.same v)) ∧
      (changes.2 = false → lastWrite changes.1.named field = none) := by
  intro changes
  have hna := hde.layout.2.1
  have hv := hde.2.2.2.2
  by_cases hm : field ∈ layoutNames update.layout
  · obtain ⟨i, hi⟩ := mem_iff_getElem?.mp hm
    have hs : (resolve update.layout).isMetadata i = false := by
      cases h : (resolve update.layout).isMetadata i with
      | false => rfl
      | true => simp [isMetadata_of_slot hi h] at hd
    have hw : writes changes.1.values = (writes update.values).filter fun write =>
        (resolve update.layout).isMetadata write.1 ||
          !(image[write.1]?).join.any (·.same write.2) := by
      rw [writes, writes, filter_map]
      rfl
    have hk : ((writes update.values).map Prod.fst).Nodup := by
      simpa [writes, Function.comp_def] using hv
    have hc : lastWrite changes.1.named field = lastWrite (writes changes.1.values) i := by
      rw [named_eq]
      exact lastWrite_nameValues hna _ hi
    rw [hc, named_eq update, lastWrite_nameValues hna _ hi, hw]
    refine ⟨?_, fun hn => ?_⟩
    · rw [lastWrite_filter_of_nodup hk]
      simp [hs, ho i hi]
    · rw [lastWrite_eq_none_iff, ← hw]
      intro hm
      obtain ⟨⟨_, value⟩, hwrite, rfl⟩ := mem_map.mp hm
      obtain ⟨entry, he, heq⟩ := mem_map.mp hwrite
      cases heq
      have ha : changes.2 = true := any_eq_true.mpr ⟨entry, he, by simp [hs]⟩
      simp [ha] at hn
  · have hn : ∀ values, lastWrite (nameValues (layoutNames update.layout) values) field = none :=
      fun values => lastWrite_nameValues_of_notMem values hm
    rw [named_eq, named_eq, hn]
    exact ⟨hn _, fun _ => hn _⟩

variable {known : List String} {st : FeedState}

theorem paints_paint (h : st.Indexed known)
    (hk : known <+: decoder.names) (hde : Decoded decoder update) (mktdata : Bool) :
    Paints (st.paint mktdata update).2 fun field =>
      if paintEffect st.recovery (isInitpaint update) = .recovered then none
      else st.imageValue field := by
  have hc : ∀ field, isMetadata field = false →
      lastWrite (st.paint mktdata update).2.changes.1.named field =
        ((lastWrite update.named field).filter fun v =>
          !(if paintEffect st.recovery (isInitpaint update) = .recovered then none
            else st.imageValue field).any (·.same v)) ∧
      ((st.paint mktdata update).2.changes.2 = false →
        lastWrite (st.paint mktdata update).2.changes.1.named field = none) := by
    intro field hd
    apply lastWrite_repaintChanges hde hd
    intro i hi
    by_cases hr : paintEffect st.recovery (isInitpaint update) = .recovered
    · simp only [hr, beq_self_eq_true, if_true, getElem?_map]
      cases st.image[i]? <;> rfl
    · simp only [hr, beq_eq_false_iff_ne.mpr hr, Bool.false_eq_true, if_false]
      exact h.join_getElem? (hk.trans hde.layout.1) hde.layout.2.1 hi
  refine ⟨nodup_named hde, ?_, fun field hd => (hc field hd).1,
    fun hn field hd => (hc field hd).2 hn, fun hf => ?_⟩
  · refine Sublist.nodup (Sublist.map _ ?_) (nodup_named hde)
    exact Sublist.filterMap _ filter_sublist
  · simp only [FeedState.paint, Bool.and_eq_true, Bool.not_eq_true'] at hf
    exact hf.1.1

namespace ConsumerTopic

variable {consumer told : ConsumerTopic} {paint : Paint}

def received (consumer : ConsumerTopic) (field : String) : Option UpdateValue :=
  lastWrite (consumer.delivered.flatMap Delta.named) field

/-- The projection names every field once, the requested ones among them. -/
structure Projects (consumer : ConsumerTopic) : Prop where
  nodup : consumer.projection.fieldStrings.Nodup
  fields : consumer.explicitFields ⊆ consumer.projection.fieldStrings

/-- The deltas of a consumer agree with an image, except for fields that a repaint has to bring
and that the consumer is waiting for. -/
structure Coherent (image : String → Option UpdateValue) (consumer : ConsumerTopic) : Prop where
  known : ∀ field ∈ consumer.explicitFields, isMetadata field = false →
    field ∈ consumer.missing ∨ Agrees UpdateValue.same (image field) (consumer.received field)
  waiting : consumer.missing ≠ [] → consumer.awaitingImage = true ∧ consumer.awaitingRepaint = true

theorem received_record (consumer : ConsumerTopic)
    (res : Projection × MessageOutcome × Option Delta) (f : String) :
    (consumer.record res).received f =
      (lastWrite (res.2.2.toList.flatMap Delta.named) f).or (consumer.received f) := by
  rw [received, record, flatMap_append, lastWrite_append]
  rfl

/-- What an update that is not held back does to the flags of a consumer. -/
def marked (paint : Paint) (consumer : ConsumerTopic) : ConsumerTopic :=
  { consumer with
    awaitingImage := consumer.awaitingImage && !paint.finishPaint
    awaitingRepaint := consumer.awaitingRepaint && !paint.finishPaint
    missing :=
      if paint.recovered then []
      else consumer.missing.filter fun field => field ∉ paint.update.carried }

/-- A consumer gets the update or, in a repaint, what it changes. -/
def Selects (paint : Paint) (consumer : ConsumerTopic) (source : SubscriptionUpdate) : Prop :=
  source = paint.update ∨ paint.initpaint = true ∧
    (consumer.marked paint).awaitingImage = false ∧ source = paint.changes.1

/-- The ways in which a consumer can leave its turn. -/
inductive UpdateTurn (paint : Paint) (consumer : ConsumerTopic) : ConsumerTopic → Prop where
  | dropped : UpdateTurn paint consumer { consumer with active := false }
  | held (frozen : paint.frozen = true) : UpdateTurn paint consumer consumer
  | observed (delivery : consumer.imageDelivery = true) : UpdateTurn paint consumer
      { consumer.marked paint with
        projection := (consumer.projection.visitProjectedValues paint.update.layout
          paint.update.values).1 }
  | skipped (active : consumer.active = true) (selects : Selects paint consumer paint.changes.1)
      (unchanged : paint.changes.2 = false) : UpdateTurn paint consumer (consumer.marked paint)
  | sent {isOpen accepts suppress : Bool} {source : SubscriptionUpdate}
      (active : consumer.active = true) (selects : Selects paint consumer source)
      (normal : (consumer.projection.projectUpdate isOpen accepts source suppress).2.1 = .normal) :
      UpdateTurn paint consumer ((consumer.marked paint).record
        (consumer.projection.projectUpdate isOpen accepts source suppress))
  | failed {isOpen accepts suppress : Bool} {source : SubscriptionUpdate} :
      UpdateTurn paint consumer { (consumer.marked paint).record
        (consumer.projection.projectUpdate isOpen accepts source suppress) with active := false }

theorem updateTurn_onUpdate (paint : Paint) (isOpen accepts : Bool) (consumer : ConsumerTopic) :
    UpdateTurn paint consumer (consumer.onUpdate paint isOpen accepts).1 := by
  unfold onUpdate
  split
  · exact .dropped
  · rename_i ho
    have ha : consumer.active = true := by simp_all
    split
    · exact .dropped
    · split
      · exact .held (by assumption)
      · dsimp only
        split
        · exact .observed (by assumption)
        · split
          · rename_i hs
            simp only [Bool.and_eq_true, Bool.not_eq_true'] at hs
            exact .skipped ha (.inr ⟨hs.1.1.2, hs.1.2, rfl⟩) hs.2
          · by_cases hr : (paint.repainting && paint.initpaint &&
                !(consumer.awaitingImage && !paint.finishPaint)) = true
            · have hse : Selects paint consumer paint.changes.1 := by
                simp only [Bool.and_eq_true, Bool.not_eq_true'] at hr
                exact .inr ⟨hr.1.2, hr.2, rfl⟩
              simp only [hr, if_true]
              split
              · exact .sent ha hse (by assumption)
              · exact .failed
            · simp only [hr, Bool.false_eq_true, if_false]
              split
              · exact .sent ha (.inl rfl) (by assumption)
              · exact .failed

theorem Projects.project {c' : ConsumerTopic} (h : consumer.Projects)
    (hf : c'.explicitFields = consumer.explicitFields)
    (he : consumer.projection.fieldStrings <+: c'.projection.fieldStrings)
    (hn : consumer.projection.fieldStrings.Nodup → c'.projection.fieldStrings.Nodup) :
    c'.Projects :=
  ⟨hn h.nodup, fun _ hfi => he.subset (h.fields (hf ▸ hfi))⟩

/-- What the turn of a consumer never changes. -/
structure SameConsumer (consumer consumer' : ConsumerTopic) : Prop where
  owner : consumer'.owner = consumer.owner
  imageDelivery : consumer'.imageDelivery = consumer.imageDelivery
  explicitFields : consumer'.explicitFields = consumer.explicitFields
  projects : consumer.Projects → consumer'.Projects

theorem UpdateTurn.sameConsumer (h : UpdateTurn paint consumer told) :
    SameConsumer consumer told := by
  cases h with
  | dropped | held frozen | skipped active selects unchanged =>
    exact ⟨rfl, rfl, rfl, fun h => h.project rfl prefix_rfl id⟩
  | observed d =>
    have hv := consumer.projection.visits_visitProjectedValues paint.update.layout
      paint.update.values
    exact ⟨rfl, rfl, rfl, fun h => h.project rfl hv.fields hv.nodup⟩
  | @sent isOpen accepts suppress source active selects normal
  | @failed isOpen accepts suppress source =>
    have hf := consumer.projection.projectUpdate_fields isOpen accepts source suppress
    exact ⟨rfl, rfl, rfl, fun h => h.project rfl hf.1 hf.2⟩

variable {im : String → Option UpdateValue}

theorem UpdateTurn.received (h : UpdateTurn paint consumer told) (hp : Paints paint im)
    (hpr : consumer.Projects) (hfr : paint.frozen = false)
    (hde : consumer.imageDelivery = false) (ha : told.active = true) :
    consumer.active = true ∧ told.awaitingImage = (consumer.marked paint).awaitingImage ∧
      told.awaitingRepaint = (consumer.marked paint).awaitingRepaint ∧
      told.missing = (consumer.marked paint).missing ∧
      ∃ src, Selects paint consumer src ∧ ∀ f ∈ consumer.explicitFields, isMetadata f = false →
          told.received f = (lastWrite src.named f).or (consumer.received f) := by
  cases h with
  | dropped => cases ha
  | held frozen => simp [frozen] at hfr
  | observed d => simp [d] at hde
  | failed => cases ha
  | skipped active selects unchanged =>
    refine ⟨active, rfl, rfl, rfl, _, selects, fun f hf hd => ?_⟩
    rw [hp.unchanged unchanged f hd, Option.none_or]
    rfl
  | @sent isOpen accepts suppress src active selects normal =>
    refine ⟨active, rfl, rfl, rfl, src, selects, fun f hf hd => ?_⟩
    have hs : (src.named.map Prod.fst).Nodup := by
      rcases selects with rfl | ⟨-, -, rfl⟩
      · exact hp.update
      · exact hp.changes
    rw [received_record, Projection.lastWrite_projectUpdate hs normal (hpr.fields hf) hd]
    rfl

theorem Coherent.serve (h : UpdateTurn paint consumer told)
    (hp : Paints paint im) (hpr : consumer.Projects) (hfr : paint.frozen = false)
    (hde : consumer.imageDelivery = false) (hac : told.active = true)
    (hre : paint.recovered = true → ∀ f, im f = none)
    (hco : paint.recovered = false → Coherent im consumer)
    (hg : paint.finishPaint = true → ∀ f ∈ consumer.missing, f ∈ paint.update.carried) :
    Coherent (fun f => (lastWrite paint.update.named f).or (im f)) told := by
  obtain ⟨-, hi, hrep, hmi, src, hs, hr⟩ :=
    h.received hp hpr hfr hde hac
  have hfe := h.sameConsumer.explicitFields
  -- A consumer that misses a field gets the whole update.
  have hw : consumer.awaitingImage = true → src = paint.update := by
    intro ha
    rcases hs with hso | ⟨hin, hse, -⟩
    · exact hso
    · have hfi : paint.finishPaint = false := by
        cases hfi : paint.finishPaint with
        | false => rfl
        | true => simp [hp.finish hfi] at hin
      simp [marked, ha, hfi] at hse
  have hag : ∀ f ∈ consumer.explicitFields, isMetadata f = false →
      Agrees same (im f) (consumer.received f) →
      Agrees same ((lastWrite paint.update.named f).or (im f)) (told.received f) := by
    intro f hf hd h
    rw [hr f hf hd]
    rcases hs with rfl | ⟨-, -, rfl⟩
    · exact .write same_refl _ fun _ => h
    · rw [hp.changed f hd]
      exact h.change same_refl same_trans _
  cases hpa : paint.recovered with
  | true =>
    have hn : told.missing = [] := by simp [hmi, marked, hpa]
    refine ⟨fun f hf hd => .inr ?_, fun h => absurd hn h⟩
    refine hag f (hfe ▸ hf) hd ?_
    rw [hre hpa f]
    exact agrees_none _
  | false =>
    have hk : told.missing = consumer.missing.filter fun f => f ∉ paint.update.carried := by
      simp [hmi, marked, hpa]
    have hb := hco hpa
    refine ⟨fun f hf hd => ?_, fun h => ?_⟩
    · rw [hfe] at hf
      rcases hb.known f hf hd with hm | hkn
      · by_cases hc : f ∈ paint.update.carried
        · have ha := (hb.waiting (ne_nil_of_mem hm)).1
          refine .inr ?_
          rw [hr f hf hd, hw ha]
          refine .write same_refl _ fun hn => ?_
          exact absurd hc ((lastWrite_eq_none_iff _ _).mp hn)
        · exact .inl (by simpa [hk] using ⟨hm, hc⟩)
      · exact .inr (hag f hf hd hkn)
    · obtain ⟨f, hm⟩ := exists_mem_of_ne_nil _ h
      rw [hk] at hm
      obtain ⟨hm, hc⟩ : f ∈ consumer.missing ∧ f ∉ paint.update.carried := by
        simpa using hm
      have hfi : paint.finishPaint = false := by
        cases hfi : paint.finishPaint with
        | false => rfl
        | true => exact absurd (hg hfi f hm) hc
      obtain ⟨ha, hrp⟩ := hb.waiting (ne_nil_of_mem hm)
      simp [hi, hrep, marked, ha, hrp, hfi]

end ConsumerTopic

namespace FeedState

theorem lastWrite_initialImageUpdate (h : st.Indexed known)
    {topic : String} {now : ℤ} {image : SubscriptionUpdate}
    (him : st.initialImageUpdate topic now = some image) :
    (image.named.map Prod.fst).Nodup ∧ ∀ field, isMetadata field = false →
      lastWrite image.named field = st.imageValue field := by
  unfold initialImageUpdate at him
  split at him
  · cases him
  · obtain ⟨layout, hl, rfl⟩ := Option.map_eq_some_iff.mp him
    have hn : st.names = layoutNames layout := by simp [names, hl, layoutNames]
    have hii := h.indices layout hl
    have hno := hn ▸ h.nodup
    have hid : ∀ {i : ℕ} {info : FieldMeta}, layout.fields[i]? = some info → info.index = i := by
      intro i info hin
      obtain ⟨hlt, rfl⟩ := List.getElem?_eq_some_iff.mp hin
      have hr := congrArg (·[i]?) hii
      simpa [hlt] using hr
    generalize hval : filterMap _ layout.fields = values
    have hk : (values.map (·.index)).Nodup := by
      rw [← hval, map_filterMap]
      refine (filterMap_sublist_map (g := FieldMeta.index) ?_ _).nodup (hii ▸ nodup_range)
      intro info index hs
      simp only [Option.map_map, Option.map_eq_some_iff] at hs
      obtain ⟨_, -, rfl⟩ := hs
      rfl
    have hw : ((writes values).map Prod.fst).Nodup := by
      simpa [writes, Function.comp_def] using hk
    simp only [named_eq]
    refine ⟨nodup_nameValues hno hk, fun field hd => ?_⟩
    by_cases hm : field ∈ layoutNames layout
    · obtain ⟨i, hi⟩ := mem_iff_getElem?.mp hm
      rw [lastWrite_nameValues hno _ hi, imageValue_of_getElem? h.nodup (hn ▸ hi)]
      obtain ⟨info, hin, rfl⟩ : ∃ info, layout.fields[i]? = some info ∧ info.name = field := by
        simpa [layoutNames] using hi
      have hne : info.name ≠ eventType ∧ info.name ≠ eventSubtype := by
        simpa [isMetadata] using hd
      refine Option.ext fun v => ?_
      rw [lastWrite_eq_some_iff hw, writes, ← hval]
      simp only [mem_map, mem_filterMap, Prod.mk.injEq]
      constructor
      · rintro ⟨entry, ⟨info', hm', he⟩, hentryIndex, rfl⟩
        obtain ⟨j, hj⟩ := mem_iff_getElem?.mp hm'
        obtain ⟨v, hv, rfl⟩ := Option.map_eq_some_iff.mp he
        obtain rfl : j = i := (hid hj).symm.trans hentryIndex
        obtain rfl : info' = info := Option.some.inj (hj.symm.trans hin)
        simpa [hne.1, hne.2, hid hin] using hv
      · intro hv
        refine ⟨⟨i, v⟩, ⟨info, mem_of_getElem? hin, ?_⟩, rfl, rfl⟩
        simp [hne.1, hne.2, hid hin, hv]
    · rw [lastWrite_nameValues_of_notMem _ hm, imageValue_of_notMem (hn ▸ hm)]

theorem agrees_sendImage (h : st.Indexed known) {tp : String} {now : ℤ} {im : SubscriptionUpdate}
    (hi : st.initialImageUpdate tp now = some im) {consumer : ConsumerTopic}
    (hp : consumer.Projects) {isOpen accepts : Bool} (ho : isOpen = true)
    (hs : (sendImage consumer isOpen accepts im).2 = false) {f : String}
    (hf : f ∈ consumer.explicitFields) (hd : isMetadata f = false) :
    Agrees same (st.imageValue f)
      ((sendImage consumer isOpen accepts im).1.received f) := by
  obtain ⟨hn, hv⟩ := lastWrite_initialImageUpdate h hi
  have hno : (consumer.projection.projectUpdate isOpen accepts im false).2.1 = .normal := by
    simpa [sendImage, ho] using hs
  rw [sendImage, ConsumerTopic.received_record,
    Projection.lastWrite_projectUpdate hn hno (hp.fields hf) hd,
    hv f hd]
  exact agrees_copy same_refl _ _

end FeedState

end Xbbg.Feed
