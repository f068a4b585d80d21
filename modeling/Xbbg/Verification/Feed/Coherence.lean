import Xbbg.Verification.Feed.Deltas

/-! Every active consumer of deltas agrees with the image of its feed, as long as no ordinary
update ends its wait for a repaint that still has to bring it a value. -/

namespace Xbbg.Feed

open List Library ConsumerTopic

variable {owner : ℕ}

/-- A stream that is open after a turn was open before it, and the turn of its owner has not
failed. -/
theorem open_before {closed : ℕ → Bool} {failed : Bool} {target : ℕ}
    (h : (if failed then Function.update closed target true else closed) owner = false) :
    closed owner = false ∧ (owner = target → failed = false) := by
  cases failed with
  | false => exact ⟨h, fun _ => rfl⟩
  | true =>
    by_cases ho : owner = target
    · simp [ho] at h
    · exact ⟨by simpa [ho] using h, fun heq => absurd heq ho⟩

variable {told : ConsumerTopic}

section Visits

variable {turn : Bool → ConsumerTopic → ConsumerTopic × Bool}

/-- Who is closed after the turn of one consumer. -/
def closedAfter (turn : Bool → ConsumerTopic → ConsumerTopic × Bool) (consumer : ConsumerTopic)
    (closed : ℕ → Bool) : ℕ → Bool :=
  if (turn (!closed consumer.owner) consumer).2 then Function.update closed consumer.owner true
  else closed

theorem visitConsumers_cons (consumer : ConsumerTopic) (rest : List ConsumerTopic)
    (closed : ℕ → Bool) :
    visitConsumers turn (consumer :: rest) closed = ((turn (!closed consumer.owner) consumer).1 ::
          (visitConsumers turn rest (closedAfter turn consumer closed)).1,
        (visitConsumers turn rest (closedAfter turn consumer closed)).2) := rfl

variable {cs : List ConsumerTopic} {closed : ℕ → Bool}

theorem closed_of_visitConsumers
    (h : (visitConsumers turn cs closed).2 owner = false) : closed owner = false := by
  induction cs generalizing closed with
  | nil => exact h
  | cons consumer rest ih =>
    rw [visitConsumers_cons] at h
    exact (open_before (ih h)).1

/-- A visited consumer has had its turn. If its stream is open in the end, it was open then and
the turn has not failed. -/
theorem mem_visitConsumers (h : told ∈ (visitConsumers turn cs closed).1) :
    ∃ consumer ∈ cs, ∃ isOpen, told = (turn isOpen consumer).1 ∧
      ((visitConsumers turn cs closed).2 consumer.owner = false →
        isOpen = true ∧ (turn isOpen consumer).2 = false) := by
  induction cs generalizing closed with
  | nil => cases h
  | cons consumer rest ih =>
    rw [visitConsumers_cons] at h ⊢
    rcases mem_cons.mp h with rfl | hm
    · refine ⟨consumer, by simp, _, rfl, fun ho => ?_⟩
      obtain ⟨hb, hf⟩ := open_before (closed_of_visitConsumers ho)
      exact ⟨by simp [hb], hf rfl⟩
    · obtain ⟨o, hot, isOpen, ht, ho⟩ := ih hm
      exact ⟨o, mem_cons_of_mem _ hot, isOpen, ht, ho⟩

end Visits

namespace ConsumerTopic

variable {consumer : ConsumerTopic} {image : String → Option UpdateValue}

/-- A consumer keeps what it has got and what it waits for; it may have become inactive. -/
structure Follows (consumer consumer' : ConsumerTopic) : Prop where
  same : SameConsumer consumer consumer'
  active : consumer'.active = true → consumer.active = true
  delivered : consumer'.delivered = consumer.delivered
  missing : consumer'.missing = consumer.missing
  awaiting : consumer.awaitingImage = true ∧ consumer.awaitingRepaint = true →
    consumer'.awaitingImage = true ∧ consumer'.awaitingRepaint = true

theorem Follows.refl (consumer : ConsumerTopic) : Follows consumer consumer :=
  ⟨⟨rfl, rfl, rfl, id⟩, id, rfl, rfl, id⟩

theorem follows_inactive (consumer : ConsumerTopic) :
    Follows consumer { consumer with active := false } :=
  ⟨⟨rfl, rfl, rfl, fun h => ⟨h.nodup, h.fields⟩⟩, by simp, rfl, rfl, id⟩

theorem follows_applyFieldErrors (consumer : ConsumerTopic) (errs : List String) :
    Follows consumer (consumer.applyFieldErrors errs) := by
  unfold applyFieldErrors
  split
  · exact follows_inactive consumer
  · exact .refl consumer

theorem Follows.trans {c' c'' : ConsumerTopic} (h : Follows consumer c') (h' : Follows c' c'') :
    Follows consumer c'' where
  same :=
    { owner := h'.same.owner.trans h.same.owner
      imageDelivery := h'.same.imageDelivery.trans h.same.imageDelivery
      explicitFields := h'.same.explicitFields.trans h.same.explicitFields
      projects := fun hp => h'.same.projects (h.same.projects hp) }
  active := fun ha => h.active (h'.active ha)
  delivered := h'.delivered.trans h.delivered
  missing := h'.missing.trans h.missing
  awaiting := fun haw => h'.awaiting (h.awaiting haw)

theorem follows_applyDelayed (consumer : ConsumerTopic) (delayed : Option Bool) :
    Follows consumer (consumer.applyDelayed delayed) := by
  unfold applyDelayed
  split
  · exact follows_inactive consumer
  · exact .refl consumer

theorem coherent_of_none (hi : ∀ f, image f = none) (hm : consumer.missing = []) :
    Coherent image consumer := by
  refine ⟨fun f _ _ => .inr ?_, fun h => absurd hm h⟩
  rw [hi f]
  exact agrees_none _

theorem Projects.widen (h : consumer.Projects) (image : String → Option UpdateValue)
    (newFields : List String) (changed : Bool) :
    (consumer.widen image newFields changed).Projects := by
  obtain ⟨he, hn, hm⟩ := pushFieldIfNew_foldl consumer.projection.fieldStrings newFields
  refine ⟨hn h.nodup, fun f hf => ?_⟩
  rcases mem_append.mp hf with ho | hne
  · exact he.subset (h.fields ho)
  · exact hm f hne

theorem Coherent.waiting_widen (h : Coherent image consumer) (newFields : List String)
    (changed : Bool) (hm : (consumer.widen image newFields changed).missing ≠ []) :
    (consumer.widen image newFields changed).awaitingImage = true ∧
      (consumer.widen image newFields changed).awaitingRepaint = true := by
  cases changed with
  | true => simp [widen]
  | false => simpa [widen] using h.waiting (by simpa [widen] using hm)

/-- New fields of a grown union are missing as long as the image has their values. -/
theorem Coherent.widen (h : Coherent image consumer) {newFields : List String} {changed : Bool}
    (hne : changed = true ∨ newFields = [] ∨ ∀ f, image f = none) :
    Coherent image (consumer.widen image newFields changed) := by
  refine ⟨fun f hf hd => ?_, h.waiting_widen newFields changed⟩
  rcases mem_append.mp hf with ho | hm
  · refine (h.known f ho hd).imp (fun hmi => ?_) id
    cases changed with
    | true => simp [ConsumerTopic.widen, hmi]
    | false => simpa [ConsumerTopic.widen] using hmi
  · cases hv : image f with
    | none => exact .inr (agrees_none _)
    | some v =>
      rcases hne with rfl | rfl | hn
      · exact .inl (by simp [ConsumerTopic.widen, hm, hd, hv])
      · cases hm
      · simp [hn f] at hv

theorem Coherent.follow {consumer' : ConsumerTopic} (h : Coherent image consumer)
    (hf : Follows consumer consumer') : Coherent image consumer' := by
  refine ⟨fun field hfi hd => ?_, fun hm => ?_⟩
  · rw [hf.missing, received, hf.delivered]
    exact h.known field (hf.same.explicitFields ▸ hfi) hd
  · exact hf.awaiting (h.waiting (hf.missing ▸ hm))

end ConsumerTopic

/-- Every consumer of the second list follows one of the first. -/
def Followed (consumers consumers' : List ConsumerTopic) : Prop :=
  ∀ consumer' ∈ consumers', ∃ consumer ∈ consumers, consumer.Follows consumer'

theorem Followed.refl (consumers : List ConsumerTopic) : Followed consumers consumers :=
  fun consumer h => ⟨consumer, h, .refl consumer⟩

theorem followed_map {f : ConsumerTopic → ConsumerTopic} (h : ∀ c, ConsumerTopic.Follows c (f c))
    (cs : List ConsumerTopic) : Followed cs (cs.map f) := by
  intro c' hm
  obtain ⟨consumer, hc, rfl⟩ := mem_map.mp hm
  exact ⟨consumer, hc, h consumer⟩

theorem followed_filter (p : ConsumerTopic → Bool) (cs : List ConsumerTopic) :
    Followed cs (cs.filter p) :=
  fun consumer h => ⟨consumer, (mem_filter.mp h).1, .refl consumer⟩

theorem followed_visitConsumers {turn : Bool → ConsumerTopic → ConsumerTopic × Bool}
    (h : ∀ isOpen (consumer : ConsumerTopic), consumer.Follows (turn isOpen consumer).1)
    (cs : List ConsumerTopic) (closed : ℕ → Bool) :
    Followed cs (visitConsumers turn cs closed).1 := by
  intro told hm
  obtain ⟨consumer, hc, isOpen, rfl, -⟩ := mem_visitConsumers hm
  exact ⟨consumer, hc, h isOpen consumer⟩

variable {fs : List String}

namespace FeedState

variable {st : FeedState} {topic : String} {now : ℤ} {known newFields : List String}
  {closed : ℕ → Bool} {kinds : List (String × FieldKind)} {accepts : ℕ → ℕ → Bool} {mktdata : Bool}
  {update : SubscriptionUpdate}

theorem followed_onDataLoss (st : FeedState) (closed : ℕ → Bool) :
    Followed st.consumers (st.onDataLoss closed).1.consumers ∧
      ∀ owner, (st.onDataLoss closed).2.1 owner = false → closed owner = false := by
  unfold onDataLoss
  dsimp only
  split
  · exact ⟨.refl _, fun _ => id⟩
  · have ht : ∀ isOpen (consumer : ConsumerTopic), consumer.Follows
        (if !consumer.active || !isOpen then ({ consumer with active := false }, false)
          else if !consumer.imageDelivery then ({ consumer with active := false }, true)
          else (consumer, false)).1 := by
      intro isOpen consumer
      split
      · exact consumer.follows_inactive
      · split
        · exact consumer.follows_inactive
        · exact .refl consumer
    split <;> exact ⟨followed_visitConsumers ht _ _, fun _ => closed_of_visitConsumers⟩

theorem followed_onError (st : FeedState) : Followed st.consumers st.onError.consumers := by
  unfold onError
  split
  · exact .refl _
  · exact followed_map follows_inactive _

theorem followed_onFieldError (st : FeedState) (element : String) (scalar : Bool)
    (closed : ℕ → Bool) :
    Followed st.consumers (st.onFieldError element scalar closed).1.consumers ∧
      ∀ owner, (st.onFieldError element scalar closed).2 owner = false → closed owner = false := by
  refine ⟨followed_visitConsumers ?_ _ _, fun _ => closed_of_visitConsumers⟩
  intro isOpen consumer
  split
  · exact consumer.follows_inactive
  · split
    · exact consumer.follows_inactive
    · exact .refl consumer

theorem followed_onStreamAvailability (st : FeedState) (active : Bool) :
    Followed st.consumers (st.onStreamAvailability active).consumers := by
  unfold onStreamAvailability
  split <;> exact .refl _

theorem followed_collectStatus (st : FeedState) (change : StatusChange) (closed : ℕ → Bool) :
    Followed st.consumers (st.collectStatus change closed).consumers := by
  unfold collectStatus
  dsimp only
  refine followed_map (fun consumer => ?_) _
  split
  · exact .refl consumer
  · split
    · exact consumer.follows_inactive
    · split
      · exact .refl consumer
      · split
        · exact .refl consumer
        · split
          · exact consumer.follows_inactive
          · exact consumer.follows_applyFieldErrors _

theorem followed_growUnion (st : FeedState) (fs : List String) :
    Followed st.consumers (st.growUnion fs).2.consumers := by
  unfold growUnion
  dsimp only
  split
  · refine followed_map (fun consumer => ?_) _
    split
    · exact .refl consumer
    · rename_i hr
      exact ⟨⟨rfl, rfl, rfl, fun h => ⟨h.nodup, h.fields⟩⟩, id, rfl, rfl, fun h => absurd h.2 hr⟩
  · exact .refl _

theorem consumers_seedImageKinds (st : FeedState) (kinds : List (String × FieldKind)) :
    (st.seedImageKinds kinds).consumers = st.consumers := by
  unfold seedImageKinds
  dsimp only
  split <;> rfl

theorem projects_new (fs : List String) (captureAllFields : Bool) :
    (Projection.new fs captureAllFields).fieldStrings.Nodup ∧
      fs ⊆ (Projection.new fs captureAllFields).fieldStrings := by
  obtain ⟨-, hn, hm⟩ := pushFieldIfNew_foldl [] (fs ++ [eventType, eventSubtype])
  exact ⟨hn nodup_nil, fun f hf => hm f (mem_append_left _ hf)⟩

theorem initialImageUpdate_eq_none (h : st.initialImageUpdate topic now = none)
    (hr : st.recovery = none) (hl : st.lastUpdate = none → ∀ f, st.imageValue f = none) :
    ∀ f, st.imageValue f = none := by
  unfold initialImageUpdate at h
  split at h
  · rename_i hn
    exact hl (by simpa [hr] using hn)
  · have hla : st.layout = none := Option.map_eq_none_iff.mp h
    exact fun f => imageValue_of_notMem (by simp [names, hla])

theorem sameConsumer_sendImage (consumer : ConsumerTopic) (isOpen accepts : Bool)
    (image : SubscriptionUpdate) :
    consumer.SameConsumer (sendImage consumer isOpen accepts image).1 := by
  have hf := consumer.projection.projectUpdate_fields isOpen accepts image false
  exact ⟨rfl, rfl, rfl, fun h => h.project rfl hf.1 hf.2⟩

theorem sameConsumer_welcome (seeded : FeedState) (mktdata created : Bool) (topic : String)
    (now : ℤ) (subscriber : Subscriber) (accepts : Bool) (closed : ℕ → Bool)
    (allowed : ConsumerTopic) :
    allowed.SameConsumer
      (seeded.welcome mktdata created topic now subscriber accepts closed allowed).1 := by
  unfold welcome
  split
  · split
    · exact sameConsumer_sendImage _ _ _ _
    · exact ⟨rfl, rfl, rfl, id⟩
  · exact ⟨rfl, rfl, rfl, id⟩

variable {subscriber : Subscriber} {seeded : FeedState}

theorem coherent_welcome (h : seeded.Indexed known) {created : Bool}
    {accepts : Bool} {allowed : ConsumerTopic} (hp : allowed.Projects) (hm : allowed.missing = [])
    (hr : seeded.recovery = none)
    (he : created = true ∨ seeded.lastUpdate = none → ∀ f, seeded.imageValue f = none)
    (ha : (seeded.welcome true created topic now subscriber accepts closed allowed).1.active =
      true) (ho : closed subscriber.owner = false)
    (hs : (seeded.welcome true created topic now subscriber accepts closed allowed).2 = false)
    (hde : subscriber.imageDelivery = false) :
    (seeded.welcome true created topic now subscriber accepts closed allowed).1.Coherent
      seeded.imageValue := by
  unfold welcome at ha hs ⊢
  cases hi : seeded.initialImageUpdate topic now with
  | none =>
    exact coherent_of_none
      (initialImageUpdate_eq_none hi hr fun hl => he (.inr hl)) hm
  | some image =>
    cases hc : created with
    | true =>
      simp only [Bool.not_true, Bool.and_false, Bool.false_and, Bool.false_eq_true, if_false]
      exact coherent_of_none (he (.inl hc)) hm
    | false =>
      cases hal : allowed.active with
      | false => simp [hi, hal] at ha
      | true =>
        simp only [hi, hal, hde, hc, ho, Bool.not_false, Bool.and_self, if_true] at hs ⊢
        refine ⟨fun f hf hd => .inr ?_, fun h => absurd hm h⟩
        exact agrees_sendImage h hi hp rfl hs hf hd

theorem attach_consumers {st' : FeedState} {created : Bool}
    {accepts growth : Bool} {closed' : ℕ → Bool}
    (h : st.attach true created topic now subscriber fs kinds accepts closed = some (st',
      closed', growth)) :
    (∀ owner, closed' owner = false → closed owner = false) ∧
    ∃ served, st'.consumers = (st.growUnion fs).2.consumers ++ [served] ∧ served.Projects ∧
      ∀ known, st'.Indexed known → st'.recovery = none →
        (created = true ∨ st'.lastUpdate = none → ∀ f, st'.imageValue f = none) →
        served.active = true → closed' served.owner = false → served.imageDelivery = false →
        served.Coherent st'.imageValue := by
  unfold attach at h
  split at h
  · cases h
  · obtain ⟨rfl, hp⟩ := Prod.mk.inj (Option.some.inj h)
    obtain ⟨rfl, -⟩ := Prod.mk.inj hp
    clear h hp
    generalize hsee : (st.growUnion fs).2.seedImageKinds kinds = seeded
    have hc : seeded.consumers = (st.growUnion fs).2.consumers :=
      hsee ▸ consumers_seedImageKinds _ kinds
    generalize (st.growUnion fs).1 = growth
    have hf := ((seeded.newcomer created growth subscriber fs).follows_applyDelayed
      seeded.delayed).trans (follows_applyFieldErrors _ seeded.fieldErrors)
    have hn := projects_new fs subscriber.allFields
    generalize ((seeded.newcomer created growth subscriber fs).applyDelayed
      seeded.delayed).applyFieldErrors seeded.fieldErrors = allowed at hf
    have hpr : allowed.Projects := hf.same.projects ⟨hn.1, hn.2⟩
    have hs := seeded.sameConsumer_welcome true created topic now subscriber accepts closed allowed
    have how : (seeded.welcome true created topic now subscriber accepts closed allowed).1.owner =
        subscriber.owner := hs.owner.trans hf.same.owner
    refine ⟨fun owner ho => (open_before ho).1, _, by rw [hc], hs.projects hpr, ?_⟩
    intro known hi hr he ha hcl hd
    obtain ⟨ho, hse⟩ := open_before hcl
    exact coherent_welcome (hi.of_sameImage ⟨rfl, rfl, rfl⟩) hpr hf.missing hr
      he ha (how ▸ ho) (hse how)
      ((hs.imageDelivery.trans hf.same.imageDelivery).symm.trans hd)

theorem addFieldsTurn_frame (st : FeedState) (fieldErrors : List String) (owner : ℕ)
    (newFields : List String) (changed : Bool) (image : Option SubscriptionUpdate)
    (accepts : ℕ → ℕ → Bool) (isOpen : Bool) (consumer : ConsumerTopic) :
    let told :=
      (st.addFieldsTurn fieldErrors owner newFields changed image accepts isOpen consumer).1
    told.owner = consumer.owner ∧ told.imageDelivery = consumer.imageDelivery ∧
      (told.active = true → consumer.active = true) ∧ (consumer.Projects → told.Projects) := by
  have hf := (consumer.widen st.imageValue newFields changed).follows_applyFieldErrors fieldErrors
  have hw : ∀ told, SameConsumer
      ((consumer.widen st.imageValue newFields changed).applyFieldErrors fieldErrors) told →
      told.owner = consumer.owner ∧ told.imageDelivery = consumer.imageDelivery ∧
        (consumer.Projects → told.Projects) := by
    intro told hs
    exact ⟨hs.owner.trans hf.same.owner, hs.imageDelivery.trans hf.same.imageDelivery,
      fun h => hs.projects (hf.same.projects (h.widen st.imageValue newFields changed))⟩
  unfold addFieldsTurn
  split
  · exact ⟨rfl, rfl, id, id⟩
  · rename_i hsk
    have ha : consumer.active = true := by simp_all
    dsimp only
    split
    · split
      · obtain ⟨ho, hd, hp⟩ := hw _ (sameConsumer_sendImage ..)
        exact ⟨ho, hd, fun _ => ha, hp⟩
      · obtain ⟨ho, hd, hp⟩ := hw _ ⟨rfl, rfl, rfl, id⟩
        exact ⟨ho, hd, fun _ => ha, hp⟩
    · obtain ⟨ho, hd, hp⟩ := hw _ ⟨rfl, rfl, rfl, id⟩
      exact ⟨ho, hd, fun _ => ha, hp⟩

/-- A consumer with new fields gets their values at once, or misses them until the repaint. -/
theorem coherent_addFieldsTurn (h : seeded.Indexed known)
    (hv : seeded.imageValue = st.imageValue) {fieldErrors : List String}
    {changed : Bool} {image : Option SubscriptionUpdate}
    (hn : image = none → changed = true ∨ newFields = [] ∨ ∀ field, st.imageValue field = none)
    (hso : image.isSome = true → seeded.initialImageUpdate topic now = image)
    {consumer : ConsumerTopic} (hp : consumer.Projects)
    (hc : consumer.Coherent st.imageValue) (hde : consumer.imageDelivery = false)
    (ha : (st.addFieldsTurn fieldErrors owner newFields changed image accepts true
      consumer).1.active = true)
    (hs : (st.addFieldsTurn fieldErrors owner newFields changed image accepts true consumer).2 =
      false) :
    (st.addFieldsTurn fieldErrors owner newFields changed image accepts true consumer).1.Coherent
      st.imageValue := by
  have hf := (consumer.widen st.imageValue newFields changed).follows_applyFieldErrors fieldErrors
  unfold addFieldsTurn at ha hs ⊢
  split
  · exact hc
  · rename_i hsk
    simp only [hsk] at ha hs
    cases hi : image with
    | none => exact (hc.widen (hn hi)).follow hf
    | some image' =>
      have hs' : seeded.initialImageUpdate topic now = some image' := hi ▸ hso (by simp [hi])
      subst hi
      cases hw : ((consumer.widen st.imageValue newFields changed).applyFieldErrors
          fieldErrors).active with
      | false => simp [hw] at ha
      | true =>
        simp only [hw, hde, Bool.not_false, Bool.and_self, if_true] at hs ⊢
        have hwi := hf.same.projects (hp.widen st.imageValue newFields changed)
        refine ⟨fun field hfi hd => .inr ?_, fun hm => ?_⟩
        · have hag := agrees_sendImage h hs' hwi rfl hs hfi hd
          rw [hv] at hag
          exact hag
        · exact hf.awaiting (hc.waiting_widen newFields changed (hf.missing ▸ hm))

theorem followed_grownBy (st : FeedState) (newFields : List String)
    (kinds : List (String × FieldKind)) :
    Followed st.consumers (st.grownBy newFields kinds).consumers := by
  have hc : (st.grownBy newFields kinds).consumers = (st.growUnion newFields).2.consumers :=
    consumers_seedImageKinds _ kinds
  rw [hc]
  exact st.followed_growUnion newFields

theorem initialImageUpdate_of_imageFor
    (h : (st.imageFor mktdata topic now newFields kinds).isSome = true) :
    (st.grownBy newFields kinds).initialImageUpdate topic now =
      st.imageFor mktdata topic now newFields kinds := by
  unfold imageFor at h ⊢
  split
  · rfl
  · rename_i hc
    simp [hc] at h

/-- Without an image the union has grown, or there is nothing to send. -/
theorem imageFor_eq_none (h : st.Indexed known)
    (hn : st.imageFor true topic now newFields kinds = none) (hr : st.recovery = none)
    (he : st.lastUpdate = none → ∀ f, st.imageValue f = none) :
    (st.growUnion newFields).1 = true ∨ newFields = [] ∨ ∀ f, st.imageValue f = none := by
  have hk : KeepsImage st (st.grownBy newFields kinds) := Grown.keepsImage ⟨_, _, _, _, rfl⟩
  have hv := hk.imageValue known h
  have hco := (sameCourse_seedImageKinds (st.growUnion newFields).2 kinds).recovery
  unfold imageFor at hn
  split at hn
  · refine .inr (.inr fun f => (hv f).symm.trans ?_)
    refine initialImageUpdate_eq_none hn (hco.trans hr) (fun hl f => ?_) f
    exact (hv f).trans (he (hk.lastUpdate.symm.trans hl) f)
  · rename_i hc
    cases hch : (st.growUnion newFields).1 with
    | true => exact .inl rfl
    | false => exact .inr (.inl (by simpa [hch] using hc))

theorem addFields_consumers
    (hm : told ∈ (st.addFields true topic now owner newFields kinds accepts closed).1.consumers) :
    ∃ consumer ∈ st.consumers, told.owner = consumer.owner ∧
      told.imageDelivery = consumer.imageDelivery ∧ (told.active = true → consumer.active = true) ∧
      (consumer.Projects → told.Projects) ∧
      ∀ known, st.Indexed known → st.recovery = none →
        (st.lastUpdate = none → ∀ f, st.imageValue f = none) → consumer.Projects →
        consumer.Coherent st.imageValue → told.imageDelivery = false → told.active = true →
        (st.addFields true topic now owner newFields kinds accepts closed).2.1 told.owner = false →
        told.Coherent st.imageValue := by
  unfold addFields at hm ⊢
  obtain ⟨grown, hg, isOpen, rfl, hop⟩ := mem_visitConsumers hm
  obtain ⟨consumer, hc, hf⟩ := st.followed_grownBy newFields kinds grown hg
  obtain ⟨ho, hd, ha, hpr⟩ := st.addFieldsTurn_frame
    (st.grownBy newFields kinds).fieldErrors owner newFields (st.growUnion newFields).1
    (st.imageFor true topic now newFields kinds) accepts isOpen grown
  refine ⟨consumer, hc, ho.trans hf.same.owner,
    hd.trans hf.same.imageDelivery, fun h => hf.active (ha h),
    fun h => hpr (hf.same.projects h), ?_⟩
  intro known hi hr he hp hco hde ht hcl
  obtain ⟨rfl, hs⟩ := hop (ho ▸ hcl)
  have hk : KeepsImage st (st.grownBy newFields kinds) := Grown.keepsImage ⟨_, _, _, _, rfl⟩
  exact coherent_addFieldsTurn (hk.indexed known hi) (funext (hk.imageValue known hi))
    (fun hn => imageFor_eq_none hi hn hr he) initialImageUpdate_of_imageFor
    (hf.same.projects hp) (hco.follow hf) (hd.symm.trans hde) ht
    hs

theorem onUpdate_consumers (hl : st.isDead = false)
    (hm : told ∈ (st.onUpdate mktdata accepts update closed).1.consumers) :
    ∃ consumer ∈ st.consumers, consumer.UpdateTurn (st.paint mktdata update).2 told := by
  have hc : (st.paint mktdata update).1.consumers = st.consumers := by
    unfold paint
    dsimp only
    split <;> rfl
  rw [onUpdate_of_live hl] at hm
  obtain ⟨consumer, hco, isOpen, rfl, -⟩ := mem_visitConsumers hm
  exact ⟨consumer, hc ▸ hco, consumer.updateTurn_onUpdate _ _ _⟩

theorem closed_of_onUpdate
    (h : (st.onUpdate mktdata accepts update closed).2.1 owner = false) : closed owner = false := by
  cases hd : st.isDead with
  | true =>
    rw [onUpdate_of_dead hd] at h
    exact h
  | false =>
    rw [onUpdate_of_live hd] at h
    exact closed_of_visitConsumers h

/-- A recovery that holds an update back goes on. -/
theorem isFrozen_of_recovery (h : (st.paint mktdata update).1.recovery = none) :
    (paintEffect st.recovery (isInitpaint update)).isFrozen = false := by
  have hc := (st.paint_course mktdata update).1
  rw [h] at hc
  cases he : paintEffect st.recovery (isInitpaint update) with
  | none | recovered => rfl
  | restart =>
    rw [he, (paintEffect_eq_restart he).2] at hc
    cases hc
  | held =>
    rw [he] at hc
    have hn : none = st.recovery := hc
    rw [← hn] at he
    cases he

theorem consumers_recoveryTurn (st : FeedState) (shutdown : Bool) :
    (st.recoveryTurn shutdown).1.consumers = st.consumers := by
  unfold recoveryTurn
  split
  · rfl
  · split
    · split <;> rfl
    · rfl

end FeedState

namespace System

open FeedState

variable {s t : System} {a : Action} {kinds : List (String × FieldKind)}

/-- The feed is alive and not in a recovery. -/
def Settled (s : System) : Prop :=
  s.state.recovery = none ∧ s.state.isDead = false ∧ s.shutdown = false

/-- The invariant of the consumers of a market data feed. -/
structure Views (s : System) : Prop where
  mktdata : s.mktdata = true
  projects : ∀ consumer ∈ s.state.consumers, consumer.Projects
  coherent : s.Settled → ∀ consumer ∈ s.state.consumers, consumer.active = true →
    s.closed consumer.owner = false → consumer.imageDelivery = false →
    consumer.Coherent s.state.imageValue

theorem Settled.of_step (ht : Settled t) (hta : Tasks s) (h : s.step a = some t)
    (ha : ∀ update accepts, a ≠ .session (.update update accepts)) : Settled s := by
  obtain ⟨hre, hl, hsh⟩ := ht
  have hk := keepsHistory_of_step h ha
  have hsh' : s.shutdown = false := by
    cases hs : s.shutdown with
    | false => rfl
    | true => simp [hk.shutdown hs] at hsh
  cases recoveryStep_of_step h with
  | quiet quiet =>
    refine ⟨quiet.recovery_eq_none_iff.mp hre, ?_, hsh'⟩
    cases hd : s.state.isDead with
    | false => rfl
    | true => simp [quiet.dead hd] at hl
  | restart live paint before after scheduled schedules workers registered
  | recovered live paint before after scheduled schedules workers registered =>
    exact absurd rfl (ha _ _)
  | lost live after scheduled schedules workers registered => cases after.symm.trans hre
  | resume live before queued worker after schedules workers lifecycle =>
    obtain ⟨stage, hst, -⟩ := after
    cases hst.symm.trans hre
  | rest after waiting scheduled worker workers resubscribed lifecycle =>
    exact ⟨after.symm.trans hre, lifecycle.symm.trans hl, hsh'⟩
  | ended after scheduled reason workers lifecycle =>
    rw [lifecycle] at hl
    rcases reason with hr | hr | hr
    · simp [hsh'] at hr
    · simp [hl] at hr
    · simp [hta.failed hr] at hl

/-- The actions that give nothing to a consumer. -/
def GivesNothing : Action → Prop
  | .session (.update _ _) => False
  | .hub (.attach _ _ _ _) | .hub (.addFields _ _ _ _ _) => False
  | _ => True

theorem followed_of_session {a : SessionAction} (h : s.stepSession a = some t)
    (ha : GivesNothing (.session a)) : Followed s.state.consumers t.state.consumers ∧
      ∀ owner, t.closed owner = false → s.closed owner = false := by
  cases a with
  | update update accepts => cases ha
  | dataLoss =>
    simp only [stepSession] at h
    split at h
    · cases h
      exact s.state.followed_onDataLoss s.closed
    · cases h
  | error =>
    cases h
    exact ⟨s.state.followed_onError, fun _ => id⟩
  | fieldError element scalar =>
    cases h
    exact s.state.followed_onFieldError element scalar s.closed
  | streamAvailability active =>
    cases h
    exact ⟨s.state.followed_onStreamAvailability active, fun _ => id⟩
  | status change =>
    cases h
    exact ⟨s.state.followed_collectStatus change s.closed, fun _ => id⟩

theorem followed_of_hub {a : HubAction} (h : s.stepHub a = some t) (ha : GivesNothing (.hub a)) :
    Followed s.state.consumers t.state.consumers ∧
      ∀ owner, t.closed owner = false → s.closed owner = false := by
  cases a with
  | attach | addFields => cases ha
  | detach | cleanup =>
    cases h
    exact ⟨followed_filter _ _, fun _ => id⟩
  | closeStream closing =>
    cases h
    refine ⟨.refl _, fun owner ho => ?_⟩
    by_cases how : owner = closing
    · simp [how] at ho
    · simpa [how] using ho
  | shutdown =>
    cases h
    exact ⟨.refl _, fun _ => id⟩
  | unregister | scheduleOther | closeFeed | schedule =>
    simp only [stepHub] at h
    split at h <;> cases h
    exact ⟨.refl _, fun _ => id⟩

theorem followed_of_worker {a : WorkerAction} {i : ℕ} (h : s.stepWorker a i = some t) :
    Followed s.state.consumers t.state.consumers ∧
      ∀ owner, t.closed owner = false → s.closed owner = false := by
  have ht : Followed s.state.consumers (s.state.recoveryTurn s.shutdown).1.consumers :=
    s.state.consumers_recoveryTurn s.shutdown ▸ .refl _
  unfold stepWorker at h
  split at h
  case h_1 =>
    cases h
    exact ⟨ht, fun _ => id⟩
  case h_5 | h_7 =>
    cases h
    exact ⟨s.state.followed_onError, fun _ => id⟩
  case h_9 => cases h
  all_goals
    cases h
    exact ⟨.refl _, fun _ => id⟩

theorem followed_of_step (h : s.step a = some t) (ha : GivesNothing a) :
    Followed s.state.consumers t.state.consumers ∧
      ∀ owner, t.closed owner = false → s.closed owner = false := by
  cases a with
  | session a => exact followed_of_session (act_of_step h) ha
  | hub a => exact followed_of_hub (act_of_step h) ha
  | worker a i => exact followed_of_worker (act_of_step h)

theorem Imaged.imageValue_eq (hs : Imaged s) (h : KeepsHistory s t) :
    t.state.imageValue = s.state.imageValue := by
  obtain ⟨known, -, hi⟩ := hs.indexed
  exact funext (h.image.imageValue known hi)

theorem Imaged.imageValue_of_applied (hs : Imaged s) (h : s.applied = []) (f : String) :
    s.state.imageValue f = none := by
  rw [hs.value f, h]
  rfl

theorem Views.of_followed (hs : Views s) (hi : Imaged s) (ht : Tasks s)
    (h : s.step a = some t) (ha : GivesNothing a) : Views t := by
  have hu : ∀ update accepts, a ≠ .session (.update update accepts) := by
    rintro update accepts rfl
    exact ha
  have hk := keepsHistory_of_step h hu
  obtain ⟨hfo, hcl⟩ := followed_of_step h ha
  refine ⟨hk.mktdata.trans hs.mktdata, ?_, ?_⟩
  · intro c' hm
    obtain ⟨consumer, hc, hf⟩ := hfo c' hm
    exact hf.same.projects (hs.projects consumer hc)
  · intro hse c' hm hac ho hd
    obtain ⟨consumer, hc, hf⟩ := hfo c' hm
    rw [hi.imageValue_eq hk]
    have hco := hs.coherent (hse.of_step ht h hu) consumer hc
      (hf.active hac) (hcl _ (hf.same.owner ▸ ho))
      (hf.same.imageDelivery ▸ hd)
    exact hco.follow hf

theorem Views.attach {subscriber : FeedState.Subscriber} {now : ℤ} {accepts : Bool} (hs : Views s)
    (hi : Imaged s) (hta : Tasks s)
    (h : s.step (.hub (.attach subscriber kinds now accepts)) = some t) : Views t := by
  have hk := keepsHistory_of_step h (by simp)
  have him := hi.imageValue_eq hk
  have hse := fun ht => Settled.of_step ht hta h (by simp)
  obtain ⟨known, -, hin⟩ := (hi.of_keepsHistory hk).indexed
  replace h := act_of_step h
  simp only [act, stepHub] at h
  split at h
  · cases h
  · obtain ⟨⟨st, closed, growth⟩, hatt, rfl⟩ := Option.map_eq_some_iff.mp h
    rw [hs.mktdata] at hatt
    obtain ⟨hcl, served, hco, hp, hch⟩ := attach_consumers hatt
    have hfo := s.state.followed_growUnion (s.consumerFields subscriber.owner)
    refine ⟨hs.mktdata, fun c' hm => ?_, fun ht c' hm hac hop hd => ?_⟩
    · rw [hco] at hm
      rcases mem_snoc.mp hm with ho | rfl
      · obtain ⟨consumer, hc, hf⟩ := hfo c' ho
        exact hf.same.projects (hs.projects consumer hc)
      · exact hp
    · rw [hco] at hm
      rcases mem_snoc.mp hm with ho | rfl
      · obtain ⟨consumer, hc, hf⟩ := hfo c' ho
        rw [him]
        have hb := hs.coherent (hse ht) consumer hc (hf.active hac)
          (hcl _ (hf.same.owner ▸ hop)) (hf.same.imageDelivery ▸ hd)
        exact hb.follow hf
      · refine hch known hin ht.1 ?_ hac hop hd
        rintro (hcr | hl)
        · have ha := hi.created (by simpa using hcr)
          exact fun f => (congrFun him f).trans (hi.imageValue_of_applied ha f)
        · have ha := hi.updated (hk.image.lastUpdate.symm.trans hl)
          exact fun f => (congrFun him f).trans (hi.imageValue_of_applied ha f)

variable {accepts : ℕ → ℕ → Bool}

theorem Views.addFields {now : ℤ} (hs : Views s) (hi : Imaged s) (hta : Tasks s)
    (h : s.step (.hub (.addFields owner fs kinds now accepts)) = some t) : Views t := by
  have hk := keepsHistory_of_step h (by simp)
  have him := hi.imageValue_eq hk
  have hse := fun ht => Settled.of_step ht hta h (by simp)
  obtain ⟨known, -, hin⟩ := hi.indexed
  replace h := act_of_step h
  simp only [act, stepHub, hs.mktdata] at h
  split at h
  · cases h
  · cases h
    refine ⟨rfl, fun told hm => ?_, fun ht told hm ha ho hd => ?_⟩
    · obtain ⟨consumer, hc, -, -, -, hp, -⟩ := addFields_consumers hm
      exact hp (hs.projects consumer hc)
    · obtain ⟨consumer, hc, how, hsa, ha', -, hco⟩ :=
        addFields_consumers hm
      have hb := hs.coherent (hse ht) consumer hc (ha' ha)
        (how ▸ closed_of_visitConsumers ho) (hsa ▸ hd)
      rw [him]
      exact hco known hin (hse ht).1 (fun hl => hi.imageValue_of_applied
        (hi.updated hl)) (hs.projects consumer hc) hb hd ha ho

/-- An ordinary update that ends the wait for an image carries what a consumer still misses. -/
def PaintsFirst (s : System) : Action → Prop
  | .session (.update update _) => (s.state.paint s.mktdata update).2.finishPaint = true →
      ∀ consumer ∈ s.state.consumers, consumer.active = true → consumer.imageDelivery = false →
        ∀ field ∈ consumer.missing, field ∈ update.carried
  | _ => True

theorem Views.update {update : SubscriptionUpdate} (hs : Views s)
    (him : Imaged s) (hok : PaintsFirst s (.session (.update update accepts)))
    (h : s.step (.session (.update update accepts)) = some t) : Views t := by
  obtain ⟨known, hk, hi⟩ := him.indexed
  replace h := act_of_step h
  simp only [act, stepSession] at h
  split at h
  case isFalse => cases h
  case isTrue hdc =>
    cases h
    cases hd : s.state.isDead with
    | true =>
      rw [onUpdate_of_dead hd]
      exact ⟨hs.mktdata, hs.projects, hs.coherent⟩
    | false =>
      have hp := paints_paint hi hk hdc.2 s.mktdata
      refine ⟨hs.mktdata, fun told hm => ?_, fun ht told hm ha ho hdl => ?_⟩
      · obtain ⟨consumer, hc, htu⟩ := onUpdate_consumers hd hm
        exact htu.sameConsumer.projects (hs.projects consumer hc)
      · obtain ⟨consumer, hc, htu⟩ := onUpdate_consumers hd hm
        have hpr := hs.projects consumer hc
        have hsa := htu.sameConsumer
        have hde : consumer.imageDelivery = false := hsa.imageDelivery.symm.trans hdl
        have hcl : s.closed consumer.owner = false :=
          hsa.owner ▸ closed_of_onUpdate ho
        have hf : (paintEffect s.state.recovery (isInitpaint update)).isFrozen = false := by
          have hre := ht.1
          rw [onUpdate_of_live hd] at hre
          exact isFrozen_of_recovery hre
        have hb := (htu.received hp hpr hf hde ha).1
        have hv := sameImage_onUpdate hd s.mktdata accepts update s.closed
        have hia := fun f => (hv.imageValue f).trans ((hi.paint hk hdc.2 s.mktdata hf).2 f)
        rw [funext hia]
        refine Coherent.serve htu hp hpr hf hde ha ?_ ?_
          fun hfi => hok hfi consumer hc hb hde
        · intro hr f
          exact if_pos (beq_iff_eq.mp hr)
        · intro hr
          have he : paintEffect s.state.recovery (isInitpaint update) = .none := by
            cases he : paintEffect s.state.recovery (isInitpaint update) with
            | none => rfl
            | recovered => exact absurd he (beq_eq_false_iff_ne.mp hr)
            | restart | held => simp [he, PaintEffect.isFrozen] at hf
          simp only [he, reduceCtorEq, if_false]
          exact hs.coherent ⟨paintEffect_eq_none he, hd, ht.2.2⟩ consumer hc hb hcl hde

theorem Views.step (hs : Views s) (hi : Imaged s) (ht : Tasks s) (hok : PaintsFirst s a)
    (h : s.step a = some t) : Views t := by
  by_cases hg : GivesNothing a
  · exact hs.of_followed hi ht h hg
  · cases a with
    | session a =>
      cases a with
      | update update accepts => exact hs.update hi hok h
      | _ => exact absurd trivial hg
    | hub a =>
      cases a with
      | attach => exact hs.attach hi ht h
      | addFields => exact hs.addFields hi ht h
      | _ => exact absurd trivial hg
    | worker => exact absurd trivial hg

theorem views_new (topic : String) (fs : List String) (kinds : List (String × FieldKind))
    (consumerFields : ℕ → List String) : Views (new true topic fs kinds consumerFields) := by
  have hc : (FeedState.new fs kinds).consumers = [] :=
    consumers_seedImageKinds _ kinds
  refine ⟨rfl, fun consumer hm => ?_, fun _ consumer hm => ?_⟩
  · cases hc ▸ hm
  · cases hc ▸ hm

theorem views_of_run {topic : String} {consumerFields : ℕ → List String} {acts : List Action}
    (h : Run step PaintsFirst (new true topic fs kinds consumerFields) acts s) :
    Views s := by
  have hs : ∀ s a t, Views s ∧ Imaged s ∧ Tasks s → PaintsFirst s a → s.step a = some t →
      Views t ∧ Imaged t ∧ Tasks t := by
    rintro s a t ⟨hv, hi, ht⟩ hok h
    exact ⟨hv.step hi ht hok h, hi.step h, ht.step (recoveryStep_of_step h)⟩
  exact (h.invariant hs ⟨views_new topic fs kinds consumerFields,
    imaged_new true topic fs kinds consumerFields,
    tasks_new true topic fs kinds consumerFields⟩).1

/-- In a run that meets `PaintsFirst`, an active consumer of deltas that waits for no image has
got the current value of every field that it has asked for. -/
theorem coherent_of_run {topic : String} {fields : List String} {kinds : List (String × FieldKind)}
    {consumerFields : ℕ → List String} {actions : List Action} {s : System}
    (h : Run step PaintsFirst (new true topic fields kinds consumerFields) actions s)
    (hrecovery : s.state.recovery = none) (hlive : s.state.isDead = false)
    (hshutdown : s.shutdown = false) {consumer : ConsumerTopic}
    (hmem : consumer ∈ s.state.consumers) (hactive : consumer.active = true)
    (hopen : s.closed consumer.owner = false)
    (hdeltas : consumer.imageDelivery = false) (hawaiting : consumer.awaitingImage = false)
    {field : String} (hfield : field ∈ consumer.explicitFields) (hdata : isMetadata field = false)
    {value : UpdateValue} (hvalue : s.state.imageValue field = some value) :
    ∃ last, lastWrite (consumer.delivered.flatMap Delta.named) field = some last ∧
      last.same value = true := by
  have hcoherent := (views_of_run h).coherent ⟨hrecovery, hlive, hshutdown⟩ consumer hmem hactive
    hopen hdeltas
  rcases hcoherent.known field hfield hdata with hmissing | hagrees
  · simp [(hcoherent.waiting (ne_nil_of_mem hmissing)).1] at hawaiting
  · exact hagrees value hvalue

private def reader (owner : ℕ) : FeedState.Subscriber where
  owner := owner
  key := owner
  imageDelivery := false
  allFields := false
  delayedPolicy := .ignore
  fieldErrorPolicy := .ignore

private def readFeed : System :=
  new true "IBM" ["LAST_PRICE", "BID"] [] fun owner =>
    if owner = 0 then ["LAST_PRICE"] else ["LAST_PRICE", "BID"]

private def quote (values : List UpdateField) : SubscriptionUpdate where
  timestampUs := 0
  topicId := 0
  topic := "IBM"
  layout := ⟨1, [⟨eventSubtype, 0, .str, false⟩, ⟨"LAST_PRICE", 1, .i64, false⟩,
    ⟨"BID", 2, .i64, false⟩]⟩
  values := values

private def tick (values : List UpdateField) : Action :=
  .session (.update (quote values) fun _ _ => true)

private def repaint : Action :=
  tick [⟨0, .str "INITPAINT"⟩, ⟨1, .i64 7⟩, ⟨2, .i64 6⟩]

private def addsField : List Action :=
  [.hub (.attach (reader 1) [] 0 true), repaint, .hub (.attach (reader 0) [] 0 true),
    .hub (.addFields 0 ["BID", "ASK"] [] 0 fun _ _ => true)]

/-- The repaint brings the added field to the reader, and the next tick ends its wait. -/
theorem coherent_of_run_repainted :
    ∃ actions s consumer last, Run step PaintsFirst readFeed actions s ∧
      consumer ∈ s.state.consumers ∧ consumer.awaitingImage = false ∧
      "BID" ∈ consumer.explicitFields ∧ s.state.imageValue "BID" = some (.i64 6) ∧
      lastWrite (consumer.delivered.flatMap Delta.named) "BID" = some last ∧
      last.same (.i64 6) = true := by
  have hrun : Run step PaintsFirst readFeed (addsField ++
        [.worker .prepare 0, .worker (.send true) 0, repaint, tick [⟨1, .i64 8⟩]]) _ :=
    .cons trivial rfl (.cons (by rintro ⟨⟩) rfl (.cons trivial rfl (.cons trivial rfl
      (.cons trivial rfl (.cons trivial rfl (.cons (by rintro ⟨⟩) rfl
        (.cons (by rintro - _ (_ | ⟨_, _ | ⟨_, ⟨⟩⟩⟩) - - _ ⟨⟩) rfl (.nil _))))))))
  obtain ⟨last, hlast, hsame⟩ := coherent_of_run hrun rfl rfl rfl
    (mem_cons_of_mem _ mem_cons_self) rfl rfl rfl rfl (show "BID" ∈ _ by decide) rfl rfl
  exact ⟨_, _, _, last, hrun, mem_cons_of_mem _ mem_cons_self, rfl, by decide, rfl, hlast, hsame⟩

/-- The reader adds a field that the image knows together with one that is new. An ordinary tick
before the resubscribe ends its wait, and the value in the image never reaches it. -/
theorem exists_run_value_not_sent :
    ∃ actions s consumer, FreeRun step readFeed actions s ∧ s.state.recovery = none ∧
      s.state.isDead = false ∧ s.shutdown = false ∧ consumer ∈ s.state.consumers ∧
      consumer.active = true ∧ s.closed consumer.owner = false ∧ consumer.imageDelivery = false ∧
      consumer.awaitingImage = false ∧ "BID" ∈ consumer.explicitFields ∧
      s.state.imageValue "BID" = some (.i64 6) ∧
      lastWrite (consumer.delivered.flatMap Delta.named) "BID" = none := by
  have hrun : FreeRun step readFeed (addsField ++ [tick [⟨1, .i64 8⟩]]) _ := .of_runActions rfl
  exact ⟨_, _, _, hrun, rfl, rfl, rfl, mem_cons_of_mem _ mem_cons_self, rfl, rfl, rfl, rfl,
    by decide, rfl, rfl⟩

end System

end Xbbg.Feed
