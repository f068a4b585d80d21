import Xbbg.Verification.Sharding.Decoding
import Xbbg.Verification.Sharding.Planning

/-! A sharded request shows the rows of every security that succeeded and the error of every one
that failed, as long as no shard is left without a row by its failed securities and the columns of
the shards can be joined. -/

namespace Xbbg.Sharding

open List Library Diagnostics Columns Responses RefDataState

variable {c : Conversions} {entries : List SecurityElements}

/-! ### Decoding the messages of a shard -/

/-- What the reply to a request shows of each entry of its response. -/
structure View where
  Row : Type
  readers : List (Reader Row)
  rows : SecurityElements → List Row
  fields : List Row → List Field

def viewOf (c : Conversions) (r : PreparedRequest) : View :=
  match r.shape with
  | .refData output =>
    let format := formatOf c false (r.fields.getD []) output.format output.longMode r.fieldTypes
    ⟨format.Row, format.readers, format.refRows r.includeSecurityErrors, format.fields⟩
  | .histData output =>
    let format := formatOf c true (r.fields.getD []) output.format output.longMode r.fieldTypes
    ⟨format.Row, format.readers, format.histRows, format.fields⟩
  | .other => ⟨Empty, [], fun _ => [], fun _ => []⟩

/-- The messages of a response carry the entries in order; a historical message has at most
one. -/
structure Carries (r : PreparedRequest) (messages : List Message)
    (entries : List SecurityElements) : Prop where
  entries_eq : messages.flatMap Message.securityData = entries
  single : ∀ output, r.shape = .histData output →
    ∀ message ∈ messages, message.securityData.length ≤ 1

theorem foldl_refMessages (c : Conversions) (s : RefDataState) (msgs : List Message) :
    msgs.foldl (processMessage c) s =
      (msgs.flatMap Message.securityData).foldl (processSecurity c) s := by
  rw [foldl_flatMap]
  rfl

theorem foldl_histMessages (c : Conversions) (s : HistDataState) {msgs : List Message}
    (h : ∀ msg ∈ msgs, msg.securityData.length ≤ 1) :
    msgs.foldl (HistDataState.processMessage c) s =
      (msgs.flatMap Message.securityData).foldl (HistDataState.processSecurity c) s := by
  induction msgs generalizing s with
  | nil => rfl
  | cons msg rest ih =>
    rw [foldl_cons, ih _ fun m hm => h m (mem_cons_of_mem _ hm), flatMap_cons, foldl_append]
    have hs := h msg (by simp)
    match hdata : msg.securityData with
    | [] | [security] => simp [HistDataState.processMessage, hdata]
    | _ :: _ :: _ => simp [hdata] at hs

variable {f : Format} {Holds : List f.Row → OutputColumns → Prop} {partials : List Message}
  {final : Message}

theorem decoded_refMessages {s : RefDataState} (hf : f.Follows c s.output Holds)
    (hfa : s.failedSecurities = []) (he : s.responseMeta.securityErrors = ∅) (msgs : List Message) :
    Decoded Holds (f.refRows s.includeSecurityErrors) (msgs.flatMap Message.securityData)
      (msgs.foldl (processMessage c) s).failedSecurities (msgs.foldl (processMessage c) s).output
      (msgs.foldl (processMessage c) s).responseMeta := by
  have hs : Decoded Holds (f.refRows s.includeSecurityErrors) [] s.failedSecurities s.output
      s.responseMeta :=
    ⟨hfa, hf.start, fun ticker => by rw [he]; rfl⟩
  rw [foldl_refMessages]
  exact (foldl_holds
    (fun entries (t : RefDataState) => t.includeSecurityErrors = s.includeSecurityErrors ∧
      Decoded Holds (f.refRows s.includeSecurityErrors) entries t.failedSecurities t.output
        t.responseMeta)
    (fun _ _ sec h => Decoded.refData hf h.1 h.2 sec) _ ⟨rfl, hs⟩).2

theorem finish_refMessages (c : Conversions) (s : RefDataState)
    (hf : final.responseError = none) :
    (partials.foldl (processMessage c) s).finish c final = reply "ReferenceDataRequest"
        ((partials ++ [final]).foldl (processMessage c) s).failedSecurities
        ((partials ++ [final]).foldl (processMessage c) s).output
        ((partials ++ [final]).foldl (processMessage c) s).responseMeta := by
  rw [finish, hf, foldl_append]
  rfl

theorem refData_of_entries {s : RefDataState} (hf : f.Follows c s.output Holds)
    (hfa : s.failedSecurities = []) (he : s.responseMeta.securityErrors = ∅)
    (hfi : final.responseError = none)
    (hen : (partials ++ [final]).flatMap Message.securityData = entries) :
    Replies f.readers (f.refRows s.includeSecurityErrors) f.fields entries
      ((partials.foldl (processMessage c) s).finish c final) := by
  subst hen
  rw [finish_refMessages c s hfi]
  exact (decoded_refMessages hf hfa he (partials ++ [final])).reply hf "ReferenceDataRequest"

theorem histData_of_entries {s : HistDataState} (hf : f.Follows c s.output Holds)
    (hfa : s.failedSecurities = []) (he : s.responseMeta.securityErrors = ∅)
    (hfi : final.responseError = none)
    (hen : (partials ++ [final]).flatMap Message.securityData = entries)
    (hs : ∀ message ∈ partials ++ [final], message.securityData.length ≤ 1) :
    Replies f.readers f.histRows f.fields entries
      ((partials.foldl (HistDataState.processMessage c) s).finish c final) := by
  have hst : Decoded Holds f.histRows [] s.failedSecurities s.output s.responseMeta :=
    ⟨hfa, hf.start, fun ticker => by rw [he]; rfl⟩
  have hd := foldl_holds
    (fun entries (t : HistDataState) => Decoded Holds f.histRows entries t.failedSecurities
      t.output t.responseMeta)
    (fun _ _ security h => Decoded.histData hf h security) entries hst
  have hr := hd.reply hf "HistoricalDataRequest"
  rw [← hen, ← foldl_histMessages c s hs, foldl_append, hen] at hr
  rw [HistDataState.finish, hfi]
  exact hr

variable {r : PreparedRequest}

theorem replies_decode (c : Conversions) (hs : r.shape ≠ .other) (hfi : final.responseError = none)
    (hc : Carries r (partials ++ [final]) entries) :
    Replies (viewOf c r).readers (viewOf c r).rows (viewOf c r).fields entries
      (decode c r partials final) := by
  generalize hv : viewOf c r = view
  unfold viewOf at hv
  unfold decode
  cases ho : r.shape with
  | refData output =>
    obtain ⟨Holds, hf⟩ := exists_follows c false (r.fields.getD []) output.format
      output.longMode r.fieldTypes
    simp only [ho] at hv ⊢
    subst hv
    let start := RefDataState.withFormat (r.fields.getD []) output.format output.longMode
      r.fieldTypes r.includeSecurityErrors
    cases r.captureDelayed with
    | none => exact refData_of_entries (s := start) hf rfl rfl hfi hc.entries_eq
    | some hiddenFields =>
      exact refData_of_entries (s := start.captureDelayed hiddenFields) hf rfl rfl hfi
        hc.entries_eq
  | histData output =>
    obtain ⟨Holds, hf⟩ := exists_follows c true (r.fields.getD []) output.format
      output.longMode r.fieldTypes
    simp only [ho] at hv ⊢
    subst hv
    exact histData_of_entries hf rfl rfl hfi hc.entries_eq (hc.single output ho)
  | other => exact absurd ho hs

/-! ### Outcomes of the securities -/

/-- The outcome of each security under the overrides it is requested with: the entries of the
response for it. -/
abbrev Outcomes := String → OverridePairs → List SecurityElements

def entriesOf (outcomes : Outcomes) (r : PreparedRequest) : List SecurityElements :=
  (requested r).flatMap fun item => outcomes item.1 item.2

/-- The reply to a request whose response carries the outcomes of its securities, in any
messages and under any identifiers. -/
def Answers (c : Conversions) (outcomes : Outcomes) (r : PreparedRequest)
    (reply : Except BlpAsyncError RecordBatch) : Prop :=
  ∃ (partials : List Message) (final : Message) (ids : List String),
    final.responseError = none ∧ Carries r (partials ++ [final]) (entriesOf outcomes r) ∧
      reply = poolReply ids (decode c r partials final)

/-- The rows that a shard of a request has, as the request shows them. -/
def rowsFor (c : Conversions) (outcomes : Outcomes) (prepared shard : PreparedRequest) :
    List (viewOf c prepared).Row :=
  (entriesOf outcomes shard).flatMap (viewOf c prepared).rows

theorem Replies.of_ok {ρ ε : Type} {readers : List (Reader ρ)} {rows : SecurityElements → List ρ}
    {fields : List ρ → List Field} {batch : RecordBatch}
    (h : Replies readers rows fields entries (.ok batch : Except ε RecordBatch)) :
    (errorsOf entries ≠ [] → entries.flatMap rows ≠ []) ∧
      Answered readers rows fields entries batch := by
  cases h with
  | answered hrows hbatch => exact ⟨hrows, hbatch⟩

theorem Replies.poolReply {ρ : Type} {readers : List (Reader ρ)} {rows : SecurityElements → List ρ}
    {fields : List ρ → List Field} {result : Except BlpError RecordBatch}
    (h : Replies readers rows fields entries result) (ids : List String) :
    Replies readers rows fields entries (poolReply ids result) := by
  cases h with
  | allFailed herrors hrows error => exact .allFailed herrors hrows _
  | @answered batch hrows h =>
    match ids with
    | [] => exact .answered hrows h
    | [id] =>
      exact .answered hrows
        ⟨⟨h.renders.columns, h.renders.numRows⟩, h.errors, h.readable, h.fields⟩
    | first :: second :: rest =>
      refine .answered hrows ⟨⟨h.renders.columns, h.renders.numRows⟩, fun ticker => ?_,
        readable_attach _ h.readable, h.fields⟩
      obtain ⟨-, he, -⟩ := ResponseMetadata.attach_parts
        { bloombergRequestIds := (first :: second :: rest).foldl BloombergRequestIds.insert [] }
        batch.metadata
      rw [← h.errors]
      exact congrArg (fun errors => (errors.getD ∅).lookup ticker) he

theorem Answers.replies {outcomes : Outcomes}
    {reply : Except BlpAsyncError RecordBatch} (h : Answers c outcomes r reply)
    (hs : r.shape ≠ .other) :
    Replies (viewOf c r).readers (viewOf c r).rows (viewOf c r).fields (entriesOf outcomes r)
      reply := by
  obtain ⟨partials, final, ids, hf, hc, rfl⟩ := h
  exact Replies.poolReply (replies_decode c hs hf hc) ids

/-! ### Joining the shards -/

variable {shards : List PreparedRequest}

theorem collectResults_of_forall₂ {req : PreparedRequest → Except BlpAsyncError RecordBatch}
    {batches : List RecordBatch} (h : Forall₂ (fun sh b => req sh = .ok b) shards batches) :
    collectResults (shards.map req) = .ok batches := by
  induction h with
  | nil => rfl
  | cons hb _ ih =>
    rw [map_cons, hb, collectResults, ih]

/-- The columns of the rows have the types of the first rows or hold no value. -/
def Joins {ρ : Type} (readers : List (Reader ρ)) (fields : List ρ → List Field)
    (first rows : List ρ) : Prop :=
  List.Forall₂ (fun reader (types : Field × Field) => types.2.dataType = types.1.dataType ∨
    ∀ row ∈ rows, reader.read types.2.dataType row = none) readers
    ((fields first).zip (fields rows))

theorem allNull_iff_of_fills {ρ : Type} {reader : Reader ρ} {rs : List ρ} {col : Column}
    (h : reader.Fills rs col) :
    col.array.allNull = true ↔ ∀ row ∈ rs, reader.read col.array.dataType row = none := by
  have hv : col.array.values = rs.map (reader.read col.array.dataType) := h.2
  simp [ArrowArray.allNull, hv]

theorem fits_iff_of_fills {ρ : Type} {readers : List (Reader ρ)} {rs rs' : List ρ}
    {cols cols' : List Column} (h : Forall₂ (Reader.Fills rs) readers cols)
    (h' : Forall₂ (Reader.Fills rs') readers cols') :
    Forall₂ Fits (cols.map Column.field) cols' ↔
      Forall₂ (fun reader (types : Field × Field) => types.2.dataType = types.1.dataType ∨
        ∀ row ∈ rs', reader.read types.2.dataType row = none) readers
        ((cols.map Column.field).zip (cols'.map Column.field)) := by
  induction h generalizing cols' with
  | nil =>
    cases h'
    simp
  | @cons reader col _ _ hcol _ ih =>
    cases h' with
    | @cons _ col' _ _ hcol' hrest =>
      have hfits : Fits col.field col' ↔ col'.array.dataType = col.array.dataType ∨
          ∀ row ∈ rs', reader.read col'.array.dataType row = none := by
        rw [Fits, allNull_iff_of_fills hcol']
        exact and_iff_right (hcol'.1.trans hcol.1.symm)
      rw [map_cons, map_cons, zip_cons_cons, forall₂_cons, forall₂_cons, ih hrest, hfits]
      rfl

theorem Answered.fits_iff {ρ : Type} {readers : List (Reader ρ)} {rows : SecurityElements → List ρ}
    {fields : List ρ → List Field} {es es' : List SecurityElements} {b b' : RecordBatch}
    (h : Answered readers rows fields es b) (h' : Answered readers rows fields es' b') :
    Forall₂ Fits b.fields b'.columns ↔
      Joins readers fields (es.flatMap rows) (es'.flatMap rows) := by
  rw [Joins, ← h.fields, ← h'.fields]
  exact fits_iff_of_fills h.renders.columns h'.renders.columns

theorem overlay_map_lastWrite (l : List (List (String × SecurityErrorMeta))) (ticker : String) :
    overlay (l.map fun errs => lastWrite errs ticker) = lastWrite l.flatten ticker := by
  induction l using reverseRecOn with
  | nil => rfl
  | append_singleton l errs ih =>
    rw [map_append, map_singleton, overlay_append_singleton, ih, flatten_append,
      lastWrite_append, flatten_singleton]

theorem errorsOf_flatMap {α : Type*} (l : List α) (f : α → List SecurityElements) :
    errorsOf (l.flatMap f) = (l.map fun a => errorsOf (f a)).flatten := by
  induction l with
  | nil => rfl
  | cons a l ih =>
    rw [flatMap_cons, map_cons, flatten_cons, ← ih, errorsOf, filterMap_append]
    rfl

theorem entriesOf_flatMap {prepared : PreparedRequest}
    (h : IsPlan prepared shards) (outcomes : Outcomes) :
    shards.flatMap (entriesOf outcomes) = entriesOf outcomes prepared := by
  rw [entriesOf, ← h.requested_eq, flatMap_assoc]
  rfl

/-- The columns of every shard can stand under those of the first. -/
def SameTypes (c : Conversions) (outcomes : Outcomes) (prepared : PreparedRequest)
    (shards : List PreparedRequest) : Prop :=
  ∀ first ∈ shards.head?, ∀ shard ∈ shards,
    Joins (viewOf c prepared).readers (viewOf c prepared).fields
      (rowsFor c outcomes prepared first) (rowsFor c outcomes prepared shard)

/-- A result holds the rows of the shards, which are those of the request in its order, and the
error of every failed security. -/
structure Isolates (c : Conversions) (outcomes : Outcomes) (prepared : PreparedRequest)
    (request : PreparedRequest → Except BlpAsyncError RecordBatch)
    (shards : List PreparedRequest) (result : RecordBatch) : Prop where
  rows : ∃ batches, List.Forall₂ (fun shard batch => request shard = .ok batch ∧
      Renders (viewOf c prepared).readers (rowsFor c outcomes prepared shard) batch)
      shards batches ∧ batchRows result = batches.flatMap batchRows
  order : shards.flatMap (rowsFor c outcomes prepared) = rowsFor c outcomes prepared prepared
  errors : ∀ ticker, result.metadata.securityErrorOf ticker =
    lastWrite (errorsOf (entriesOf outcomes prepared)) ticker

/-- A plan succeeds, with the rows of the shards in request order and the error of every failed
security, exactly if every shard with a failed security also has a row and the columns of the
shards have the same types. -/
theorem requestShards_isolate_errors_iff (c : Conversions) (config : EngineConfig)
    (prepared : PreparedRequest) (shards : List PreparedRequest) (outcomes : Outcomes)
    (request : PreparedRequest → Except BlpAsyncError RecordBatch)
    (hplan : shardedRequests config prepared = some shards)
    (hanswers : ∀ shard ∈ shards, Answers c outcomes shard (request shard)) :
    (∃ result, requestShardsOrdered request shards = .ok result ∧
      Isolates c outcomes prepared request shards result) ↔
      (∀ shard ∈ shards, errorsOf (entriesOf outcomes shard) ≠ [] →
        rowsFor c outcomes prepared shard ≠ []) ∧ SameTypes c outcomes prepared shards := by
  obtain ⟨hcovers, hshape⟩ := isPlan_of_shardedRequests hplan
  have hentries := entriesOf_flatMap hcovers outcomes
  have hreplies : ∀ shard ∈ shards, Replies (viewOf c prepared).readers (viewOf c prepared).rows
      (viewOf c prepared).fields (entriesOf outcomes shard) (request shard) := by
    intro shard hshard
    obtain ⟨securities, overrides, rfl⟩ := hcovers.shard shard hshard
    exact (hanswers _ hshard).replies hshape
  obtain ⟨first, rest, rfl⟩ := exists_cons_of_ne_nil hcovers.ne_nil
  constructor
  · rintro ⟨result, hresult, ⟨batches, hbatches, -⟩, -, -⟩
    obtain ⟨b, bs, ⟨hfirst, -⟩, -, rfl⟩ := forall₂_cons_left_iff.mp hbatches
    have hanswered : ∀ shard ∈ first :: rest, ∃ b' ∈ b :: bs, request shard = .ok b' ∧
        (errorsOf (entriesOf outcomes shard) ≠ [] → rowsFor c outcomes prepared shard ≠ []) ∧
        Answered (viewOf c prepared).readers (viewOf c prepared).rows (viewOf c prepared).fields
          (entriesOf outcomes shard) b' := by
      intro shard hshard
      obtain ⟨b', hb', hok, -⟩ := exists_left_of_forall₂ hbatches.flip hshard
      exact ⟨b', hb', hok, Replies.of_ok (hok ▸ hreplies shard hshard)⟩
    rw [requestShardsOrdered, collectResults_of_forall₂ (hbatches.imp fun _ _ h => h.1)] at hresult
    refine ⟨fun shard hshard => ?_, fun same hsame shard hshard => ?_⟩
    · obtain ⟨-, -, -, hrows, -⟩ := hanswered shard hshard
      exact hrows
    · obtain rfl : first = same := Option.some.inj hsame
      obtain ⟨b', hb', -, -, hshown⟩ := hanswered shard hshard
      have hfirst' := (Replies.of_ok (hfirst ▸ hreplies first mem_cons_self)).2
      refine (Answered.fits_iff hfirst' hshown).mp ?_
      rcases mem_cons.mp hb' with rfl | hb'
      · exact fits_of_fields rfl
      · exact fits_of_concat hresult b' hb'
  · rintro ⟨hrows, htypes⟩
    have hbatch : ∀ shard ∈ first :: rest, ∃ batch, request shard = .ok batch ∧
        Answered (viewOf c prepared).readers (viewOf c prepared).rows
          (viewOf c prepared).fields (entriesOf outcomes shard) batch := by
      intro shard hshard
      have hreply := hreplies shard hshard
      generalize request shard = reply at hreply ⊢
      cases hreply with
      | answered _ hbatch => exact ⟨_, rfl, hbatch⟩
      | allFailed herrors hnone _ => exact absurd hnone (hrows shard hshard herrors)
    obtain ⟨batches, hbatches⟩ := exists_forall₂ hbatch
    obtain ⟨b, bs, hfirst, hrest, rfl⟩ := forall₂_cons_left_iff.mp hbatches
    have hfits : ∀ b' ∈ bs, Forall₂ Fits b.fields b'.columns := by
      intro b' hb'
      obtain ⟨shard, hshard, -, hanswered⟩ := exists_left_of_forall₂ hrest hb'
      exact (Answered.fits_iff hfirst.2 hanswered).mpr
        (htypes first rfl shard (mem_cons_of_mem _ hshard))
    have hreadable : ∀ b' ∈ b :: bs, b'.metadata.Readable := by
      intro b' hb'
      obtain ⟨shard, -, -, hanswered⟩ := exists_left_of_forall₂ hbatches hb'
      exact hanswered.readable
    obtain ⟨result, hresult, hconcat⟩ := concatBatches_of_fits hfits hreadable
    refine ⟨result, ?_, ⟨b :: bs, ?_, hconcat.rows⟩, ?_, ?_⟩
    · rw [requestShardsOrdered, collectResults_of_forall₂ (hbatches.imp fun _ _ h => h.1)]
      exact hresult
    · exact hbatches.imp fun _ _ h => ⟨h.1, h.2.renders⟩
    · rw [rowsFor, ← hentries, flatMap_assoc]
      rfl
    · intro ticker
      have herrors : (first :: rest).map (fun shard =>
          lastWrite (errorsOf (entriesOf outcomes shard)) ticker) =
            (b :: bs).map fun b' => b'.metadata.securityErrorOf ticker :=
        map_eq_of_forall₂ (hbatches.imp fun _ _ h => (h.2.errors ticker).symm)
      rw [hconcat.diagnostics.securityErrors, map_map, ← hentries, errorsOf_flatMap,
        ← overlay_map_lastWrite, map_map]
      exact congrArg overlay herrors.symm

/-! ### A shard without a row -/

def sampleRequest (securities : List String) : PreparedRequest where
  raw := false
  operation := .referenceData
  shape := .refData ⟨.long, .string⟩
  securities := some securities
  fields := some ["PX_LAST"]
  overrides := none
  securityOverrides := none
  fieldTypes := ∅
  includeSecurityErrors := false
  captureDelayed := none

/-- Security `A` is unknown, every other one has a price. -/
def sampleOutcomes : Outcomes := fun security _ =>
  if security = "A" then
    [⟨some security, none, none, some (some ⟨"BAD_SEC", 15, "INVALID_SECURITY", "Unknown"⟩), []⟩]
  else
    [⟨some security, some ⟨fun _ => some (.string "100"), [], none, none⟩, none, none, []⟩]

def sampleReply (shard : PreparedRequest) : Except BlpAsyncError RecordBatch :=
  poolReply [] (decode sampleConversions shard [] ⟨none, entriesOf sampleOutcomes shard⟩)

theorem answers_sampleReply {sh : PreparedRequest} {output : PlannedOutput}
    (hs : sh.shape = .refData output) :
    Answers sampleConversions sampleOutcomes sh (sampleReply sh) := by
  refine ⟨[], _, [], rfl, ⟨by simp, ?_⟩, rfl⟩
  intro output' hh
  rw [hs] at hh
  cases hh

/-- A shard whose only security fails discards the row of the other shard. -/
theorem requestShards_fail_with_failed_shard :
    ∃ shards, shardedRequests ⟨true, 2, 1⟩ (sampleRequest ["A", "B"]) = some shards ∧
      (∀ shard ∈ shards, Answers sampleConversions sampleOutcomes shard (sampleReply shard)) ∧
      (rowsFor sampleConversions sampleOutcomes (sampleRequest ["A", "B"])
        (sampleRequest ["A", "B"])).length = 1 ∧
      requestShardsOrdered sampleReply shards = .error (.blp (.requestFailure "//blp/refdata"
        (some "ReferenceDataRequest") (some "All securities failed: A"))) := by
  refine ⟨_, rfl, ?_, rfl, rfl⟩
  intro shard hshard
  obtain ⟨chunk, -, rfl⟩ := mem_map.mp hshard
  exact answers_sampleReply rfl

def sampleShards : List PreparedRequest :=
  [(sampleRequest []).forSecurityShard ["A", "B"] none,
    (sampleRequest []).forSecurityShard ["C", "D"] none]

/-- With two securities in each shard the failed one shares its shard with another. -/
theorem requestShards_isolate_errors_mixed :
    ∃ result, requestShardsOrdered sampleReply sampleShards = .ok result ∧
      Isolates sampleConversions sampleOutcomes (sampleRequest ["A", "B", "C", "D"]) sampleReply
        sampleShards result := by
  have hshards : ∀ shard ∈ sampleShards,
      shard = (sampleRequest []).forSecurityShard ["A", "B"] none ∨
        shard = (sampleRequest []).forSecurityShard ["C", "D"] none := by
    simp [sampleShards]
  refine (requestShards_isolate_errors_iff sampleConversions ⟨true, 2, 2⟩
    (sampleRequest ["A", "B", "C", "D"]) sampleShards sampleOutcomes sampleReply rfl ?_).mpr
      ⟨?_, ?_⟩
  · intro shard hshard
    rcases hshards shard hshard with rfl | rfl
    · exact answers_sampleReply rfl
    · exact answers_sampleReply rfl
  · intro shard hshard _
    rcases hshards shard hshard with rfl | rfl
    · exact cons_ne_nil _ _
    · exact cons_ne_nil _ _
  · intro first hfirst shard hshard
    -- All columns are texts, whatever the rows are.
    exact .cons (.inl rfl) (.cons (.inl rfl) (.cons (.inl rfl) .nil))

end Xbbg.Sharding
