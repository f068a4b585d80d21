import Xbbg.Library.LastWrite
import Xbbg.Model.Feed
import Xbbg.Model.Responses

/-! Shard planning, ordered execution and the reconciliation of shard schemas, from
`engine/request_sharding.rs`. -/

namespace Xbbg.Sharding

open Library Diagnostics Columns Responses

/-! ### Planning -/

abbrev OverridePairs := List (String × String)

inductive Operation where
  | referenceData
  | historicalData
  | other (name : String)
  deriving DecidableEq, Repr

structure PlannedOutput where
  format : OutputFormat
  longMode : LongMode
  deriving DecidableEq, Repr

inductive PlannedRequestShape where
  | refData (output : PlannedOutput)
  | histData (output : PlannedOutput)
  | other
  deriving DecidableEq, Repr

/-- A prepared request with the parameters that planning and decoding read. -/
structure PreparedRequest where
  raw : Bool
  operation : Operation
  shape : PlannedRequestShape
  securities : Option (List String)
  fields : Option (List String)
  overrides : Option OverridePairs
  securityOverrides : Option (List (String × OverridePairs))
  fieldTypes : Map String ArrowType
  includeSecurityErrors : Bool
  /-- The status fields added to the wire request, when the delay status is captured. -/
  captureDelayed : Option (List String)

structure EngineConfig where
  shardRequests : Bool
  shardThreshold : ℕ
  shardChunkSize : ℕ

/-- The checks of the settings above; an engine is only started with a valid configuration. -/
def EngineConfig.validate (config : EngineConfig) : Except BlpAsyncError Unit :=
  if config.shardThreshold < 2 then .error (.configError "shard_threshold must be at least 2")
  else if config.shardChunkSize = 0 then
    .error (.configError "shard_chunk_size must be greater than zero")
  else .ok ()

namespace PreparedRequest

/-- All semantics of a request but its securities and overrides are those of the whole. -/
def forSecurityShard (prepared : PreparedRequest) (securities : List String)
    (overrides : Option OverridePairs) : PreparedRequest :=
  { prepared with securities := some securities, overrides, securityOverrides := none }

end PreparedRequest

/-- Consecutive chunks of at most `chunkSize` entries; the fuel is a bound on their number. -/
def chunks (chunkSize : ℕ) : ℕ → List String → List (List String)
  | 0, _ => []
  | _ + 1, [] => []
  | fuel + 1, securities =>
    securities.take chunkSize :: chunks chunkSize fuel (securities.drop chunkSize)

def shardSecurityChunks (securities : List String) (chunkSize : ℕ) : List (List String) :=
  if chunkSize = 0 then [] else chunks chunkSize securities.length securities

/-- Replace the value of the first pair with the key, or append the pair. -/
def upsert : OverridePairs → String × String → OverridePairs
  | [], pair => [pair]
  | (key, value) :: rest, pair =>
    if key = pair.1 then (key, pair.2) :: rest else (key, value) :: upsert rest pair

def mergeOverridePairs (globalPairs securityPairs : Option OverridePairs) :
    Option OverridePairs :=
  if (globalPairs.getD []).length + (securityPairs.getD []).length = 0 then none
  else some ((securityPairs.getD []).foldl upsert (globalPairs.getD []))

/-- The loop state of `security_override_shards`. -/
structure OverrideShards where
  shards : List PreparedRequest
  currentSecurities : List String
  currentOverrides : Option OverridePairs
  haveCurrent : Bool

namespace OverrideShards

def pushSecurityOverrideShard (prepared : PreparedRequest) (s : OverrideShards) :
    OverrideShards :=
  if s.currentSecurities.isEmpty then s
  else
    { s with
      shards := s.shards ++ [prepared.forSecurityShard s.currentSecurities
        (mergeOverridePairs prepared.overrides s.currentOverrides)]
      currentSecurities := [] }

def add (prepared : PreparedRequest) (lookup : String → Option OverridePairs) (maxChunk : ℕ)
    (s : OverrideShards) (security : String) : OverrideShards :=
  let s :=
    if s.haveCurrent && (s.currentOverrides != lookup security ||
        maxChunk ≤ s.currentSecurities.length) then
      { s.pushSecurityOverrideShard prepared with haveCurrent := false }
    else s
  let s :=
    if s.haveCurrent then s
    else { s with currentOverrides := lookup security, haveCurrent := true }
  { s with currentSecurities := s.currentSecurities ++ [security] }

end OverrideShards

/-- The overrides of a security; of repeated entries the last one counts. -/
def securityOverridesOf (prepared : PreparedRequest) (security : String) : Option OverridePairs :=
  lastWrite (prepared.securityOverrides.getD []) security

def securityOverrideShards (config : EngineConfig) (prepared : PreparedRequest) :
    Option (List PreparedRequest) :=
  match prepared.securityOverrides, prepared.securities with
  | none, _ => none
  | some [], _ => none
  | some _, none => none
  | some _, some [] => none
  | some (_ :: _), some securities =>
    let maxChunk := if config.shardRequests then config.shardChunkSize else 2 ^ 64 - 1
    let s := securities.foldl
      (OverrideShards.add prepared (securityOverridesOf prepared) maxChunk) ⟨[], [], none, false⟩
    some (if s.haveCurrent then s.pushSecurityOverrideShard prepared else s).shards

def shardedRequests (config : EngineConfig) (prepared : PreparedRequest) :
    Option (List PreparedRequest) :=
  match prepared.raw, prepared.operation, prepared.shape with
  | true, _, _ => none
  | false, .other _, _ => none
  | false, _, .other => none
  | false, _, _ =>
    match securityOverrideShards config prepared with
    | some shards => some shards
    | none =>
      if !config.shardRequests then none
      else
        match prepared.securities with
        | none => none
        | some securities =>
          if securities.isEmpty || securities.length < config.shardThreshold then none
          else
            let chunks := shardSecurityChunks securities config.shardChunkSize
            if chunks.length < 2 then none
            else some (chunks.map fun securities =>
              prepared.forSecurityShard securities prepared.overrides)

/-! ### The whole request

A prepared request with the parameters that neither planning nor decoding reads. -/

inductive ExtractorType where
  | bql
  | bsrch
  | bulkData
  | fieldInfo
  | generic
  | histData
  | intradayBar
  | intradayTick
  | refData
  deriving DecidableEq, Repr

structure Request extends PreparedRequest where
  service : String
  /-- The `operation` of the parameters, a text; the planned one is that of the parent. -/
  operationName : String
  requestOperation : Option String
  requestId : Option String
  extractor : ExtractorType
  extractorSet : Bool
  security : Option String
  elements : Option (List (String × String))
  kwargs : Option (Map String String)
  startDate : Option String
  endDate : Option String
  startDatetime : Option String
  endDatetime : Option String
  requestTz : Option String
  outputTz : Option String
  eventType : Option String
  eventTypes : Option (List String)
  interval : Option (BitVec 32)
  options : Option (List (String × String))
  /-- The `field_types` of the parameters; those of the parent are the planned ones. -/
  manualFieldTypes : Option (Map String String)
  returnEids : Bool
  onDelayed : Option Feed.DelayedPolicy
  validateFields : Option Bool
  searchSpec : Option String
  fieldIds : Option (List String)
  formatName : Option String

namespace Request

def forSecurityShard (request : Request) (securities : List String)
    (overrides : Option OverridePairs) : Request where
  toPreparedRequest := request.toPreparedRequest.forSecurityShard securities overrides
  service := request.service
  operationName := request.operationName
  requestOperation := request.requestOperation
  requestId := request.requestId
  extractor := request.extractor
  extractorSet := request.extractorSet
  security := request.security
  elements := request.elements
  kwargs := request.kwargs
  startDate := request.startDate
  endDate := request.endDate
  startDatetime := request.startDatetime
  endDatetime := request.endDatetime
  requestTz := request.requestTz
  outputTz := request.outputTz
  eventType := request.eventType
  eventTypes := request.eventTypes
  interval := request.interval
  options := request.options
  manualFieldTypes := request.manualFieldTypes
  returnEids := request.returnEids
  onDelayed := request.onDelayed
  validateFields := request.validateFields
  searchSpec := request.searchSpec
  fieldIds := request.fieldIds
  formatName := request.formatName

/-- Planning reads the prepared part only, and makes each shard with `forSecurityShard`. -/
def shardedRequests (config : EngineConfig) (request : Request) : Option (List Request) :=
  (Sharding.shardedRequests config request.toPreparedRequest).map fun shards =>
    shards.map fun shard => request.forSecurityShard (shard.securities.getD []) shard.overrides

end Request

/-! ### Joining the batches of the shards -/

/-- The column of the target type for a source column of the same name. -/
def normalizeColumn (index numRows : ℕ) (target : Field) (source : Column) :
    Except String Column :=
  if source.name ≠ target.name then
    .error ("sharded request column mismatch at index " ++ toString index ++ ": expected " ++
      target.name ++ ", got " ++ source.name)
  else if source.array.dataType = target.dataType then .ok ⟨target.name, source.array⟩
  else if source.array.allNull then .ok ⟨target.name, .nulls target.dataType numRows⟩
  else
    .error ("sharded request column type mismatch for " ++ target.name ++ ": expected " ++
      target.dataType.debug ++ ", got " ++ source.array.dataType.debug)

/-- The columns in order up to the first that does not fit. -/
def normalizeColumns (numRows : ℕ) : ℕ → List Field → List Column → Except String (List Column)
  | _, [], _ => .ok []
  | _, _, [] => .ok []
  | index, target :: targets, source :: sources =>
    match normalizeColumn index numRows target source with
    | .error error => .error error
    | .ok column =>
      match normalizeColumns numRows (index + 1) targets sources with
      | .error error => .error error
      | .ok columns => .ok (column :: columns)

/-- The columns of a batch under the schema of the first shard. -/
def normalizeBatchToSchema (batch : RecordBatch) (fields : List Field) :
    Except BlpAsyncError (List Column) :=
  if batch.fields = fields then .ok batch.columns
  else if batch.columns.length ≠ fields.length then
    .error (.internal "sharded request produced incompatible column count")
  else
    match normalizeColumns batch.numRows 0 fields batch.columns with
    | .error error => .error (.internal error)
    | .ok columns => .ok columns

/-- Put the columns of a batch under those that are already joined. -/
def appendColumns : List Column → List Column → Except String (List Column)
  | [], [] => .ok []
  | column :: columns, next :: rest =>
    if h : next.array.dataType = column.array.dataType then
      match appendColumns columns rest with
      | .error error => .error error
      | .ok joined => .ok (⟨column.name, column.array.append next.array h⟩ :: joined)
    else .error "It is not possible to concatenate arrays of different data types"
  | _, _ => .error "number of columns must match number of fields in schema"

/-- The columns of every batch under the schema of the first shard, or the first error. -/
def normalizeBatches (fields : List Field) :
    List RecordBatch → Except BlpAsyncError (List (List Column))
  | [] => .ok []
  | batch :: rest =>
    match normalizeBatchToSchema batch fields with
    | .error error => .error error
    | .ok columns =>
      match normalizeBatches fields rest with
      | .error error => .error error
      | .ok normalized => .ok (columns :: normalized)

/-- Join the columns of the batches behind those of the first. -/
def joinColumns : List Column → List (List Column) → Except String (List Column)
  | joined, [] => .ok joined
  | joined, columns :: rest =>
    match appendColumns joined columns with
    | .error error => .error error
    | .ok joined => joinColumns joined rest

def concatBatches (columns : List Column) (normalized : List (List Column)) (numRows : ℕ)
    (metadata : Metadata) : Except String RecordBatch :=
  match joinColumns columns normalized with
  | .error error => .error error
  | .ok columns =>
    if h : ∀ column ∈ columns, column.values.length = numRows then
      .ok ⟨columns, numRows, metadata, h⟩
    else .error "all columns in a record batch must have the same length"

def concatShardedBatches : List RecordBatch → Except BlpAsyncError RecordBatch
  | [] => .error (.internal "cannot concatenate zero sharded batches")
  | [first] => .ok first
  | first :: rest =>
    match ResponseMetadata.unionOf {} ((first :: rest).map RecordBatch.metadata) with
    | .error error => .error (.blp error)
    | .ok merged =>
      match normalizeBatches first.fields rest with
      | .error error => .error error
      | .ok normalized =>
        match concatBatches first.columns normalized
            ((first :: rest).map RecordBatch.numRows).sum first.metadata with
        | .error error =>
          .error (.internal ("concatenate sharded request batches: " ++ error))
        | .ok batch => .ok (ResponseMetadata.attachTo merged batch)

/-! ### Executing the shards -/

/-- The batches of all shards in order, or the first error. -/
def collectResults : List (Except BlpAsyncError RecordBatch) →
    Except BlpAsyncError (List RecordBatch)
  | [] => .ok []
  | .error error :: _ => .error error
  | .ok batch :: rest =>
    match collectResults rest with
    | .error error => .error error
    | .ok batches => .ok (batch :: batches)

def requestShardsOrdered (request : PreparedRequest → Except BlpAsyncError RecordBatch)
    (shards : List PreparedRequest) : Except BlpAsyncError RecordBatch :=
  match collectResults (shards.map request) with
  | .error error => .error error
  | .ok batches => concatShardedBatches batches

/-- Decode the messages that answer a request, the last of which is the final response. -/
def decode (c : Conversions) (request : PreparedRequest) (partials : List Message)
    (final : Message) : Except BlpError RecordBatch :=
  let fields := request.fields.getD []
  match request.shape with
  | .refData output =>
    let state := RefDataState.withFormat fields output.format output.longMode request.fieldTypes
      request.includeSecurityErrors
    let state := request.captureDelayed.elim state state.captureDelayed
    (partials.foldl (RefDataState.processMessage c) state).finish c final
  | .histData output =>
    let state := HistDataState.withFormat fields output.format output.longMode request.fieldTypes
    (partials.foldl (HistDataState.processMessage c) state).finish c final
  | .other => .error (.internal "unsupported request shape")

/-- The pool attaches the identifiers of the attempts to a successful reply. -/
def poolReply (bloombergRequestIds : List String) :
    Except BlpError RecordBatch → Except BlpAsyncError RecordBatch
  | .error error => .error (.blp error)
  | .ok batch =>
    match bloombergRequestIds with
    | [] => .ok batch
    | [id] => .ok (batch.withMetadata { batch.metadata with bloombergRequestId := some id })
    | ids =>
      .ok (ResponseMetadata.attachTo
        { bloombergRequestIds := ids.foldl BloombergRequestIds.insert [] } batch)

end Xbbg.Sharding
