import Mathlib.Data.List.Sort
import Xbbg.Library.Machine
import Xbbg.Library.Maps
import Xbbg.Library.Saturating

/-! The files of the field and exchange caches: numbered publications of whole snapshots, and the
two caches that save to such a file, clear it, and take single entries out of it. -/

namespace Xbbg.CacheFiles

open Library

/-! ### Publications -/

inductive PublicationOutcome where
  | published
  | superseded
  deriving DecidableEq, Repr

structure AtomicJsonPublisher where
  nextPublication : ℕ
  latestSuccessful : Option ℕ
  deriving DecidableEq, Repr

namespace AtomicJsonPublisher

def new : AtomicJsonPublisher := ⟨0, none⟩

/-- Reserve the next number; publications are ordered by it. -/
def begin (publisher : AtomicJsonPublisher) : AtomicJsonPublisher :=
  { publisher with nextPublication := publisher.nextPublication + 1 }

def isSuperseded (publisher : AtomicJsonPublisher) (publication : ℕ) : Bool :=
  publisher.latestSuccessful.any fun latest => publication < latest

variable {δ : Type}

/-- Write a snapshot beside the file, and put it in the file's place unless a later publication
has succeeded. `prepare` and `replace` are how the two file operations go. -/
def publish (publisher : AtomicJsonPublisher) (file : Option δ) (publication : ℕ) (value : δ)
    (prepare replace : Except String Unit) :
    AtomicJsonPublisher × Option δ × Except String PublicationOutcome :=
  match prepare with
  | .error e => (publisher, file, .error e)
  | .ok () =>
    if publisher.isSuperseded publication then (publisher, file, .ok .superseded)
    else
      match replace with
      | .error e => (publisher, file, .error e)
      | .ok () =>
        ({ publisher with latestSuccessful := some publication }, some value, .ok .published)

/-- Remove the file unless a later publication has succeeded. A file that is not there counts as
removed, so `unlink` fails for other reasons only. -/
def remove (publisher : AtomicJsonPublisher) (file : Option δ) (publication : ℕ)
    (unlink : Except String Unit) :
    AtomicJsonPublisher × Option δ × Except String PublicationOutcome :=
  if publisher.isSuperseded publication then (publisher, file, .ok .superseded)
  else
    match unlink with
    | .error e => (publisher, file, .error e)
    | .ok () => ({ publisher with latestSuccessful := some publication }, none, .ok .published)

end AtomicJsonPublisher

/-! ### One publisher with all of its publications -/

/-- `pending` are the publications that have begun and not ended. `succeeded` is history: each
successful publication with what it left, a value or no file. -/
structure Publishing (δ : Type) where
  publisher : AtomicJsonPublisher
  file : Option δ
  pending : List ℕ
  succeeded : List (ℕ × Option δ)

namespace Publishing

variable {δ : Type}

def start (file : Option δ) : Publishing δ := ⟨.new, file, [], []⟩

inductive Action (δ : Type) where
  | begin
  | publish (publication : ℕ) (value : δ) (prepare replace : Except String Unit)
  | remove (publication : ℕ) (unlink : Except String Unit)
  | abandon (publication : ℕ)

/-- End a publication that left `content` if it succeeded. -/
def finish (s : Publishing δ) (publication : ℕ) (content : Option δ)
    (result : AtomicJsonPublisher × Option δ × Except String PublicationOutcome) :
    Publishing δ where
  publisher := result.1
  file := result.2.1
  pending := s.pending.erase publication
  succeeded :=
    match result.2.2 with
    | .ok .published => (publication, content) :: s.succeeded
    | _ => s.succeeded

def step (s : Publishing δ) : Action δ → Option (Publishing δ)
  | .begin => some { s with
      publisher := s.publisher.begin
      pending := s.publisher.nextPublication :: s.pending }
  | .publish publication value prepare replace =>
    if publication ∈ s.pending then
      some (s.finish publication (some value)
        (s.publisher.publish s.file publication value prepare replace))
    else none
  | .remove publication unlink =>
    if publication ∈ s.pending then
      some (s.finish publication none (s.publisher.remove s.file publication unlink))
    else none
  | .abandon publication =>
    if publication ∈ s.pending then some { s with pending := s.pending.erase publication }
    else none

end Publishing

/-! ### A cache with a file -/

/-- What kind of cache it is: its memory, how calls write to it, the document it saves, and its
memory without one entry, if it has that entry. -/
structure Kind (μ δ ω : Type) where
  write : ω → μ → μ
  persist : μ → δ
  empty : μ
  without : String → μ → Option μ

/-- A save on its way to the file. -/
structure Save (δ : Type) where
  publication : ℕ
  snapshot : δ

/-- A call that holds the lock of the cache while it works on the file. -/
inductive Holder (μ : Type) where
  | clearing (publication : ℕ)
  | invalidating (key : String) (publication : ℕ) (next : μ)

/-- `loaded` is how the load of the file went, on the first use. -/
structure Cache (μ δ : Type) where
  publisher : AtomicJsonPublisher
  file : Option δ
  memory : μ
  loaded : Except String Unit
  saves : List (Save δ)
  holder : Option (Holder μ)

namespace Cache

variable {μ δ ω : Type}

/-- A cache after the load of its file. -/
def start (file : Option δ) (memory : μ) (loaded : Except String Unit) : Cache μ δ :=
  ⟨.new, file, memory, loaded, [], none⟩

/-- The actions of all callers of one cache. `finish` is the end of the call that holds the lock,
with how its file operations go. -/
inductive Action (ω : Type) where
  | write (op : ω)
  | save
  | publish (index : ℕ) (prepare replace : Except String Unit)
  | clear
  | invalidate (key : String)
  | finish (prepare commit : Except String Unit)

/-- Reserve a number and capture the snapshot, under the lock. -/
def save (kind : Kind μ δ ω) (s : Cache μ δ) : Cache μ δ :=
  { s with
    publisher := s.publisher.begin
    saves := s.saves ++ [⟨s.publisher.nextPublication, kind.persist s.memory⟩] }

/-- The rest of a save, without the lock of the cache. -/
def publish (s : Cache μ δ) (index : ℕ) (save : Save δ) (prepare replace : Except String Unit) :
    Cache μ δ :=
  let result := s.publisher.publish s.file save.publication save.snapshot prepare replace
  { s with
    publisher := result.1
    file := result.2.1
    saves := s.saves.eraseIdx index }

def clear (s : Cache μ δ) : Cache μ δ :=
  { s with
    publisher := s.publisher.begin
    holder := some (.clearing s.publisher.nextPublication) }

/-- Without the entry there is nothing to do. -/
def invalidate (kind : Kind μ δ ω) (s : Cache μ δ) (key : String) : Cache μ δ :=
  match s.loaded, kind.without key s.memory with
  | .ok (), some next => { s with
      publisher := s.publisher.begin
      holder := some (.invalidating key s.publisher.nextPublication next) }
  | _, _ => s

def finishClear (kind : Kind μ δ ω) (s : Cache μ δ) (publication : ℕ)
    (unlink : Except String Unit) : Cache μ δ :=
  let result := s.publisher.remove s.file publication unlink
  let s := { s with publisher := result.1, file := result.2.1, holder := none }
  match result.2.2 with
  | .ok _ => { s with memory := kind.empty }
  | .error _ => s

def finishInvalidate (kind : Kind μ δ ω) (s : Cache μ δ) (publication : ℕ) (next : μ)
    (prepare replace : Except String Unit) : Cache μ δ :=
  let result := s.publisher.publish s.file publication (kind.persist next) prepare replace
  let s := { s with publisher := result.1, file := result.2.1, holder := none }
  match result.2.2 with
  | .ok _ => { s with memory := next }
  | .error _ => s

def step (kind : Kind μ δ ω) (s : Cache μ δ) : Action ω → Option (Cache μ δ)
  | .write op =>
    if s.holder.isNone then some { s with memory := kind.write op s.memory } else none
  | .save => if s.holder.isNone then some (s.save kind) else none
  | .publish index prepare replace =>
    s.saves[index]?.map fun save => s.publish index save prepare replace
  | .clear => if s.holder.isNone then some s.clear else none
  | .invalidate key => if s.holder.isNone then some (s.invalidate kind key) else none
  | .finish prepare commit =>
    match s.holder with
    | none => none
    | some (.clearing publication) => some (s.finishClear kind publication commit)
    | some (.invalidating _ publication next) =>
      some (s.finishInvalidate kind publication next prepare commit)

/-- The call that ends with an action. -/
inductive Ended where
  | cleared
  | invalidated (key : String)
  deriving DecidableEq, Repr

/-- Which call returns with this action, and whether it returns without an error. -/
def ends (kind : Kind μ δ ω) (s : Cache μ δ) : Action ω → Option (Ended × Bool)
  | .invalidate key =>
    match s.loaded, kind.without key s.memory with
    | .error _, _ => some (.invalidated key, false)
    | .ok (), none => some (.invalidated key, true)
    | .ok (), some _ => none
  | .finish prepare commit =>
    match s.holder with
    | none => none
    | some (.clearing publication) =>
      some (.cleared, (s.publisher.remove s.file publication commit).2.2.toOption.isSome)
    | some (.invalidating key publication next) =>
      some (.invalidated key, (s.publisher.publish s.file publication (kind.persist next)
        prepare commit).2.2.toOption.isSome)
  | _ => none

end Cache

/-! ### Eviction -/

/-- Entries by age, then by key. -/
def older (a b : String × ℤ) : Bool :=
  a.2 < b.2 || (a.2 == b.2 && decide (a.1 ≤ b.1))

/-- Take the oldest entries out of a map that has grown beyond its bound. -/
def evictOldest {β : Type} (age : β → ℤ) (maxEntries : ℕ) (m : Map String β) : Map String β :=
  let excess := m.entries.length - maxEntries
  let ages := m.entries.map fun entry => (entry.1, age entry.2)
  let keys := ((ages.insertionSort fun a b => older a b = true).take excess).map (·.1)
  keys.foldl (fun m key => m.erase key) m

/-! ### What a reader finds at a path -/

/-- The contents of a file: the entries of a document, or a text that does not parse, with the
parser's message. -/
abbrev Contents (ε : Type) := Except String (List ε)

/-- The reading of a file: its path, its length, how opening it goes, and where in its text the
parser stops at an entry too many. -/
structure Reading (ε : Type) where
  path : String
  length : Contents ε → ℕ
  opened : Except String Unit
  position : Contents ε → String

def readJsonArrayBounded {ε : Type} (reading : Reading ε) (maxBytes maxEntries : ℕ)
    (contents : Contents ε) : Except String (List ε) :=
  let path := reading.path
  match reading.opened with
  | .error e => .error s!"cannot open cache file '{path}': {e}"
  | .ok () =>
    let length := reading.length contents
    if maxBytes < length then
      .error s!"cache file '{path}' is {length} bytes, exceeding the {maxBytes}-byte limit"
    else
      match contents with
      | .error e => .error s!"cannot parse cache file '{path}': {e}"
      | .ok entries =>
        if maxEntries < entries.length then
          let position := reading.position contents
          .error (s!"cannot parse cache file '{path}': " ++
            s!"cache array exceeds the {maxEntries}-entry limit{position}")
        else .ok entries

/-! ### The field cache -/

structure FieldInfo where
  fieldId : String
  arrowType : String
  description : String
  category : String
  deriving DecidableEq, Repr

structure PersistedFieldInfo where
  schemaVersion : ℕ
  info : FieldInfo
  deriving DecidableEq, Repr

structure FieldCacheEntry where
  info : FieldInfo
  insertedAt : ℕ
  deriving DecidableEq, Repr

structure FieldCacheState where
  entries : Map String FieldCacheEntry
  nextInsertEpoch : ℕ

namespace FieldTypeResolver

variable (upper : String → String) (maxEntries : ℕ)

/-- A key keeps the time of its first insertion. -/
def insertEntry (state : FieldCacheState) (entry : String × FieldInfo) : FieldCacheState :=
  let key := upper entry.1
  if key.isEmpty then state
  else
    match state.entries.lookup key with
    | some existing =>
      { state with entries := state.entries.insert key ⟨entry.2, existing.insertedAt⟩ }
    | none =>
      { entries := state.entries.insert key ⟨entry.2, state.nextInsertEpoch⟩
        nextInsertEpoch := satAdd state.nextInsertEpoch 1 }

def insertKeyedEntries (entries : List (String × FieldInfo)) (state : FieldCacheState) :
    FieldCacheState :=
  if entries.all fun entry => (upper entry.1).isEmpty then state
  else
    let state := entries.foldl (insertEntry upper) state
    { state with entries := evictOldest (fun entry => entry.insertedAt) maxEntries state.entries }

def fieldCacheSchemaVersion : ℕ := 3

/-- The resolver saves all of its infos with the schema version, and has no call that takes out a
single entry. -/
def kind : Kind FieldCacheState (Contents PersistedFieldInfo) (List (String × FieldInfo)) where
  write := insertKeyedEntries upper maxEntries
  persist := fun state =>
    .ok (state.entries.entries.map fun entry => ⟨fieldCacheSchemaVersion, entry.2.info⟩)
  empty := ⟨∅, 0⟩
  without := fun _ _ => none

def maxFieldCacheFileBytes : ℕ := 64 * 1024 * 1024

/-- A file that cannot be read, or has an entry of another version, is ignored. -/
def loadFromDisk (reading : Reading PersistedFieldInfo)
    (file : Option (Contents PersistedFieldInfo)) : FieldCacheState :=
  match file with
  | none => ⟨∅, 0⟩
  | some contents =>
    match readJsonArrayBounded reading maxFieldCacheFileBytes maxEntries contents with
    | .error _ => ⟨∅, 0⟩
    | .ok entries =>
      if entries.any fun entry => entry.schemaVersion != fieldCacheSchemaVersion then ⟨∅, 0⟩
      else
        insertKeyedEntries upper maxEntries
          (entries.map fun entry => (upper entry.info.fieldId, entry.info)) ⟨∅, 0⟩

/-- A resolver on a file, at its first use. -/
def start (reading : Reading PersistedFieldInfo) (file : Option (Contents PersistedFieldInfo)) :
    Cache FieldCacheState (Contents PersistedFieldInfo) :=
  .start file (loadFromDisk upper maxEntries reading file) (.ok ())

end FieldTypeResolver

/-! ### The exchange cache -/

inductive ExchangeInfoSource where
  | override
  | cache
  | bloomberg
  | inferred
  | fallback
  deriving DecidableEq, Repr

/-- Of an exchange's data only what the cache reads. Instants are in nanoseconds. -/
structure ExchangeInfo where
  ticker : String
  source : ExchangeInfoSource
  cachedAt : Option ℤ
  deriving DecidableEq, Repr

def exchangeCacheTtlDays : ℤ := 30

def isFresh (now : ℤ) (info : ExchangeInfo) : Bool :=
  info.cachedAt.any fun cachedAt => now - cachedAt ≤ exchangeCacheTtlDays * 86400 * 1000000000

def ExchangeInfo.asCacheHit (info : ExchangeInfo) : ExchangeInfo := { info with source := .cache }

namespace ExchangeCache

variable (trim : String → String) (maxEntries : ℕ)

abbrev Memory := Map String ExchangeInfo

/-- `DateTime::<Utc>::MIN_UTC`, the start of the year -262143. -/
def minUtc : ℤ := -8334601228800 * 1000000000

def evictionTimestamp (info : ExchangeInfo) : ℤ := info.cachedAt.getD minUtc

/-- An entry to put, with the time at which it is stamped. -/
structure Put where
  ticker : String
  info : ExchangeInfo
  now : ℤ
  deriving DecidableEq, Repr

def putEntry (m : Memory) (put : Put) : Memory :=
  let key := trim put.ticker
  if key.isEmpty then m
  else
    m.insert key { put.info with
      cachedAt := some put.now
      source := if put.info.source = .fallback then .bloomberg else put.info.source }

def putMany (entries : List Put) (m : Memory) : Memory :=
  if entries.all fun put => (trim put.ticker).isEmpty then m
  else evictOldest evictionTimestamp maxEntries (entries.foldl (putEntry trim) m)

def kind : Kind Memory (Contents ExchangeInfo) (List Put) where
  write := putMany trim maxEntries
  persist := fun m => .ok (m.entries.map (·.2))
  empty := ∅
  without := fun key m => if (m.lookup key).isSome then some (m.erase key) else none

/-- The call of `invalidate`: one entry, or everything without a ticker. -/
def invalidate (ticker : Option String) : Cache.Action (List Put) :=
  match ticker with
  | some ticker => if (trim ticker).isEmpty then .clear else .invalidate (trim ticker)
  | none => .clear

def maxExchangeCacheFileBytes : ℕ := 32 * 1024 * 1024

/-- The entries of a document by their tickers. Expired ones never reach the memory. -/
def remember (now : ℤ) (entries : List ExchangeInfo) : Memory :=
  let pairs := (entries.filter (isFresh now)).map fun entry => (entry.ticker, entry.asCacheHit)
  if pairs.isEmpty then ∅
  else
    evictOldest evictionTimestamp maxEntries
      (pairs.foldl (fun (m : Memory) pair => m.insert pair.1 pair.2) ∅)

def loadFromDisk (reading : Reading ExchangeInfo) (now : ℤ)
    (file : Option (Contents ExchangeInfo)) : Except String Memory :=
  match file with
  | none => .ok ∅
  | some contents =>
    (readJsonArrayBounded reading maxExchangeCacheFileBytes maxEntries contents).map
      (remember maxEntries now)

def get (now : ℤ) (m : Memory) (ticker : String) : Option ExchangeInfo :=
  let key := trim ticker
  if key.isEmpty then none
  else ((m.lookup key).filter (isFresh now)).map (·.asCacheHit)

/-- A cache on a file, at its first use. -/
def start (reading : Reading ExchangeInfo) (now : ℤ) (file : Option (Contents ExchangeInfo)) :
    Cache Memory (Contents ExchangeInfo) :=
  match loadFromDisk maxEntries reading now file with
  | .ok m => .start file m (.ok ())
  | .error e => .start file ∅ (.error e)

end ExchangeCache

end Xbbg.CacheFiles
