import Mathlib
import Pulpitum.Domain.Schema
import Pulpitum.Application.Programs

/-!
# Application — DurableTable

The fenced table router: where an append goes and when it is refused, how one bucket is read
through its tier, and how a page is cut from what the buckets returned.  A panic is `none`.
-/

namespace Pulpitum

/-- `DurableTableError`. -/
inductive DurableTableError where
  | bucketReadOnly (bucket : BucketId) (state : BucketState)
  | outsideWriteWindow (bucket : BucketId) (oldest newest : BucketKey)
  | invalidTimeRange
  | definition (e : DefinitionError)
  | durableStore (e : DurableBucketStoreError)
  | store (e : StoreError)
deriving DecidableEq

/-- `DurableTable`: its definition has passed `validate`. -/
structure DurableTable where
  definition : TableDefinition
  valid : definition.validate = .ok ()

/-- `with_definition`. -/
def DurableTable.withDefinition (definition : TableDefinition) :
    Except DurableTableError DurableTable :=
  match h : definition.validate with
  | .ok () => .ok ⟨definition, h⟩
  | .error e => .error (.definition e)

/-! ### Appending -/

namespace DurableTable

/-- The part of `append` before the store is called: the bucket, or the refusal. -/
def routeAppend (table : DurableTable) (now : DateTime) (record : Record) :
    Option (Except DurableTableError BucketId) := do
  let bucket ← table.definition.bucketFor record
  let writable ← table.definition.writableBucketsAt bucket.partitionKey now
  let oldest ← writable.head?
  let newest ← writable.getLast?
  if bucket.start < oldest.start ∨ bucket.start > newest.start then
    return .error (.outsideWriteWindow bucket oldest.key newest.key)
  return .ok bucket

/-- What `append` makes of the store's failure. -/
def appendError (bucket : BucketId) : DurableBucketStoreError → DurableTableError
  | .bucketReadOnly state => .bucketReadOnly bucket state
  | e => .durableStore e

/-- `append`. -/
def append (table : DurableTable) (now : DateTime) (record : Record) :
    Option (Worker (Except DurableTableError Unit)) := do
  match ← table.routeAppend now record with
  | .error e => return (return .error e)
  | .ok bucket =>
      return do
        match ← Worker.callStore (.append bucket record) with
        | .ok () => return .ok ()
        | .error e => return .error (appendError bucket e)

variable {table : DurableTable} {now : DateTime} {record : Record} {bucket : BucketId}

/-- A record is filed under the bucket of its event time. -/
theorem bucketFor_of_routeAppend (h : table.routeAppend now record = some (.ok bucket)) :
    table.definition.bucketFor record = some bucket := by
  simp only [routeAppend, Option.bind_eq_bind, Option.bind_eq_some_iff] at h
  obtain ⟨b, hb, ws, -, o, -, n, -, h⟩ := h
  split at h
  · cases h
  · cases h; exact hb

theorem contains_of_routeAppend (h : table.routeAppend now record = some (.ok bucket)) :
    bucket.contains record.eventTime :=
  BucketId.contains_of_forEventTime (bucketFor_of_routeAppend h)

theorem partitionKey_of_routeAppend (h : table.routeAppend now record = some (.ok bucket)) :
    bucket.partitionKey = record.partitionKey := by
  obtain ⟨-, -, hp, -⟩ := BucketId.forEventTimeWithStrategy_eq_some (bucketFor_of_routeAppend h)
  exact hp

theorem canonical_of_routeAppend (h : table.routeAppend now record = some (.ok bucket)) :
    bucket.Canonical :=
  BucketId.canonical_of_forEventTime (bucketFor_of_routeAppend h)

end DurableTable

/-! ### Reading -/

/-- What `read_bucket` keeps of an archive object. -/
def selectArchived (range : TimeRange) (after : Option Cursor) (limit : ℕ)
    (records : List Record) : List Record :=
  (sortByKey ((records.filter fun r => range.contains r.eventTime).filter fun r =>
    isAfter after r)).take limit

/-- The part of `read_bucket` after the durable store named an archive object. -/
def readArchived (bucket : BucketId) (range : TimeRange) (after : Option Cursor) (limit : ℕ)
    (objectKey : String) : Worker (Except DurableTableError (List Record)) := do
  match ← Worker.callArchive (.getBucket bucket objectKey) with
  | .error e => return .error (.store e)
  | .ok records => return .ok (selectArchived range after limit records)

/-- `read_bucket`. -/
def readBucket (bucket : BucketId) (range : TimeRange) (after : Option Cursor) (limit : ℕ) :
    Worker (Except DurableTableError (List Record)) := do
  match ← Worker.callStore (.readRange bucket range after limit) with
  | .error e => return .error (.durableStore e)
  | .ok (DurableBucketRead.hot records) => return .ok records
  | .ok (DurableBucketRead.archive objectKey) => readArchived bucket range after limit objectKey

/-- `read_bucket` asks the durable store first. -/
theorem readBucket_eq (bucket : BucketId) (range : TimeRange) (after : Option Cursor) (limit : ℕ) :
    readBucket bucket range after limit =
      .ask (.call (.store (.readRange bucket range after limit))) fun
        | .error e => .ret (.error (.durableStore e))
        | .ok (.hot records) => .ret (.ok records)
        | .ok (.archive objectKey) => readArchived bucket range after limit objectKey := rfl

theorem readArchived_eq (bucket : BucketId) (range : TimeRange) (after : Option Cursor)
    (limit : ℕ) (objectKey : String) :
    readArchived bucket range after limit objectKey =
      .ask (.call (.archive (.getBucket bucket objectKey))) fun
        | .error e => .ret (.error (.store e))
        | .ok records => .ret (.ok (selectArchived range after limit records)) := rfl

/-- `Query`. -/
structure Query where
  partitionKey : PartitionKey
  range : TimeRange
  after : Option Cursor
  limit : ℕ

/-- `QueryPage`. -/
structure QueryPage where
  records : List Record
  next : Option Cursor

/-- The last part of `query_page`: the page cut from the records the buckets returned. -/
def cutPage (limit : ℕ) (result : List Record) : QueryPage :=
  let sorted := sortByKey result
  let page := sorted.take limit
  ⟨page, if limit < sorted.length then page.getLast?.map Record.cursor else none⟩

/-- `usize::MAX`. -/
def usizeMax : ℕ := 2 ^ 64 - 1

/-- `limit.saturating_add(1)`. -/
def Query.pageCapacity (query : Query) : ℕ := min (query.limit + 1) usizeMax

/-- The first part of `query_page`: the refusal, the empty page, or the buckets to read. -/
def DurableTable.openPage (table : DurableTable) (query : Query) :
    Option (Except DurableTableError (QueryPage ⊕ List BucketId)) :=
  if query.range.start ≥ query.range.endAt then some (.error .invalidTimeRange)
  else if query.limit = 0 then some (.ok (.inl ⟨[], query.after⟩))
  else do
    let buckets ← table.definition.bucketsForRange query.partitionKey query.range
    return .ok (.inr buckets)

/-! ### Values to evaluate on -/

namespace Sample

/-- The table of `Sample.bucket`. -/
def table : DurableTable := ⟨definition, rfl⟩

theorem routeAppend_record :
    table.routeAppend (newYear 2024 (by decide)) record = some (.ok bucket) := rfl

theorem routeAppend_nextRecord :
    table.routeAppend (newYear 2025 (by decide)) nextRecord = some (.ok nextBucket) := rfl

end Sample

end Pulpitum
