import Mathlib
import Pulpitum.Support.Fallible
import Pulpitum.Ports.Storage

/-!
# Adapters — OpenDAL archive store

`OpenDalArchiveStore`: a bucket is written as a payload object and a manifest object that names
and describes it, both under keys made from their content, and read back through the manifest.

The object store is a map from keys to bytes that keeps the first object written under a key.
SHA-256, JSON and Parquet are parameters.

* `validateRecords_eq_ok`: what a payload is checked for, before it is written and after it is
  read.
* `writeRecords_eq_ok`: what a successful write has left in the object store.
* `getBucket_written`: reading a written bucket back amounts to decoding its payload.
* `read_back_iff`: the records read back are the records written, unless a leap second was
  written as Parquet.
-/

namespace Pulpitum.OpenDal
open Text Fallible DateTime

/-- Encoding of an archive payload. -/
inductive ArchiveFormat where
  | json
  | parquet
deriving DecidableEq

/-- The file extension of a payload. -/
def ArchiveFormat.extension : ArchiveFormat → String
  | json => "json"
  | parquet => "parquet"

/-- Metadata describing one immutable archive payload. -/
structure ArchiveManifest where
  version : ℕ
  format : ArchiveFormat
  schemaVersion : ℕ
  bucket : BucketId
  generation : Option ℕ
  payloadKey : String
  recordCount : ℕ
  payloadBytes : ℕ
  sha256 : String
  clusteringKey : List String
deriving DecidableEq

/-- `ARCHIVE_MANIFEST_VERSION`. -/
def archiveManifestVersion : ℕ := 4

/-- `RECORD_SCHEMA_VERSION`. -/
def recordSchemaVersion : ℕ := 2

/-- The `clustering_key` of every manifest. -/
def manifestClusteringKey : List String := ["event_time", "sort_key"]

/-- Fail with `message` unless `p` holds. -/
def require (p : Prop) [Decidable p] (message : String) : Except StoreError Unit :=
  ensure p (.other message)

@[simp]
theorem require_eq_ok {p : Prop} [Decidable p] {message : String} {u : Unit} :
    require p message = .ok u ↔ p := ensure_eq_ok

theorem require_of {p : Prop} [Decidable p] {message : String} (h : p) :
    require p message = .ok () := ensure_of h

/-! ### Third-party code -/

/-- The type of an Arrow column. -/
inductive DataType where
  | binary
  /-- `Timestamp(Nanosecond, Some("UTC"))`. -/
  | timestampNanosUtc
  | other (name : String)
deriving DecidableEq

/-- A field of an Arrow schema. -/
structure Field where
  name : String
  dataType : DataType
  nullable : Bool
deriving DecidableEq

/-- A row of a record batch whose columns have the types of `archiveSchema`. -/
structure Row where
  partitionKey : Option PartitionKey
  eventTime : Option I64
  sortKey : Option SortKey
  value : Option (List Byte)
deriving DecidableEq

/-- An Arrow record batch. -/
structure Batch where
  fields : List Field
  rows : List Row

/-- `archive_schema`. -/
def archiveSchema : List Field :=
  [⟨"partition_key", .binary, false⟩, ⟨"event_time", .timestampNanosUtc, false⟩,
    ⟨"sort_key", .binary, false⟩, ⟨"value", .binary, false⟩]

/-- The libraries the adapter calls; an error is given by its text. -/
structure Libraries where
  /-- `Sha256::digest`. -/
  digest : List Byte → List Byte
  recordsToVec : List Record → Except String (List Byte)
  recordsFromSlice : List Byte → Except String (List Record)
  manifestToVec : ArchiveManifest → Except String (List Byte)
  manifestFromSlice : List Byte → Except String ArchiveManifest
  /-- `ArrowWriter` on one batch of the archive schema. -/
  writeParquet : List Row → Except String (List Byte)
  /-- `ParquetRecordBatchReader`: the batches one by one. -/
  readParquet : List Byte → Except String (List (Except String Batch))
  /-- The text of the error for an object that does not exist. -/
  notFound : String → String

/-- What the libraries are relied on for. -/
structure Libraries.Lawful (lib : Libraries) : Prop where
  length_digest : ∀ p, (lib.digest p).length = 32
  records : ∀ {rs p}, lib.recordsToVec rs = .ok p → lib.recordsFromSlice p = .ok rs
  parquet : ∀ {rows p}, lib.writeParquet rows = .ok p → ∃ batches : List Batch,
    lib.readParquet p = .ok (batches.map .ok) ∧ (∀ b ∈ batches, b.fields = archiveSchema) ∧
      batches.flatMap Batch.rows = rows

/-! ### Encoding payloads -/

section Codec

variable (lib : Libraries)

/-- The row a record is written as. -/
def rowOf (r : Record) : Except StoreError Row :=
  match timestampNanosOpt r.eventTime with
  | some n => .ok ⟨some r.partitionKey, some n, some r.sortKey, some r.value⟩
  | none => .error (.other "archive event time cannot be represented as nanoseconds")

/-- `serialize_parquet`. -/
def serializeParquet (records : List Record) : Except StoreError (List Byte) := do
  let rows ← records.mapM rowOf
  (lib.writeParquet rows).mapError fun e => .other ("archive parquet serialization: " ++ e)

/-- The record of a row. -/
def recordOf : Row → Except StoreError Record
  | ⟨some partitionKey, some n, some sortKey, some value⟩ =>
      .ok ⟨partitionKey, fromTimestampNanos n, sortKey, value⟩
  | _ => .error (.other "archive parquet contains null record fields")

/-- `records_from_batch`. -/
def recordsFromBatch (batch : Batch) : Except StoreError (List Record) := do
  require (batch.fields = archiveSchema) ("archive parquet schema is unsupported; expected " ++
    "partition_key Binary, event_time Timestamp(ns UTC), sort_key Binary, value Binary")
  batch.rows.mapM recordOf

/-- The error of a Parquet reader. -/
def parquetReadError (e : String) : StoreError := .other ("archive parquet deserialization: " ++ e)

/-- The records of a batch as the reader returns it. -/
def recordsFromRead (batch : Except String Batch) : Except StoreError (List Record) :=
  batch.mapError parquetReadError >>= recordsFromBatch

/-- `deserialize_parquet`. -/
def deserializeParquet (body : List Byte) : Except StoreError (List Record) := do
  let batches ← (lib.readParquet body).mapError parquetReadError
  let records ← batches.mapM recordsFromRead
  return records.flatten

/-- `serialize`. -/
def ArchiveFormat.serialize : ArchiveFormat → List Record → Except StoreError (List Byte)
  | json, records =>
      (lib.recordsToVec records).mapError fun e => .other ("archive serialization: " ++ e)
  | parquet, records => serializeParquet lib records

/-- `deserialize`. -/
def ArchiveFormat.deserialize : ArchiveFormat → List Byte → Except StoreError (List Record)
  | json, body =>
      (lib.recordsFromSlice body).mapError fun e => .other ("archive deserialization: " ++ e)
  | parquet, body => deserializeParquet lib body

/-- `sha256`. -/
def sha256 (payload : List Byte) : String := hexEncode (lib.digest payload)

end Codec

/-- `validate_records`. -/
def validateRecords (bucket : BucketId) (records : List Record) : Except StoreError Unit := do
  require (∀ r ∈ records, r.partitionKey = bucket.partitionKey ∧ bucket.contains r.eventTime)
    "archive records do not all belong to the requested bucket"
  require (records.IsChain fun r r' => r.clusteringKey ≤ r'.clusteringKey)
    "archive records are not sorted by event time and sort key"

theorem validateRecords_eq_ok {bucket : BucketId} {records : List Record} :
    validateRecords bucket records = .ok () ↔
      (∀ r ∈ records, r.partitionKey = bucket.partitionKey ∧ bucket.contains r.eventTime) ∧
        records.IsChain fun r r' => r.clusteringKey ≤ r'.clusteringKey := by
  constructor
  · intro h
    obtain ⟨⟨⟩, h₁, h₂⟩ := ok_of_bind h
    exact ⟨require_eq_ok.mp h₁, require_eq_ok.mp h₂⟩
  · rintro ⟨h₁, h₂⟩
    rw [validateRecords, require_of h₁, ok_bind, require_of h₂]

/-! ### Manifests -/

namespace ArchiveManifest

/-- `validate`. -/
def validate (m : ArchiveManifest) : Except StoreError Unit := do
  require (m.version = archiveManifestVersion)
    s!"unsupported archive manifest version {m.version}"
  require (m.schemaVersion = recordSchemaVersion)
    s!"unsupported archive record schema version {m.schemaVersion}"
  require (m.payloadKey ≠ "") "archive manifest payload key is empty"
  require (m.clusteringKey = manifestClusteringKey)
    "archive manifest has an unsupported clustering key"

/-- `verify_payload`. -/
def verifyPayload (lib : Libraries) (m : ArchiveManifest) (payload : List Byte) :
    Except StoreError Unit := do
  require (payload.length = m.payloadBytes) "archive payload length does not match manifest"
  require (OpenDal.sha256 lib payload = m.sha256) "archive payload checksum does not match manifest"

/-- `new`. -/
def new (lib : Libraries) (bucket : BucketId) (generation : Option ℕ) (format : ArchiveFormat)
    (payloadKey : String) (records : List Record) (payload : List Byte) : ArchiveManifest where
  version := archiveManifestVersion
  format := format
  schemaVersion := recordSchemaVersion
  bucket := bucket
  generation := generation
  payloadKey := payloadKey
  recordCount := records.length
  payloadBytes := payload.length
  sha256 := OpenDal.sha256 lib payload
  clusteringKey := manifestClusteringKey

end ArchiveManifest

/-! ### Keys -/

/-- The part of `OpenDalArchiveStore` that decides keys and contents. -/
structure OpenDalArchiveStore where
  /-- `prefix`. -/
  keyPrefix : String
  format : ArchiveFormat

namespace OpenDalArchiveStore

variable (store : OpenDalArchiveStore)

/-- `bucket_prefix`. -/
def bucketPrefix (bucket : BucketId) : String :=
  store.keyPrefix ++ "/" ++ hexEncode (utf8 bucket.tableId.asStr) ++ "/" ++
    hexEncode bucket.partitionKey ++ "/" ++ hexEncode (utf8 bucket.key.asStr)

/-- `object_directory`. -/
def objectDirectory (bucket : BucketId) : Option ℕ → String
  | some generation => store.bucketPrefix bucket ++ "/generation-" ++ toString generation
  | none => store.bucketPrefix bucket

/-- `content_payload_key`. -/
def contentPayloadKey (bucket : BucketId) (generation : Option ℕ) (digest : String) : String :=
  store.objectDirectory bucket generation ++ "/records-" ++ digest ++ "." ++
    store.format.extension

/-- `content_manifest_key`. -/
def contentManifestKey (bucket : BucketId) (generation : Option ℕ) (digest : String) : String :=
  store.objectDirectory bucket generation ++ "/manifest-" ++ digest ++ ".json"

end OpenDalArchiveStore

/-- `is_ascii_hexdigit`. -/
def isAsciiHexdigit (c : Char) : Bool :=
  c.isDigit || ('a' ≤ c && c ≤ 'f') || ('A' ≤ c && c ≤ 'F')

/-- The text after the last `/`. -/
def fileName (key : List Char) : List Char := (key.reverse.takeWhile (· ≠ '/')).reverse

/-- `manifest_digest`. -/
def manifestDigest (objectKey : String) : Except StoreError (Option String) :=
  match ("manifest-".toList.isPrefixOf? (fileName objectKey.toList)).bind
      ".json".toList.isSuffixOf? with
  | none => .ok none
  | some digest => do
      require (digest.length = 64 ∧ digest.all isAsciiHexdigit)
        "archive manifest object key contains an invalid checksum"
      return some (String.ofList digest)

/-! ### Objects -/

/-- The object store: the bytes under each key. -/
abbrev Blobs := String → Option (List Byte)

/-- A failed request to the object store. -/
inductive ServiceError where
  | failed (message : String)
  | timedOut

/-- `object_error`, `operation_timeout_error`. -/
def ServiceError.toStoreError : ServiceError → StoreError
  | failed message => .other ("object store: " ++ message)
  | timedOut => .other "object-store operation timed out"

/-- How the requests of `create_object_verified` fare.  A write that fails or times out may have
stored its object. -/
structure Fate where
  write : Option (ServiceError × Bool)
  read : Option ServiceError

/-- No request fails. -/
def Fate.fine : Fate := ⟨none, none⟩

section Objects

variable (lib : Libraries)

/-- `read_object`. -/
def readObject (failure : Option ServiceError) (key : String) (o : Blobs) :
    Except StoreError (List Byte) :=
  match failure, o key with
  | some e, _ => .error e.toStoreError
  | none, some body => .ok body
  | none, none => .error (ServiceError.failed (lib.notFound key)).toStoreError

/-- The objects after a write under the condition `if_not_exists`. -/
def writeIfNotExists (key : String) (body : List Byte) (o : Blobs) : Blobs :=
  if o key = none then Function.update o key (some body) else o

/-- The objects after the write of `create_object_verified`. -/
def Fate.written (fate : Fate) (key : String) (body : List Byte) (o : Blobs) : Blobs :=
  match fate.write with
  | some (_, false) => o
  | _ => writeIfNotExists key body o

/-- `create_object_verified`: whatever became of the write, the object is read back. -/
def createObjectVerified (fate : Fate) (key : String) (expected : List Byte) (o : Blobs) :
    Except StoreError (List Byte) × Blobs :=
  let o' := fate.written key expected o
  let reply := match readObject lib fate.read key o', fate.write with
    | .ok uploaded, _ =>
        if uploaded = expected then .ok uploaded
        else .error (.other "immutable archive object already exists with different content")
    | .error _, some (e, _) => .error e.toStoreError
    | .error e, none => .error e
  (reply, o')

variable (store : OpenDalArchiveStore)

/-- What `write_records` does before it writes: the payload, its manifest, the manifest's bytes
and the manifest's key. -/
def prepare (bucket : BucketId) (generation : Option ℕ) (records : List Record) :
    Except StoreError (List Byte × ArchiveManifest × List Byte × String) := do
  validateRecords bucket records
  let payload ← store.format.serialize lib records
  let payloadKey := store.contentPayloadKey bucket generation (sha256 lib payload)
  let manifest := ArchiveManifest.new lib bucket generation store.format payloadKey records payload
  let manifestBody ← (lib.manifestToVec manifest).mapError fun e =>
    .other ("archive manifest serialization: " ++ e)
  let manifestKey := store.contentManifestKey bucket generation (sha256 lib manifestBody)
  return (payload, manifest, manifestBody, manifestKey)

/-- The check of an uploaded payload. -/
def checkPayload (manifest : ArchiveManifest) (uploaded : List Byte) : Except StoreError Unit := do
  manifest.verifyPayload lib uploaded
  let records ← store.format.deserialize lib uploaded
  require (records.length = manifest.recordCount)
    "uploaded archive record count does not match manifest"

/-- `serde_json::from_slice::<ArchiveManifest>`. -/
def parseManifest (body : List Byte) : Except StoreError ArchiveManifest :=
  (lib.manifestFromSlice body).mapError fun e => .other ("archive manifest deserialization: " ++ e)

/-- The check of an uploaded manifest. -/
def checkManifest (manifest : ArchiveManifest) (uploaded : List Byte) :
    Except StoreError Unit := do
  let verified ← parseManifest lib uploaded
  verified.validate
  require (verified = manifest) "uploaded archive manifest does not match the intended manifest"

/-- `write_records`, whose objects fare as `onPayload` and `onManifest` say. -/
def writeRecords (onPayload onManifest : Fate) (bucket : BucketId) (generation : Option ℕ)
    (records : List Record) (o : Blobs) : Except StoreError String × Blobs :=
  match prepare lib store bucket generation records with
  | .error e => (.error e, o)
  | .ok (payload, manifest, manifestBody, manifestKey) =>
    match createObjectVerified lib onPayload manifest.payloadKey payload o with
    | (.error e, o₁) => (.error e, o₁)
    | (.ok uploadedPayload, o₁) =>
      match checkPayload lib store manifest uploadedPayload with
      | .error e => (.error e, o₁)
      | .ok () =>
        match createObjectVerified lib onManifest manifestKey manifestBody o₁ with
        | (.error e, o₂) => (.error e, o₂)
        | (.ok uploadedManifest, o₂) =>
          ((checkManifest lib manifest uploadedManifest).map fun _ => manifestKey, o₂)

/-- A read of an object: how the request fares, and the objects there are at its time. -/
structure Moment where
  failure : Option ServiceError
  objects : Blobs

/-- `read_manifest_records`, with the payload read at the moment `m`. -/
def readManifestRecordsAt (m : Moment) (expectedBucket : BucketId) (manifest : ArchiveManifest) :
    Except StoreError (List Record) := do
  manifest.validate
  require (manifest.bucket = expectedBucket) "archive manifest does not match the requested bucket"
  let payload ← readObject lib m.failure manifest.payloadKey m.objects
  manifest.verifyPayload lib payload
  let records ← manifest.format.deserialize lib payload
  require (records.length = manifest.recordCount) "archive record count does not match manifest"
  validateRecords expectedBucket records
  return records

/-- `get_bucket`, with the manifest read at the moment `m` and the payload at the moment `m'`. -/
def getBucketAt (m m' : Moment) (bucket : BucketId) (objectKey : String) :
    Except StoreError (List Record) := do
  let object ← readObject lib m.failure objectKey m.objects
  if let some expected ← manifestDigest objectKey then
    require (sha256 lib object = expected) "archive manifest checksum does not match its object key"
  let manifest ← parseManifest lib object
  readManifestRecordsAt lib m' bucket manifest

/-- `get_bucket`, whose requests succeed, over objects that stay as they are. -/
def getBucket (bucket : BucketId) (objectKey : String) (o : Blobs) :
    Except StoreError (List Record) :=
  getBucketAt lib ⟨none, o⟩ ⟨none, o⟩ bucket objectKey

end Objects

/-! ### Decoding what was encoded -/

/-- What a record comes back as from a payload. -/
def ArchiveFormat.readBack : ArchiveFormat → Record → Record
  | json, r => r
  | parquet, r =>
      { r with eventTime := (timestampNanosOpt r.eventTime).elim r.eventTime fromTimestampNanos }

theorem readBack_parquet {r : Record} {n : I64} (h : timestampNanosOpt r.eventTime = some n) :
    ArchiveFormat.parquet.readBack r = { r with eventTime := fromTimestampNanos n } := by
  simp only [ArchiveFormat.readBack, h, Option.elim_some]

theorem rowOf_eq_ok {r : Record} {row : Row} (h : rowOf r = .ok row) :
    (∃ n, timestampNanosOpt r.eventTime = some n) ∧
      recordOf row = .ok (ArchiveFormat.parquet.readBack r) := by
  unfold rowOf at h
  split at h
  · rename_i n hn
    cases h
    exact ⟨⟨n, hn⟩, by rw [readBack_parquet hn]; rfl⟩
  · cases h

section

variable {lib : Libraries} {store : OpenDalArchiveStore} {bucket : BucketId}
  {generation : Option ℕ} {records : List Record} {payload : List Byte}

/-- A Parquet payload decodes to its records as they come back from Parquet. -/
theorem deserializeParquet_serializeParquet (hl : lib.Lawful)
    (h : serializeParquet lib records = .ok payload) :
    deserializeParquet lib payload = .ok (records.map ArchiveFormat.parquet.readBack) := by
  obtain ⟨rows, hrows, hp⟩ := ok_of_bind h
  obtain ⟨batches, hread, hfields, rfl⟩ := hl.parquet (mapError_eq_ok.mp hp)
  have decoded : (batches.flatMap Batch.rows).mapM recordOf =
      .ok (records.map ArchiveFormat.parquet.readBack) := by
    refine mapM_eq_ok_of_forall₂ (List.forall₂_map_right_iff.mpr ?_)
    exact (forall₂_of_mapM_eq_ok hrows).flip.imp fun _ _ h => (rowOf_eq_ok h).2
  obtain ⟨pieces, hpieces, hflat⟩ := mapM_mapM_of_flatMap decoded
  have each : (batches.map Except.ok).mapM recordsFromRead = .ok pieces := by
    rw [List.mapM_map, ← hpieces]
    refine mapM_congr fun b hb => ?_
    have : recordsFromBatch b = b.rows.mapM recordOf := by
      rw [recordsFromBatch, require_of (hfields b hb), ok_bind]
    exact this
  have read : (lib.readParquet payload).mapError parquetReadError =
      .ok (batches.map Except.ok) := mapError_eq_ok.mpr hread
  rw [deserializeParquet, read, ok_bind, each, ok_bind, hflat]
  rfl

/-- A payload decodes to its records as they come back from its format. -/
theorem ArchiveFormat.deserialize_serialize (hl : lib.Lawful) {format : ArchiveFormat}
    (h : format.serialize lib records = .ok payload) :
    format.deserialize lib payload = .ok (records.map format.readBack) := by
  cases format with
  | json =>
      rw [show records.map json.readBack = records from List.map_id' records]
      exact mapError_eq_ok.mpr (hl.records (mapError_eq_ok.mp h))
  | parquet => exact deserializeParquet_serializeParquet hl h

/-- Records that could be encoded come back as they were, but for leap seconds in Parquet. -/
theorem ArchiveFormat.map_readBack_eq_iff {format : ArchiveFormat}
    (h : format.serialize lib records = .ok payload) :
    records.map format.readBack = records ↔
      format = .json ∨ ∀ r ∈ records, ¬ r.eventTime.IsLeapSecond := by
  cases format with
  | json => exact ⟨fun _ => .inl rfl, fun _ => List.map_id' records⟩
  | parquet =>
      obtain ⟨rows, hrows, -⟩ := ok_of_bind h
      have encoded : ∀ r ∈ records, ∃ n, timestampNanosOpt r.eventTime = some n := by
        intro r hr
        obtain ⟨row, hrow⟩ := exists_ok_of_mapM_eq_ok hrows r hr
        exact (rowOf_eq_ok hrow).1
      have back : ∀ r ∈ records, parquet.readBack r = r ↔ ¬ r.eventTime.IsLeapSecond := by
        intro r hr
        obtain ⟨n, hn⟩ := encoded r hr
        rw [readBack_parquet hn, ← fromTimestampNanos_eq_iff hn]
        exact ⟨fun e => congrArg Record.eventTime e, fun e => by rw [e]⟩
      have whole : records.map parquet.readBack = records ↔
          ∀ r ∈ records, parquet.readBack r = r := by
        nth_rewrite 2 [← List.map_id records]
        exact List.map_inj_left
      rw [whole, forall₂_congr back]
      simp

/-! ### Objects written -/

/-- Writing never replaces an object. -/
theorem Fate.written_of_some {fate : Fate} {key key' : String} {body x : List Byte} {o : Blobs}
    (h : o key' = some x) : fate.written key body o key' = some x := by
  have absent : writeIfNotExists key body o key' = some x := by
    unfold writeIfNotExists
    split
    · rename_i hn
      have hne : key' ≠ key := by
        rintro rfl
        rw [hn] at h; cases h
      rwa [Function.update_of_ne hne]
    · exact h
  rcases hw : fate.write with _ | ⟨e, _ | _⟩
  · simpa only [Fate.written, hw] using absent
  · simpa only [Fate.written, hw] using h
  · simpa only [Fate.written, hw] using absent

theorem readObject_eq_ok {failure : Option ServiceError} {key : String} {o : Blobs}
    {body : List Byte} (h : readObject lib failure key o = .ok body) : o key = some body := by
  unfold readObject at h
  split at h
  · cases h
  · rename_i hb
    cases h
    exact hb
  · cases h

theorem readObject_of_some {key : String} {o : Blobs} {body : List Byte} (h : o key = some body) :
    readObject lib none key o = .ok body := by
  unfold readObject
  rw [h]

/-- An object reported as created is there with the content asked for, and every object that was
there still is. -/
theorem createObjectVerified_eq_ok {fate : Fate} {key : String} {expected uploaded : List Byte}
    {o o' : Blobs} (h : createObjectVerified lib fate key expected o = (.ok uploaded, o')) :
    uploaded = expected ∧ o' key = some expected ∧
      ∀ key' x, o key' = some x → o' key' = some x := by
  obtain ⟨hr, ho⟩ := Prod.mk.inj h
  subst ho
  split at hr
  · rename_i body _ hread
    split at hr
    · rename_i he
      cases hr
      exact ⟨he, (readObject_eq_ok hread).trans (congrArg some he),
        fun _ _ => Fate.written_of_some⟩
    · cases hr
  · cases hr
  · cases hr

theorem fileName_append (dir : List Char) {name : List Char} (h : '/' ∉ name) :
    fileName (dir ++ '/' :: name) = name := by
  have inside : ∀ c ∈ name.reverse, decide (c ≠ '/') = true := by
    intro c hc
    exact decide_eq_true fun e => h (e ▸ List.mem_reverse.mp hc)
  rw [fileName, List.reverse_append, List.reverse_cons, List.append_assoc,
    List.takeWhile_append_of_pos inside, List.singleton_append,
    List.takeWhile_cons_of_neg (by simp), List.append_nil, List.reverse_reverse]

/-- A key that ends in the name `name`, a checksum and the ending `ending` has that file name. -/
theorem fileName_contentKey (dir : String) {name ending : String} (hn : '/' ∉ name.toList)
    (he : '/' ∉ ending.toList) (body : List Byte) :
    fileName (dir ++ "/" ++ name ++ sha256 lib body ++ ending).toList =
      name.toList ++ (hexDigits (lib.digest body) ++ ending.toList) := by
  have slash : '/' ∉ name.toList ++ (hexDigits (lib.digest body) ++ ending.toList) := by
    simp only [List.mem_append, not_or]
    exact ⟨hn, slash_notMem_hexDigits _, he⟩
  rw [← fileName_append dir.toList slash]
  congr 1
  simp [sha256, toList_hexEncode]

/-- The file name of a manifest object. -/
theorem fileName_contentManifestKey (body : List Byte) :
    fileName (store.contentManifestKey bucket generation (sha256 lib body)).toList =
      "manifest-".toList ++ (hexDigits (lib.digest body) ++ ".json".toList) := by
  rw [← fileName_contentKey (store.objectDirectory bucket generation) (by decide) (by decide) body]
  simp [OpenDalArchiveStore.contentManifestKey]

/-- The file name of a payload object. -/
theorem fileName_contentPayloadKey (body : List Byte) :
    fileName (store.contentPayloadKey bucket generation (sha256 lib body)).toList =
      "records-".toList ++
        (hexDigits (lib.digest body) ++ ("." ++ store.format.extension).toList) := by
  have he : '/' ∉ ("." ++ store.format.extension).toList := by cases store.format <;> decide
  rw [← fileName_contentKey (store.objectDirectory bucket generation) (by decide) he body]
  simp [OpenDalArchiveStore.contentPayloadKey]

/-- The checksum in the name of a manifest object is read back from it. -/
theorem manifestDigest_contentManifestKey (hl : lib.Lawful) (body : List Byte) :
    manifestDigest (store.contentManifestKey bucket generation (sha256 lib body)) =
      .ok (some (sha256 lib body)) := by
  have hex : (hexDigits (lib.digest body)).all isAsciiHexdigit := by
    refine List.all_eq_true.mpr fun c hc => ?_
    obtain ⟨n, hn⟩ := mem_hexDigits hc
    have all : ∀ n, isAsciiHexdigit (hexDigit n) = true := by decide
    rw [hn, all n]
  have len : (hexDigits (lib.digest body)).length = 64 := by
    rw [length_hexDigits, hl.length_digest]
  have strip : ("manifest-".toList.isPrefixOf?
      ("manifest-".toList ++ (hexDigits (lib.digest body) ++ ".json".toList))).bind
        ".json".toList.isSuffixOf? = some (hexDigits (lib.digest body)) := by
    rw [List.isPrefixOf?_eq_some_iff_append_eq.mpr rfl, Option.bind_some]
    exact List.isSuffixOf?_eq_some_iff_append_eq.mpr rfl
  unfold manifestDigest
  rw [fileName_contentManifestKey, strip]
  simp only [require_of (And.intro len hex), ok_bind]
  rfl

/-- What was prepared for writing. -/
theorem prepare_eq_ok {manifest : ArchiveManifest} {body : List Byte} {key : String}
    (h : prepare lib store bucket generation records = .ok (payload, manifest, body, key)) :
    validateRecords bucket records = .ok () ∧ store.format.serialize lib records = .ok payload ∧
      manifest = .new lib bucket generation store.format
        (store.contentPayloadKey bucket generation (sha256 lib payload)) records payload ∧
      key = store.contentManifestKey bucket generation (sha256 lib body) := by
  obtain ⟨⟨⟩, hvalid, h⟩ := ok_of_bind h
  obtain ⟨payload, hpayload, h⟩ := ok_of_bind h
  obtain ⟨body, -, h⟩ := ok_of_bind h
  cases h
  exact ⟨hvalid, hpayload, rfl, rfl⟩

/-- What was prepared passes the check of an uploaded payload. -/
theorem checkPayload_prepared {manifest : ArchiveManifest} {body : List Byte} {key : String}
    (hl : lib.Lawful)
    (h : prepare lib store bucket generation records = .ok (payload, manifest, body, key)) :
    checkPayload lib store manifest payload = .ok () := by
  obtain ⟨-, hserialize, rfl, -⟩ := prepare_eq_ok h
  refine bind_of_ok (bind_of_ok (require_of rfl) (require_of rfl)) ?_
  refine bind_of_ok (ArchiveFormat.deserialize_serialize hl hserialize) ?_
  exact require_of (List.length_map _)

/-- A manifest that was prepared is valid. -/
theorem validate_prepared {manifest : ArchiveManifest} {body : List Byte} {key : String}
    (h : prepare lib store bucket generation records = .ok (payload, manifest, body, key)) :
    manifest.validate = .ok () := by
  obtain ⟨-, -, rfl, -⟩ := prepare_eq_ok h
  have hkey : store.contentPayloadKey bucket generation (sha256 lib payload) ≠ "" := by
    intro hnil
    have hname := @fileName_contentPayloadKey lib store bucket generation payload
    rw [hnil] at hname
    cases hname
  refine bind_of_ok (require_of rfl) (bind_of_ok (require_of rfl) ?_)
  exact bind_of_ok (require_of hkey) (require_of rfl)

/-- A manifest that was prepared and is decoded again passes the check of an uploaded one. -/
theorem checkManifest_of_parsed {manifest : ArchiveManifest} {body : List Byte} {key : String}
    (h : prepare lib store bucket generation records = .ok (payload, manifest, body, key))
    (hparse : lib.manifestFromSlice body = .ok manifest) :
    checkManifest lib manifest body = .ok () :=
  bind_of_ok (mapError_eq_ok.mpr hparse) (bind_of_ok (validate_prepared h) (require_of rfl))

/-- An object whose key is free is created. -/
theorem createObjectVerified_of_none {key : String} {o : Blobs} (expected : List Byte)
    (h : o key = none) :
    createObjectVerified lib .fine key expected o =
      (.ok expected, Function.update o key (some expected)) := by
  have hwritten : Fate.fine.written key expected o = Function.update o key (some expected) :=
    if_pos h
  have hread : readObject lib Fate.fine.read key (Function.update o key (some expected)) =
      .ok expected := readObject_of_some (Function.update_self ..)
  unfold createObjectVerified
  dsimp only
  rw [hwritten, hread]
  dsimp only
  rw [if_pos rfl]

/-- The first write to an object store succeeds, if no request fails and the manifest is decoded
again. -/
theorem writeRecords_of_empty (hl : lib.Lawful) {manifest : ArchiveManifest} {body : List Byte}
    {key : String}
    (h : prepare lib store bucket generation records = .ok (payload, manifest, body, key))
    (hparse : lib.manifestFromSlice body = .ok manifest) :
    ∃ o', writeRecords lib store .fine .fine bucket generation records (fun _ => none) =
      (.ok key, o') := by
  have hne : key ≠ manifest.payloadKey := by
    obtain ⟨-, -, rfl, rfl⟩ := prepare_eq_ok h
    intro heq
    have hname := congrArg (fun k => fileName k.toList) heq
    have hpayload := @fileName_contentPayloadKey lib store bucket generation payload
    have hmanifest := @fileName_contentManifestKey lib store bucket generation body
    cases hmanifest.symm.trans (hname.trans hpayload)
  let o₁ : Blobs := Function.update (fun _ => none) manifest.payloadKey (some payload)
  have hfree : o₁ key = none := Function.update_of_ne hne ..
  refine ⟨Function.update o₁ key (some body), ?_⟩
  unfold writeRecords
  rw [h]
  dsimp only
  rw [createObjectVerified_of_none payload rfl]
  dsimp only
  rw [checkPayload_prepared hl h]
  dsimp only
  rw [createObjectVerified_of_none body hfree]
  dsimp only
  rw [checkManifest_of_parsed h hparse]
  rfl

/-- **What a successful write has left behind.** The payload and the manifest are in the object
store as prepared, and passed the checks that reading makes again. -/
theorem writeRecords_eq_ok {onPayload onManifest : Fate} {key : String} {o o' : Blobs}
    (h : writeRecords lib store onPayload onManifest bucket generation records o =
      (.ok key, o')) :
    ∃ payload manifest body,
      prepare lib store bucket generation records = .ok (payload, manifest, body, key) ∧
      o' manifest.payloadKey = some payload ∧ o' key = some body ∧
      checkPayload lib store manifest payload = .ok () ∧
      checkManifest lib manifest body = .ok () := by
  unfold writeRecords at h
  split at h
  · cases h
  rename_i payload manifest body manifestKey hprepare
  split at h
  · cases h
  rename_i uploadedPayload o₁ hcreate₁
  obtain ⟨rfl, stored₁, -⟩ := createObjectVerified_eq_ok hcreate₁
  split at h
  · cases h
  rename_i hcheck₁
  split at h
  · cases h
  rename_i uploadedManifest o₂ hcreate₂
  obtain ⟨rfl, stored₂, kept⟩ := createObjectVerified_eq_ok hcreate₂
  obtain ⟨hr, rfl⟩ := Prod.mk.inj h
  cases hcheck₂ : checkManifest lib manifest uploadedManifest with
  | error e => rw [hcheck₂] at hr; cases hr
  | ok u =>
      rw [hcheck₂] at hr
      cases hr
      exact ⟨_, _, _, hprepare, kept _ _ stored₁, stored₂, hcheck₁, hcheck₂⟩

/-- **Reading a written bucket.** It comes down to decoding the payload and checking the decoded
records against the bucket once more. -/
theorem getBucket_written (hl : lib.Lawful) {onPayload onManifest : Fate} {key : String}
    {o o' : Blobs} (h : writeRecords lib store onPayload onManifest bucket generation records o =
      (.ok key, o')) :
    getBucket lib bucket key o' = do
      validateRecords bucket (records.map store.format.readBack)
      return records.map store.format.readBack := by
  obtain ⟨payload, manifest, body, hprepare, hpayload, hbody, hcp, hcm⟩ := writeRecords_eq_ok h
  obtain ⟨-, hserialize, hmanifest, rfl⟩ := prepare_eq_ok hprepare
  obtain ⟨verified, hparse, hcm⟩ := ok_of_bind hcm
  obtain ⟨⟨⟩, hvalid, hcm⟩ := ok_of_bind hcm
  obtain rfl := require_eq_ok.mp hcm
  obtain ⟨⟨⟩, hverify, hcp⟩ := ok_of_bind hcp
  have decoded := ArchiveFormat.deserialize_serialize hl hserialize
  rw [decoded, ok_bind] at hcp
  have hformat : verified.format = store.format := by rw [hmanifest]; rfl
  have hbucket : verified.bucket = bucket := by rw [hmanifest]; rfl
  unfold getBucket getBucketAt
  rw [readObject_of_some hbody, ok_bind, manifestDigest_contentManifestKey hl, ok_bind]
  simp only [require_of, ok_bind, hparse]
  unfold readManifestRecordsAt
  rw [hvalid, ok_bind, require_of hbucket, ok_bind, readObject_of_some hpayload, ok_bind, hverify,
    ok_bind, hformat, decoded, ok_bind, require_of (require_eq_ok.mp hcp), ok_bind]

/-- **A published archive reads back exactly, but for leap seconds in Parquet.** The records of a
successful write are what reading the bucket returns, unless the payload is Parquet and some
event time is a leap second: its nanoseconds are those of the second that follows it. -/
theorem read_back_iff (hl : lib.Lawful) {onPayload onManifest : Fate} {key : String}
    {o o' : Blobs} (h : writeRecords lib store onPayload onManifest bucket generation records o =
      (.ok key, o')) :
    getBucket lib bucket key o' = .ok records ↔
      store.format = .json ∨ ∀ r ∈ records, ¬ r.eventTime.IsLeapSecond := by
  obtain ⟨payload, manifest, body, hprepare, -⟩ := writeRecords_eq_ok h
  obtain ⟨hvalid, hserialize, -⟩ := prepare_eq_ok hprepare
  rw [getBucket_written hl h, ← ArchiveFormat.map_readBack_eq_iff hserialize]
  constructor
  · intro hread
    obtain ⟨⟨⟩, -, hread⟩ := ok_of_bind hread
    exact Except.ok.inj hread
  · intro hback
    rw [hback, hvalid]
    rfl

end

/-! ### Samples -/

namespace Sample
open Pulpitum.Sample

/-- A store of payloads in the format `format`. -/
def store (format : ArchiveFormat) : OpenDalArchiveStore := ⟨"archive", format⟩

/-- What the sample record is written as: its JSON, and a stand-in for a Parquet file, whose bytes
are up to `ArrowWriter`. -/
def payloadText : ArchiveFormat → String
  | .json =>
      "[\x7b\"partition_key\":[7],\"event_time\":\"2024-01-01T00:00:00Z\"," ++
        "\"sort_key\":[1],\"value\":[42]\x7d]"
  | .parquet => "PAR1"

/-- The JSON of its manifest. -/
def manifestText : ArchiveFormat → String
  | .json =>
      "\x7b\"version\":4,\"format\":\"json\",\"schema_version\":2," ++
        "\"bucket\":\x7b\"table_id\":\"events\",\"partition_key\":[7]," ++
        "\"strategy\":\"calendar_year_utc\",\"key\":\"year:2024\"," ++
        "\"start\":\"2024-01-01T00:00:00Z\",\"end\":\"2025-01-01T00:00:00Z\"\x7d," ++
        "\"generation\":1," ++
        "\"payload_key\":\"archive/6576656e7473/07/796561723a32303234/generation-1/records-" ++
        "4a96fcc0005108905d543906e97bdde486cac096874561d2fcf4af9593687fa5.json\"," ++
        "\"record_count\":1,\"payload_bytes\":87," ++
        "\"sha256\":\"4a96fcc0005108905d543906e97bdde486cac096874561d2fcf4af9593687fa5\"," ++
        "\"clustering_key\":[\"event_time\",\"sort_key\"]\x7d"
  | .parquet =>
      "\x7b\"version\":4,\"format\":\"parquet\",\"schema_version\":2," ++
        "\"bucket\":\x7b\"table_id\":\"events\",\"partition_key\":[7]," ++
        "\"strategy\":\"calendar_year_utc\",\"key\":\"year:2024\"," ++
        "\"start\":\"2024-01-01T00:00:00Z\",\"end\":\"2025-01-01T00:00:00Z\"\x7d," ++
        "\"generation\":1," ++
        "\"payload_key\":\"archive/6576656e7473/07/796561723a32303234/generation-1/records-" ++
        "fbc62d3b511368ee275ddc74117d8689b430e1427220e25d30816201d89ca7b6.parquet\"," ++
        "\"record_count\":1,\"payload_bytes\":4," ++
        "\"sha256\":\"fbc62d3b511368ee275ddc74117d8689b430e1427220e25d30816201d89ca7b6\"," ++
        "\"clustering_key\":[\"event_time\",\"sort_key\"]\x7d"

/-- The bytes of the payload. -/
def payload (format : ArchiveFormat) : List Byte := utf8 (payloadText format)

/-- The bytes of the manifest. -/
def manifestJson (format : ArchiveFormat) : List Byte := utf8 (manifestText format)

/-- The bytes of an empty list, in JSON. -/
def emptyJson : List Byte := utf8 "[]"

/-- The SHA-256 of the payload. -/
def payloadSha : ArchiveFormat → List Byte
  | .json =>
      [0x4a, 0x96, 0xfc, 0xc0, 0x00, 0x51, 0x08, 0x90, 0x5d, 0x54, 0x39, 0x06, 0xe9, 0x7b,
       0xdd, 0xe4, 0x86, 0xca, 0xc0, 0x96, 0x87, 0x45, 0x61, 0xd2, 0xfc, 0xf4, 0xaf, 0x95,
       0x93, 0x68, 0x7f, 0xa5]
  | .parquet =>
      [0xfb, 0xc6, 0x2d, 0x3b, 0x51, 0x13, 0x68, 0xee, 0x27, 0x5d, 0xdc, 0x74, 0x11, 0x7d,
       0x86, 0x89, 0xb4, 0x30, 0xe1, 0x42, 0x72, 0x20, 0xe2, 0x5d, 0x30, 0x81, 0x62, 0x01,
       0xd8, 0x9c, 0xa7, 0xb6]

/-- The SHA-256 of the manifest. -/
def manifestSha : ArchiveFormat → List Byte
  | .json =>
      [0x74, 0xbc, 0x43, 0x0b, 0x01, 0xb9, 0xef, 0xa6, 0xc9, 0x47, 0x1e, 0x9b, 0x36, 0x8a,
       0xc0, 0x03, 0x0d, 0x31, 0x33, 0x50, 0xa6, 0xe0, 0x67, 0x3e, 0xdd, 0x1e, 0x8f, 0x7e,
       0x05, 0xd9, 0xae, 0x6f]
  | .parquet =>
      [0xa5, 0x34, 0xc9, 0xe6, 0x86, 0x55, 0xbe, 0x0e, 0x0c, 0xde, 0xd9, 0x44, 0x56, 0x8e,
       0xbf, 0x15, 0xc2, 0xa9, 0xc3, 0x54, 0x46, 0xea, 0xf0, 0x8c, 0x83, 0xb9, 0x80, 0xc2,
       0x55, 0x0e, 0x7a, 0xf1]

/-- The SHA-256 of the empty list. -/
def emptySha : List Byte :=
  [0x4f, 0x53, 0xcd, 0xa1, 0x8c, 0x2b, 0xaa, 0x0c, 0x03, 0x54, 0xbb, 0x5f, 0x9a, 0x3e,
   0xcb, 0xe5, 0xed, 0x12, 0xab, 0x4d, 0x8e, 0x11, 0xba, 0x87, 0x3c, 0x2f, 0x11, 0x16,
   0x12, 0x02, 0xb9, 0x45]

/-- The manifest. -/
def manifest (format : ArchiveFormat) : ArchiveManifest where
  version := 4
  format := format
  schemaVersion := 2
  bucket := bucket
  generation := some 1
  payloadKey := (store format).contentPayloadKey bucket (some 1) (hexEncode (payloadSha format))
  recordCount := 1
  payloadBytes := (payload format).length
  sha256 := hexEncode (payloadSha format)
  clusteringKey := ["event_time", "sort_key"]

/-- The key of the manifest. -/
def manifestKey (format : ArchiveFormat) : String :=
  (store format).contentManifestKey bucket (some 1) (hexEncode (manifestSha format))

/-- The texts of the sample, with their SHA-256. -/
def digests : List (String × List Byte) :=
  [(payloadText .json, payloadSha .json), (manifestText .json, manifestSha .json),
    (payloadText .parquet, payloadSha .parquet), (manifestText .parquet, manifestSha .parquet),
    ("[]", emptySha)]

/-- SHA-256, as far as the table goes. -/
def digest (p : List Byte) : List Byte :=
  ((digests.find? fun e => utf8 e.1 = p).map Prod.snd).getD (List.replicate 32 0)

/-- The texts differ in their first characters. -/
theorem nodup_digests : (digests.map Prod.fst).Nodup := by
  refine List.Nodup.of_map (fun s => s.toList.take 24) ?_
  unfold digests payloadText manifestText
  simp only [List.map_cons, List.map_nil, String.toList_append]
  decide

theorem find?_of_mem {β : Type} {e : String × β} {l : List (String × β)}
    (hn : (l.map Prod.fst).Nodup) (he : e ∈ l) :
    l.find? (fun e' => utf8 e'.1 = utf8 e.1) = some e := by
  induction l with
  | nil => cases he
  | cons x l ih =>
      rw [List.map_cons, List.nodup_cons] at hn
      rcases List.mem_cons.mp he with rfl | he
      · exact List.find?_cons_of_pos (decide_eq_true rfl)
      · have hne : utf8 x.1 ≠ utf8 e.1 := fun heq =>
          hn.1 (utf8_injective heq ▸ List.mem_map_of_mem he)
        rw [List.find?_cons_of_neg (by simpa using hne), ih hn.2 he]

theorem digest_of_mem {e : String × List Byte} (he : e ∈ digests) : digest (utf8 e.1) = e.2 := by
  rw [digest, find?_of_mem nodup_digests he]
  rfl

theorem length_digest (p : List Byte) : (digest p).length = 32 := by
  have hlength : ∀ e ∈ digests, e.2.length = 32 := by
    simp only [digests, List.forall_mem_cons]
    exact ⟨rfl, rfl, rfl, rfl, rfl, List.forall_mem_nil _⟩
  unfold digest
  cases h : digests.find? fun e => utf8 e.1 = p with
  | none => exact List.length_replicate
  | some e => exact hlength e (List.mem_of_find?_eq_some h)

theorem payloadText_mem (format : ArchiveFormat) :
    (payloadText format, payloadSha format) ∈ digests := by
  cases format with
  | json => exact .head _
  | parquet => exact .tail _ (.tail _ (.head _))

theorem manifestText_mem (format : ArchiveFormat) :
    (manifestText format, manifestSha format) ∈ digests := by
  cases format with
  | json => exact .tail _ (.head _)
  | parquet => exact .tail _ (.tail _ (.tail _ (.head _)))

theorem digest_payload (format : ArchiveFormat) : digest (payload format) = payloadSha format :=
  digest_of_mem (payloadText_mem format)

theorem digest_manifestJson (format : ArchiveFormat) :
    digest (manifestJson format) = manifestSha format :=
  digest_of_mem (manifestText_mem format)

/-- `2024-06-30T23:59:60.5Z`. -/
def leapSecond : DateTime :=
  .ofFields (.ofFields 2024 6 30 (by decide)) 86399 1500000000 (by decide)

/-- A record of the leap second. -/
def leapRecord : Record := { record with eventTime := leapSecond }

/-- The record it comes back as, half a second into `2024-07-01`. -/
def lateRecord : Record :=
  { record with
    eventTime := .ofFields july.date 0 500000000 (by decide) }

theorem readBack_leapRecord : ArchiveFormat.parquet.readBack leapRecord = lateRecord := by
  have hn : timestampNanosOpt leapRecord.eventTime =
      some ⟨1719792000500000000, by decide⟩ := by decide
  have hn' : timestampNanosOpt lateRecord.eventTime =
      some ⟨1719792000500000000, by decide⟩ := by decide
  rw [readBack_parquet hn, (fromTimestampNanos_eq_iff hn').mpr (by decide)]
  rfl

/-- The row it is written as. -/
def leapRow : Row :=
  ⟨some [7], some ⟨1719792000500000000, by decide⟩, some [1], some [42]⟩

/-- Libraries for the sample record, as a table. -/
def libraries : Libraries where
  digest := digest
  recordsToVec rs := if rs = [record] then .ok (payload .json) else .error "not in the table"
  recordsFromSlice p := if p = payload .json then .ok [record] else .error "not in the table"
  manifestToVec m :=
    if m = manifest m.format then .ok (manifestJson m.format) else .error "not in the table"
  manifestFromSlice p :=
    if p = manifestJson .json then .ok (manifest .json)
    else if p = manifestJson .parquet then .ok (manifest .parquet)
    else .error "not in the table"
  writeParquet rows :=
    if rows = [leapRow] then .ok (payload .parquet) else .error "not in the table"
  readParquet p :=
    if p = payload .parquet then .ok [.ok ⟨archiveSchema, [leapRow]⟩] else .error "not in the table"
  notFound key := key

theorem libraries_lawful : libraries.Lawful where
  length_digest := length_digest
  records {rs p} h := by
    simp only [libraries] at h ⊢
    split at h
    · rename_i hrs
      cases h
      rw [if_pos rfl, hrs]
    · cases h
  parquet {rows p} h := by
    simp only [libraries] at h ⊢
    split at h
    · rename_i hrows
      cases h
      exact ⟨[⟨archiveSchema, [leapRow]⟩], if_pos rfl, by simp, by simp [hrows]⟩
    · cases h

theorem manifestToVec_manifest (format : ArchiveFormat) :
    libraries.manifestToVec (manifest format) = .ok (manifestJson format) := if_pos rfl

theorem manifestFromSlice_manifestJson (format : ArchiveFormat) :
    libraries.manifestFromSlice (manifestJson format) = .ok (manifest format) := by
  have hne : manifestJson .parquet ≠ manifestJson .json := by
    refine utf8_injective.ne fun heq => ?_
    have hnodup := nodup_digests
    simp [digests, heq] at hnodup
  simp only [libraries]
  cases format with
  | json => rw [if_pos rfl]
  | parquet => rw [if_neg hne, if_pos rfl]

/-- One record whose payload is in the table. -/
theorem prepare_of_serialize {format : ArchiveFormat} {r : Record}
    (hvalid : validateRecords bucket [r] = .ok ())
    (hserialize : format.serialize libraries [r] = .ok (payload format)) :
    prepare libraries (store format) bucket (some 1) [r] =
      .ok (payload format, manifest format, manifestJson format, manifestKey format) := by
  have hsha : sha256 libraries (payload format) = hexEncode (payloadSha format) :=
    congrArg hexEncode (digest_payload format)
  have hnew : ArchiveManifest.new libraries bucket (some 1) format ((store format).contentPayloadKey
      bucket (some 1) (hexEncode (payloadSha format))) [r] (payload format) = manifest format := by
    rw [ArchiveManifest.new, hsha]
    rfl
  have hkey : sha256 libraries (manifestJson format) = hexEncode (manifestSha format) :=
    congrArg hexEncode (digest_manifestJson format)
  have hformat : (store format).format = format := rfl
  rw [prepare, hvalid, ok_bind, hformat, hserialize, ok_bind]
  dsimp only
  rw [hsha, hnew, manifestToVec_manifest]
  dsimp only [Except.mapError]
  rw [ok_bind, hkey]
  rfl

/-- **The record is written, as the format `format` has it.** -/
theorem prepare_record : prepare libraries (store .json) bucket (some 1) [record] =
    .ok (payload .json, manifest .json, manifestJson .json, manifestKey .json) := by
  refine prepare_of_serialize (validateRecords_eq_ok.mpr ⟨by decide, .singleton _⟩) ?_
  simp only [ArchiveFormat.serialize, libraries, if_true]
  rfl

theorem prepare_leapRecord : prepare libraries (store .parquet) bucket (some 1) [leapRecord] =
    .ok (payload .parquet, manifest .parquet, manifestJson .parquet, manifestKey .parquet) := by
  have hrow : [leapRecord].mapM rowOf = .ok [leapRow] := by decide
  refine prepare_of_serialize (validateRecords_eq_ok.mpr ⟨by decide, .singleton _⟩) ?_
  simp only [ArchiveFormat.serialize, serializeParquet, hrow, ok_bind, libraries, if_true]
  rfl

/-- Both are written by the first upload. -/
theorem exists_writeRecords {format : ArchiveFormat} {r : Record}
    (h : prepare libraries (store format) bucket (some 1) [r] =
      .ok (payload format, manifest format, manifestJson format, manifestKey format)) :
    ∃ o', writeRecords libraries (store format) .fine .fine bucket (some 1) [r] (fun _ => none) =
      (.ok (manifestKey format), o') :=
  writeRecords_of_empty libraries_lawful h (manifestFromSlice_manifestJson format)

end Sample

/-- A record written as JSON. -/
theorem read_back_iff_of_json : ∃ key o',
    writeRecords Sample.libraries (Sample.store .json) .fine .fine Pulpitum.Sample.bucket (some 1)
      [Pulpitum.Sample.record] (fun _ => none) = (.ok key, o') ∧
    (getBucket Sample.libraries Pulpitum.Sample.bucket key o' = .ok [Pulpitum.Sample.record] ↔
      (Sample.store .json).format = .json ∨
        ∀ r ∈ [Pulpitum.Sample.record], ¬ r.eventTime.IsLeapSecond) := by
  obtain ⟨o', h⟩ := Sample.exists_writeRecords Sample.prepare_record
  exact ⟨_, o', h, read_back_iff Sample.libraries_lawful h⟩

/-- **A leap second written as Parquet comes back as another record.** -/
theorem leap_second_reads_back_late : ∃ key o' late,
    Sample.libraries.Lawful ∧
    writeRecords Sample.libraries (Sample.store .parquet) .fine .fine Pulpitum.Sample.bucket
      (some 1) [Sample.leapRecord] (fun _ => none) = (.ok key, o') ∧
    getBucket Sample.libraries Pulpitum.Sample.bucket key o' = .ok [late] ∧
    late ≠ Sample.leapRecord := by
  obtain ⟨o', h⟩ := Sample.exists_writeRecords Sample.prepare_leapRecord
  refine ⟨_, o', Sample.lateRecord, Sample.libraries_lawful, h, ?_, by decide⟩
  rw [getBucket_written Sample.libraries_lawful h]
  simp only [Sample.store, List.map_cons, List.map_nil, Sample.readBack_leapRecord]
  rfl

end Pulpitum.OpenDal
