import Mathlib
import Pulpitum.Support.Fallible
import Pulpitum.Adapters.CockroachTables

/-!
# Adapters — Cockroach store

`CockroachDurableBucketStore`: each operation is one serializable transaction over the two
tables.  An operation is a function of the database that either fails, and then its transaction
is rolled back, or returns its value and the database after it.  What it reads besides the
database — the server's `now()`, the client's clock and a fresh token — is an `Env`.

* `exec_effect`: **what an operation can do** to the tables, with the reply it then gives.
-/

namespace Pulpitum
namespace Cockroach
open Fallible

/-- What an operation reads besides the database. -/
structure Env where
  /-- The server's `now()`. -/
  now : SqlTime
  /-- The client's `Utc::now()`. -/
  utcNow : DateTime
  /-- The client's `Uuid::new_v4()`. -/
  token : String

/-! ### Conditions -/

/-- `archive_next_attempt_at IS NULL OR archive_next_attempt_at <= now()`. -/
def attemptDue (m : MetadataRow) (now : SqlTime) : Bool :=
  match m.archiveNextAttemptAt with
  | none => true
  | some t => t ≤ now

/-- `archive_owner_expires_at <= now()`; a null is not expired here. -/
def leaseOver (m : MetadataRow) (now : SqlTime) : Bool :=
  match m.archiveOwnerExpiresAt with
  | none => false
  | some t => t ≤ now

/-- `generation = $3 AND archive_owner_token = $4 AND archive_owner_expires_at > now()`. -/
def heldBy (m : MetadataRow) (session : ArchiveSession) (now : SqlTime) : Bool :=
  m.generation = session.generation && m.archiveOwnerToken = some session.ownerToken &&
    match m.archiveOwnerExpiresAt with
    | none => false
    | some t => now < t

/-- `archive_lease_expiry`, as the driver sends it. -/
def archiveLeaseExpiry (utcNow : DateTime) (leaseFor : Duration) :
    Except DurableBucketStoreError SqlTime :=
  if leaseFor = 0 then .error .operationFailed
  else match DateTime.ofNanos (utcNow.nanos + leaseFor) with
    | none => .error .operationFailed
    | some t => .ok t.toSql

/-- `i64::try_from` on the generation of a session. -/
def sessionGeneration (session : ArchiveSession) : Except DurableBucketStoreError ℕ :=
  if session.generation < 2 ^ 63 then .ok session.generation else .error .operationFailed

/-- `metadata_state`. -/
def metadataState (m : MetadataRow) : Except DurableBucketStoreError BucketState :=
  if m.archiveOwnerExpiresAt.map DateTime.fromSql = some none then .error .operationFailed
  else match m.state, m.archiveOwnerToken, m.archiveObjectKey with
    | .hot, none, none =>
        if m.archiveOwnerExpiresAt.isNone && !m.hotDeleted then .ok .hot
        else .error .operationFailed
    | .archiving, some _, none =>
        if m.archiveOwnerExpiresAt.isSome && !m.hotDeleted then .ok .archiving
        else .error .operationFailed
    | .archived, some _, some objectKey => .ok (.archived objectKey m.hotDeleted)
    | _, _, _ => .error .operationFailed

/-- `state_from_metadata`. -/
def stateFromMetadata (db : Db) (bucket : BucketId) :
    Except DurableBucketStoreError (Option BucketState) :=
  match db.metadata.find? (refOf bucket) with
  | none => .ok none
  | some m => some <$> metadataState m

/-- `bucket_from_row`. -/
def bucketFromRow (m : MetadataRow) : Except DurableBucketStoreError BucketId :=
  match DateTime.fromSql m.bucketStart, DateTime.fromSql m.bucketEnd with
  | some start, some endAt =>
      .ok
        { tableId := m.tableId
          partitionKey := m.partitionKey
          strategy := m.bucketStrategy
          key := m.bucketKey
          start := start
          endAt := endAt }
  | _, _ => .error .operationFailed

/-- The record rows of a bucket, `ORDER BY event_time, sort_key`. -/
def sortRows (rows : List RecordRow) : List RecordRow :=
  rows.insertionSort fun a b => toLex (a.eventTime, a.sortKey) ≤ toLex (b.eventTime, b.sortKey)

/-- Decode every row, as the driver does.  A row that does not decode makes `snapshot` panic and
`read_range` fail; both are a failure here. -/
def decodeRows (rows : List RecordRow) : Except DurableBucketStoreError (List Record) :=
  match rows.mapM RecordRow.decode with
  | none => .error .operationFailed
  | some records => .ok records

/-! ### The operations -/

/-- `append`. -/
def append (bucket : BucketId) (record : Record) (db : Db) :
    Except DurableBucketStoreError (Unit × Db) := do
  if db.metadata.rows.any fun m =>
      m.tableId = bucket.tableId && m.bucketStrategy ≠ bucket.strategy then
    throw .bucketStrategyMismatch
  let db ← db.insertMetadata (.new bucket)
  match ← stateFromMetadata db bucket with
  | none => throw .operationFailed
  | some .hot =>
      let db ← db.insertRecord (.new bucket record)
      return ((), db)
  | some state => throw (.bucketReadOnly state)

/-- `state`. -/
def state (bucket : BucketId) (db : Db) : Except DurableBucketStoreError (BucketState × Db) := do
  let state ← stateFromMetadata db bucket
  return (state.getD .hot, db)

/-- What `discover_archive_work` orders by. -/
def discoveryKey (m : MetadataRow) : SqlTime ×ₗ String ×ₗ PartitionKey ×ₗ String :=
  toLex (m.bucketEnd, toLex (m.tableId.asStr, toLex (m.partitionKey, m.bucketKey.asStr)))

/-- `discover_archive_work`. -/
def discoverArchiveWork (env : Env) (scan : ArchiveScan) (db : Db) :
    Except DurableBucketStoreError (List ArchiveWork × Db) := do
  let select (p : MetadataRow → Bool) (limit : ℕ) :=
    ((db.metadata.rows.filter p).insertionSort fun a b =>
      discoveryKey a ≤ discoveryKey b).take limit
  let cleanup ← (select (fun m => m.state = .archived && !m.hotDeleted && attemptDue m env.now &&
      (m.archiveOwnerExpiresAt.isNone || leaseOver m env.now)) scan.limit).mapM bucketFromRow
  let remaining := scan.limit - cleanup.length
  if remaining = 0 then return (cleanup.map .cleanup, db)
  let cutover ← (select (fun m => m.bucketEnd ≤ scan.eligibleBefore.toSql &&
      attemptDue m env.now && (m.state = .hot || (m.state = .archiving && leaseOver m env.now)))
    remaining).mapM bucketFromRow
  return (cleanup.map .cleanup ++ cutover.map .cutover, db)

/-- `claim_archive`. -/
def claimArchive (env : Env) (bucket : BucketId) (leaseFor : Duration) (db : Db) :
    Except DurableBucketStoreError (Option ArchiveSession × Db) := do
  let expiresAt ← archiveLeaseExpiry env.utcNow leaseFor
  let (row, db) ← db.updateMetadata (refOf bucket)
    (fun m => attemptDue m env.now &&
      (m.state = .hot || (m.state = .archiving && leaseOver m env.now)))
    (fun m =>
      { m with
        state := .archiving
        generation := m.generation + 1
        archiveOwnerToken := some env.token
        archiveOwnerExpiresAt := some expiresAt
        archiveNextAttemptAt := none
        archiveObjectKey := none
        hotDeleted := false })
  return (row.map fun m => ⟨bucket, env.token, m.generation⟩, db)

/-- `claim_cleanup`. -/
def claimCleanup (env : Env) (bucket : BucketId) (leaseFor : Duration) (db : Db) :
    Except DurableBucketStoreError (Option ArchiveSession × Db) := do
  let expiresAt ← archiveLeaseExpiry env.utcNow leaseFor
  let (row, db) ← db.updateMetadata (refOf bucket)
    (fun m => m.state = .archived && !m.hotDeleted && attemptDue m env.now &&
      (m.archiveOwnerExpiresAt.isNone || leaseOver m env.now))
    (fun m =>
      { m with
        generation := m.generation + 1
        archiveOwnerToken := some env.token
        archiveOwnerExpiresAt := some expiresAt
        archiveNextAttemptAt := none })
  return (row.map fun m => ⟨bucket, env.token, m.generation⟩, db)

/-- An `UPDATE` that must match one row, or the session is stale. -/
def updateOwned (db : Db) (session : ArchiveSession) (p : MetadataRow → Bool)
    (f : MetadataRow → MetadataRow)
    (hf : ∀ m, (f m).ref = m.ref := by intro _; rfl) :
    Except DurableBucketStoreError (Unit × Db) := do
  match ← db.updateMetadata (refOf session.bucket) p f hf with
  | (some _, db) => return ((), db)
  | (none, _) => throw .staleArchiveSession

/-- `renew_archive_lease`. -/
def renewArchiveLease (env : Env) (session : ArchiveSession) (leaseFor : Duration) (db : Db) :
    Except DurableBucketStoreError (Unit × Db) := do
  let _ ← sessionGeneration session
  let expiresAt ← archiveLeaseExpiry env.utcNow leaseFor
  updateOwned db session
    (fun m => heldBy m session env.now &&
      (m.state = .archiving || (m.state = .archived && !m.hotDeleted)))
    (fun m => { m with archiveOwnerExpiresAt := some expiresAt })

/-- `defer_archive`. -/
def deferArchive (env : Env) (session : ArchiveSession) (retryAfter : Duration) (db : Db) :
    Except DurableBucketStoreError (Unit × Db) := do
  let _ ← sessionGeneration session
  let retryAt ← archiveLeaseExpiry env.utcNow retryAfter
  updateOwned db session (fun m => m.state = .archiving && heldBy m session env.now)
    (fun m =>
      { m with
        state := .hot
        archiveOwnerToken := none
        archiveOwnerExpiresAt := none
        archiveObjectKey := none
        hotDeleted := false
        archiveAttempts := m.archiveAttempts + 1
        archiveNextAttemptAt := some retryAt })

/-- `defer_cleanup`. -/
def deferCleanup (env : Env) (session : ArchiveSession) (retryAfter : Duration) (db : Db) :
    Except DurableBucketStoreError (Unit × Db) := do
  let _ ← sessionGeneration session
  let retryAt ← archiveLeaseExpiry env.utcNow retryAfter
  updateOwned db session
    (fun m => m.state = .archived && !m.hotDeleted && heldBy m session env.now)
    (fun m =>
      { m with
        archiveOwnerExpiresAt := some retryAt
        archiveAttempts := m.archiveAttempts + 1
        archiveNextAttemptAt := some retryAt })

/-- The record rows of a bucket. -/
def rowsOf (db : Db) (k : BucketRef) : List RecordRow := db.records.rows.filter fun r => r.ref = k

/-- `routed_read_from_snapshot`. -/
def routedReadFromSnapshot (state : RowState) (objectKey : Option String) (records : List Record) :
    Except DurableBucketStoreError DurableBucketRead :=
  match state, objectKey with
  | .hot, none | .archiving, none => .ok (.hot records)
  | .archived, some objectKey =>
      if records.isEmpty then .ok (.archive objectKey) else .error .operationFailed
  | _, _ => .error .operationFailed

/-- `limit` as the statement takes it: an `i64`. -/
def sqlLimit (limit : ℕ) : ℕ := min limit (2 ^ 63 - 1)

/-- `event_time >= $3 AND event_time < $4`. -/
def inSqlRange (range : TimeRange) (r : RecordRow) : Bool :=
  range.start.toSql ≤ r.eventTime && r.eventTime < range.endAt.toSql

/-- `(event_time, sort_key) > ($5, $6)`. -/
def afterSqlCursor (after : Option Cursor) (r : RecordRow) : Bool :=
  match after with
  | none => true
  | some c => toLex (c.eventTime.toSql, c.sortKey) < toLex (r.eventTime, r.sortKey)

/-- The statement of `read_range`, past the route cache. -/
def readRange (bucket : BucketId) (range : TimeRange) (after : Option Cursor) (limit : ℕ)
    (db : Db) : Except DurableBucketStoreError (DurableBucketRead × Db) := do
  let (state, objectKey) := match db.metadata.find? (refOf bucket) with
    | some m => (m.state, m.archiveObjectKey)
    | none => (RowState.hot, none)
  let rows := (rowsOf db (refOf bucket)).filter fun r =>
    state ≠ .archived && inSqlRange range r && afterSqlCursor after r
  let records ← decodeRows ((sortRows rows).take (sqlLimit limit))
  let read ← routedReadFromSnapshot state objectKey records
  return (read, db)

/-- `begin_archive`. -/
def beginArchive (env : Env) (bucket : BucketId) (db : Db) :
    Except DurableBucketStoreError (ArchiveSession × Db) := do
  let db ← db.insertMetadata (.new bucket)
  match ← db.updateMetadata (refOf bucket)
      (fun m => m.state = .hot || (m.state = .archiving && leaseOver m env.now))
      (fun m =>
        { m with
          state := .archiving
          generation := m.generation + 1
          archiveOwnerToken := some env.token
          archiveOwnerExpiresAt := some (env.now + 300000000)
          archiveObjectKey := none
          hotDeleted := false }) with
  | (some m, db) => return (⟨bucket, env.token, m.generation⟩, db)
  | (none, db) =>
      match ← stateFromMetadata db bucket with
      | none => throw .operationFailed
      | some state => throw (.archiveNotAllowed state)

/-- `snapshot`. -/
def snapshot (env : Env) (session : ArchiveSession) (db : Db) :
    Except DurableBucketStoreError (List Record × Db) := do
  let _ ← sessionGeneration session
  match db.metadata.find? (refOf session.bucket) with
  | none => throw .staleArchiveSession
  | some m =>
      if m.state = .archiving && heldBy m session env.now then
        let records ← decodeRows (sortRows (rowsOf db (refOf session.bucket)))
        return (records, db)
      else throw .staleArchiveSession

/-- `publish_archive`. -/
def publishArchive (env : Env) (session : ArchiveSession) (objectKey : String) (db : Db) :
    Except DurableBucketStoreError (Unit × Db) := do
  let _ ← sessionGeneration session
  updateOwned db session (fun m => m.state = .archiving && heldBy m session env.now)
    (fun m =>
      { m with
        state := .archived
        archiveObjectKey := some objectKey
        hotDeleted := false })

/-- The condition of both statements of `delete_hot_bucket`. -/
def cleanable (m : MetadataRow) (session : ArchiveSession) (now : SqlTime) : Bool :=
  m.state = .archived && heldBy m session now && !m.hotDeleted

/-- `delete_hot_bucket`. -/
def deleteHotBucket (env : Env) (session : ArchiveSession) (db : Db) :
    Except DurableBucketStoreError (Unit × Db) := do
  let _ ← sessionGeneration session
  let db := db.deleteRecords fun r => r.ref = refOf session.bucket &&
    (db.metadata.find? (refOf session.bucket)).any fun m => cleanable m session env.now
  updateOwned db session (fun m => cleanable m session env.now)
    (fun m => { m with hotDeleted := true })

/-- `abort_archive`. -/
def abortArchive (env : Env) (session : ArchiveSession) (db : Db) :
    Except DurableBucketStoreError (Unit × Db) := do
  let _ ← sessionGeneration session
  updateOwned db session (fun m => m.state = .archiving && heldBy m session env.now)
    (fun m =>
      { m with
        state := .hot
        archiveOwnerToken := none
        archiveOwnerExpiresAt := none
        archiveObjectKey := none
        hotDeleted := false })

/-- The body of an operation's transaction. -/
def body (env : Env) : (q : StoreRequest) → Db → Except DurableBucketStoreError (q.Value × Db)
  | .append bucket record => append bucket record
  | .state bucket => state bucket
  | .discoverArchiveWork scan => discoverArchiveWork env scan
  | .claimArchive bucket leaseFor => claimArchive env bucket leaseFor
  | .claimCleanup bucket leaseFor => claimCleanup env bucket leaseFor
  | .renewArchiveLease session leaseFor => renewArchiveLease env session leaseFor
  | .deferArchive session retryAfter => deferArchive env session retryAfter
  | .deferCleanup session retryAfter => deferCleanup env session retryAfter
  | .readRange bucket range after limit => readRange bucket range after limit
  | .beginArchive bucket => beginArchive env bucket
  | .snapshot session => snapshot env session
  | .publishArchive session objectKey => publishArchive env session objectKey
  | .deleteHotBucket session => deleteHotBucket env session
  | .abortArchive session => abortArchive env session

/-- One operation: its transaction commits, or fails and is rolled back. -/
def exec (env : Env) (q : StoreRequest) (db : Db) : q.Reply × Db :=
  match body env q db with
  | .ok (v, db') => (.ok v, db')
  | .error e => (.error e, db)

/-! ### What an operation can do -/

/-- `db'` is `db` with the metadata row of `k` set to `m`. -/
structure SetsRow (db : Db) (k : BucketRef) (m : MetadataRow) (db' : Db) : Prop where
  check : m.Check
  find? : ∀ k', db'.metadata.find? k' = if k = k' then some m else db.metadata.find? k'

/-- The metadata row of a bucket, or the one an insert would write. -/
def rowOrNew (db : Db) (b : BucketId) : MetadataRow :=
  (db.metadata.find? (refOf b)).getD (.new b)

/-- What an operation can do, with the reply it then gives. -/
inductive Effect (env : Env) (db : Db) : (q : StoreRequest) → q.Reply → Db → Prop where
  /-- A read, a claim that finds nothing to claim, or a failure. -/
  | look {q : StoreRequest} {r : q.Reply} (ha : q.appended? r = none) (hi : q.issued? r = none)
      (hs : ∀ v, r = .ok v → q.session? = none) : Effect env db q r db
  | append {b : BucketId} {r : Record} {db' : Db}
      (hs : ∀ m ∈ db.metadata.rows, m.tableId = b.tableId → m.bucketStrategy = b.strategy)
      (hp : (rowOrNew db b).state = .hot) (hm : SetsRow db (refOf b) (rowOrNew db b) db')
      (fresh : db.records.find? (RecordRow.new b r).key = none)
      (hr : db'.records.rows = db.records.rows ++ [.new b r]) :
      Effect env db (.append b r) (.ok ()) db'
  | claimArchive {b : BucketId} {d : Duration} {m : MetadataRow} {t : SqlTime} {db' : Db}
      (hk : db.metadata.find? (refOf b) = some m)
      (hp : m.state = .hot ∨ m.state = .archiving ∧ leaseOver m env.now = true)
      (hm : SetsRow db (refOf b)
        { m with
          state := .archiving
          generation := m.generation + 1
          archiveOwnerToken := some env.token
          archiveOwnerExpiresAt := some t
          archiveNextAttemptAt := none
          archiveObjectKey := none
          hotDeleted := false } db')
      (hr : db'.records = db.records) :
      Effect env db (.claimArchive b d) (.ok (some ⟨b, env.token, m.generation + 1⟩)) db'
  | claimCleanup {b : BucketId} {d : Duration} {m : MetadataRow} {t : SqlTime} {db' : Db}
      (hk : db.metadata.find? (refOf b) = some m) (hp : m.state = .archived ∧ m.hotDeleted = false)
      (hm : SetsRow db (refOf b)
        { m with
          generation := m.generation + 1
          archiveOwnerToken := some env.token
          archiveOwnerExpiresAt := some t
          archiveNextAttemptAt := none } db')
      (hr : db'.records = db.records) :
      Effect env db (.claimCleanup b d) (.ok (some ⟨b, env.token, m.generation + 1⟩)) db'
  | beginArchive {b : BucketId} {db' : Db}
      (hp : (rowOrNew db b).state = .hot ∨
        (rowOrNew db b).state = .archiving ∧ leaseOver (rowOrNew db b) env.now = true)
      (hm : SetsRow db (refOf b)
        { rowOrNew db b with
          state := .archiving
          generation := (rowOrNew db b).generation + 1
          archiveOwnerToken := some env.token
          archiveOwnerExpiresAt := some (env.now + 300000000)
          archiveObjectKey := none
          hotDeleted := false } db')
      (hr : db'.records = db.records) :
      Effect env db (.beginArchive b) (.ok ⟨b, env.token, (rowOrNew db b).generation + 1⟩) db'
  | renew {session : ArchiveSession} {d : Duration} {m : MetadataRow} {t : SqlTime} {db' : Db}
      (hk : db.metadata.find? (refOf session.bucket) = some m)
      (held : heldBy m session env.now = true)
      (hm : SetsRow db (refOf session.bucket) { m with archiveOwnerExpiresAt := some t } db')
      (hr : db'.records = db.records) :
      Effect env db (.renewArchiveLease session d) (.ok ()) db'
  | deferArchive {session : ArchiveSession} {d : Duration} {m : MetadataRow} {t : SqlTime}
      {db' : Db} (hk : db.metadata.find? (refOf session.bucket) = some m)
      (hp : m.state = .archiving) (held : heldBy m session env.now = true)
      (hm : SetsRow db (refOf session.bucket)
        { m with
          state := .hot
          archiveOwnerToken := none
          archiveOwnerExpiresAt := none
          archiveObjectKey := none
          hotDeleted := false
          archiveAttempts := m.archiveAttempts + 1
          archiveNextAttemptAt := some t } db')
      (hr : db'.records = db.records) :
      Effect env db (.deferArchive session d) (.ok ()) db'
  | deferCleanup {session : ArchiveSession} {d : Duration} {m : MetadataRow} {t : SqlTime}
      {db' : Db} (hk : db.metadata.find? (refOf session.bucket) = some m)
      (hp : m.state = .archived ∧ m.hotDeleted = false) (held : heldBy m session env.now = true)
      (hm : SetsRow db (refOf session.bucket)
        { m with
          archiveOwnerExpiresAt := some t
          archiveAttempts := m.archiveAttempts + 1
          archiveNextAttemptAt := some t } db')
      (hr : db'.records = db.records) :
      Effect env db (.deferCleanup session d) (.ok ()) db'
  | snapshot {session : ArchiveSession} {m : MetadataRow} {records : List Record}
      (hk : db.metadata.find? (refOf session.bucket) = some m)
      (hp : m.state = .archiving) (held : heldBy m session env.now = true)
      (hd : decodeRows (sortRows (rowsOf db (refOf session.bucket))) = .ok records) :
      Effect env db (.snapshot session) (.ok records) db
  | publish {session : ArchiveSession} {key : String} {m : MetadataRow} {db' : Db}
      (hk : db.metadata.find? (refOf session.bucket) = some m)
      (hp : m.state = .archiving) (held : heldBy m session env.now = true)
      (hm : SetsRow db (refOf session.bucket)
        { m with
          state := .archived
          archiveObjectKey := some key
          hotDeleted := false } db')
      (hr : db'.records = db.records) :
      Effect env db (.publishArchive session key) (.ok ()) db'
  | deleteHot {session : ArchiveSession} {m : MetadataRow} {db' : Db}
      (hk : db.metadata.find? (refOf session.bucket) = some m)
      (hp : m.state = .archived ∧ m.hotDeleted = false) (held : heldBy m session env.now = true)
      (hm : SetsRow db (refOf session.bucket) { m with hotDeleted := true } db')
      (hr : db'.records.rows = db.records.rows.filter fun r => r.ref ≠ refOf session.bucket) :
      Effect env db (.deleteHotBucket session) (.ok ()) db'
  | abort {session : ArchiveSession} {m : MetadataRow} {db' : Db}
      (hk : db.metadata.find? (refOf session.bucket) = some m)
      (hp : m.state = .archiving) (held : heldBy m session env.now = true)
      (hm : SetsRow db (refOf session.bucket)
        { m with
          state := .hot
          archiveOwnerToken := none
          archiveOwnerExpiresAt := none
          archiveObjectKey := none
          hotDeleted := false } db')
      (hr : db'.records = db.records) :
      Effect env db (.abortArchive session) (.ok ()) db'

theorem ref_new {b : BucketId} {record : Record} (hp : b.partitionKey = record.partitionKey) :
    (RecordRow.new b record).ref = refOf b := by
  rw [refOf, hp]; rfl

section Rows

variable {db db' : Db}

theorem rowsOf_congr (h : db'.records = db.records) (k : BucketRef) :
    rowsOf db' k = rowsOf db k := by
  rw [rowsOf, rowsOf, h]

/-- A new row goes to the bucket it refers to. -/
theorem rowsOf_append {row : RecordRow} (h : db'.records.rows = db.records.rows ++ [row])
    (k : BucketRef) : rowsOf db' k = rowsOf db k ++ if row.ref = k then [row] else [] := by
  rw [rowsOf, rowsOf, h, List.filter_append]
  by_cases e : row.ref = k
  · simp [e]
  · simp [e]

/-- Deleting the rows of one bucket leaves those of the others. -/
theorem rowsOf_delete {k : BucketRef}
    (h : db'.records.rows = db.records.rows.filter fun r => r.ref ≠ k) (k' : BucketRef) :
    rowsOf db' k' = if k = k' then [] else rowsOf db k' := by
  rw [rowsOf, rowsOf, h, List.filter_filter]
  by_cases e : k = k'
  · rw [if_pos e, List.filter_eq_nil_iff]
    simp [e]
  · rw [if_neg e]
    refine List.filter_congr fun r _ => ?_
    by_cases hr : r.ref = k'
    · simp [hr, Ne.symm e]
    · simp [hr]

end Rows

section Inversion

variable {env : Env} {db db' : Db} {session : ArchiveSession}

theorem ref_rowOrNew (db : Db) (b : BucketId) : (rowOrNew db b).ref = refOf b := by
  unfold rowOrNew
  cases h : db.metadata.find? (refOf b) with
  | none => rfl
  | some m => exact Table.key_of_find? h

/-- An `UPDATE` that matched changed the row of the session's bucket. -/
theorem updateOwned_ok {p : MetadataRow → Bool} {f : MetadataRow → MetadataRow}
    {hf : ∀ m, (f m).ref = m.ref} (h : updateOwned db session p f hf = .ok ((), db')) :
    ∃ m, db.metadata.find? (refOf session.bucket) = some m ∧ p m = true ∧
      SetsRow db (refOf session.bucket) (f m) db' ∧ db'.records = db.records := by
  obtain ⟨⟨updated, db₁⟩, h₁, h⟩ := ok_of_bind h
  cases updated with
  | none => cases h
  | some m' =>
      cases h
      rcases Db.updateMetadata_ok h₁ with ⟨h, -⟩ | ⟨m, hk, hp, -, hc, hr, hfind, -⟩
      · cases h
      · exact ⟨m, hk, hp, ⟨hc, hfind⟩, hr⟩

theorem insertMetadata_setsRow {b : BucketId} (h : db.insertMetadata (.new b) = .ok db') :
    SetsRow db (refOf b) (rowOrNew db b) db' ∧ db'.records = db.records ∧
      db'.metadata.find? (refOf b) = some (rowOrNew db b) := by
  obtain ⟨hr, hfind, -⟩ := Db.insertMetadata_ok h
  have hself : db'.metadata.find? (refOf b) = some (rowOrNew db b) := by
    rw [hfind]; exact if_pos rfl
  refine ⟨⟨Table.check_of_find? hself, fun k' => ?_⟩, hr, hself⟩
  rw [hfind]
  by_cases e : refOf b = k'
  · subst e
    rw [if_pos rfl]; exact if_pos rfl
  · rw [if_neg e]; exact if_neg e

theorem metadataState_eq_hot {m : MetadataRow} (h : metadataState m = .ok .hot) :
    m.state = .hot := by
  unfold metadataState at h
  split at h
  · cases h
  · split at h
    · assumption
    · split at h <;> cases h
    · cases h
    · cases h

theorem metadataState_error {m : MetadataRow} {e : DurableBucketStoreError}
    (h : metadataState m = .error e) : e = .operationFailed := by
  unfold metadataState at h
  split at h
  · exact (Except.error.inj h).symm
  · split at h
    · split at h
      · cases h
      · exact (Except.error.inj h).symm
    · split at h
      · cases h
      · exact (Except.error.inj h).symm
    · cases h
    · exact (Except.error.inj h).symm

/-- `append` fails with a mismatch only when a row of the table has another strategy. -/
theorem append_mismatch {b : BucketId} {r : Record}
    (h : append b r db = .error .bucketStrategyMismatch) :
    ∃ m ∈ db.metadata.rows, m.tableId = b.tableId ∧ m.bucketStrategy ≠ b.strategy := by
  unfold append at h
  split at h
  · rename_i hany
    obtain ⟨m, hm, hp⟩ := List.any_eq_true.mp hany
    exact ⟨m, hm, by simpa using hp⟩
  · exfalso
    rcases error_of_bind h with h | ⟨db₁, -, h⟩
    · unfold Db.insertMetadata at h
      split at h <;> cases h
    rcases error_of_bind h with h | ⟨st, -, h⟩
    · unfold stateFromMetadata at h
      split at h
      · cases h
      · rcases error_of_bind (f := fun a => .ok (some a)) h with h | ⟨_, _, h⟩
        · cases metadataState_error h
        · cases h
    split at h
    · cases h
    · rcases error_of_bind h with h | ⟨db₂, _, h⟩
      · unfold Db.insertRecord at h
        split at h
        · split at h <;> cases h
        · cases h
      · cases h
    · cases h

theorem append_effect {b : BucketId} {r : Record} (h : append b r db = .ok ((), db')) :
    Effect env db (.append b r) (.ok ()) db' := by
  unfold append at h
  split at h
  · cases h
  rename_i hany
  obtain ⟨db₁, h₁, h⟩ := ok_of_bind h
  obtain ⟨hset, hrec, hself⟩ := insertMetadata_setsRow h₁
  obtain ⟨st, hst, h⟩ := ok_of_bind h
  split at h
  · cases h
  · obtain ⟨db₂, h₂, h⟩ := ok_of_bind h
    cases h
    obtain ⟨hmeta, hrows, hfresh, -⟩ := Db.insertRecord_ok h₂
    rw [stateFromMetadata, hself] at hst
    obtain ⟨st', hst', he⟩ := ok_of_bind (f := fun a => .ok (some a)) hst
    cases he
    refine .append (fun m hm ht => ?_) (metadataState_eq_hot hst') ⟨hset.check, ?_⟩
      (hrec ▸ hfresh) (hrec ▸ hrows)
    · by_contra hne
      refine hany (List.any_eq_true.mpr ⟨m, hm, ?_⟩)
      simp [ht, hne]
    · rw [hmeta]; exact hset.find?
  · cases h

theorem claimArchive_effect {b : BucketId} {d : Duration} {o : Option ArchiveSession}
    (h : claimArchive env b d db = .ok (o, db')) :
    Effect env db (.claimArchive b d) (.ok o) db' := by
  obtain ⟨t, -, h⟩ := ok_of_bind h
  obtain ⟨⟨row, db₁⟩, h₁, h⟩ := ok_of_bind h
  cases h
  rcases Db.updateMetadata_ok h₁ with ⟨rfl, rfl, -⟩ | ⟨m, hk, hp, rfl, hc, hr, hfind, -⟩
  · exact .look rfl rfl fun _ _ => rfl
  · refine .claimArchive hk ?_ ⟨hc, hfind⟩ hr
    simpa using (Bool.and_eq_true_iff.mp hp).2

theorem claimCleanup_effect {b : BucketId} {d : Duration} {o : Option ArchiveSession}
    (h : claimCleanup env b d db = .ok (o, db')) :
    Effect env db (.claimCleanup b d) (.ok o) db' := by
  obtain ⟨t, -, h⟩ := ok_of_bind h
  obtain ⟨⟨row, db₁⟩, h₁, h⟩ := ok_of_bind h
  cases h
  rcases Db.updateMetadata_ok h₁ with ⟨rfl, rfl, -⟩ | ⟨m, hk, hp, rfl, hc, hr, hfind, -⟩
  · exact .look rfl rfl fun _ _ => rfl
  · simp only [Bool.and_eq_true, decide_eq_true_eq, Bool.not_eq_true'] at hp
    exact .claimCleanup hk hp.1.1 ⟨hc, hfind⟩ hr

theorem beginArchive_effect {b : BucketId} {x : ArchiveSession}
    (h : beginArchive env b db = .ok (x, db')) :
    Effect env db (.beginArchive b) (.ok x) db' := by
  obtain ⟨db₁, h₁, h⟩ := ok_of_bind h
  obtain ⟨hset, hrec, hself⟩ := insertMetadata_setsRow h₁
  obtain ⟨⟨row, db₂⟩, h₂, h⟩ := ok_of_bind h
  cases row with
  | none =>
      obtain ⟨st, -, h⟩ := ok_of_bind h
      cases st <;> cases h
  | some m' =>
      cases h
      rcases Db.updateMetadata_ok h₂ with ⟨h, -⟩ | ⟨m, hk, hp, hm', hc, hr, hfind, -⟩
      · cases h
      · obtain rfl := Option.some.inj (hself.symm.trans hk)
        obtain rfl := Option.some.inj hm'
        refine .beginArchive (by simpa using hp) ⟨hc, fun k' => ?_⟩ (hr.trans hrec)
        rw [hfind]
        split
        · rfl
        · rename_i e; rw [hset.find?, if_neg e]

/-- `begin_archive` on a bucket without a row succeeds when the schema accepts its bounds. -/
theorem beginArchive_of_absent (env : Env) {b : BucketId}
    (hk : db.metadata.find? (refOf b) = none) (hb : b.start.toSql < b.endAt.toSql) :
    ∃ x, (exec env (.beginArchive b) db).1 = .ok x := by
  have hrow : rowOrNew db b = .new b := by rw [rowOrNew, hk]; rfl
  obtain ⟨db₁, h₁⟩ := Db.insertMetadata_of_absent (.new b) hk
    ⟨hb, .inl ⟨rfl, rfl, rfl, rfl, rfl⟩, by simp [MetadataRow.new], by simp [MetadataRow.new]⟩
  have hself := (insertMetadata_setsRow h₁).2.2
  rw [hrow] at hself
  obtain ⟨db₂, h₂⟩ := Db.updateMetadata_of_match
    (p := fun m => m.state = .hot || (m.state = .archiving && leaseOver m env.now))
    (f := fun m =>
      { m with
        state := .archiving
        generation := m.generation + 1
        archiveOwnerToken := some env.token
        archiveOwnerExpiresAt := some (env.now + 300000000)
        archiveObjectKey := none
        hotDeleted := false })
    (fun _ => rfl) hself rfl
    ⟨hb, .inr (.inl ⟨rfl, by simp, by simp, rfl, rfl⟩), by simp [MetadataRow.new],
      by simp [MetadataRow.new]⟩
  refine ⟨⟨b, env.token, 1⟩, ?_⟩
  have hbody : body env (.beginArchive b) db = .ok (⟨b, env.token, 1⟩, db₂) := by
    change beginArchive env b db = _
    unfold beginArchive
    rw [h₁]
    change (db₁.updateMetadata _ _ _ >>= _) = _
    rw [h₂]; rfl
  rw [exec, hbody]

theorem snapshot_effect {records : List Record}
    (h : snapshot env session db = .ok (records, db')) :
    Effect env db (.snapshot session) (.ok records) db' := by
  obtain ⟨_, -, h⟩ := ok_of_bind h
  split at h
  · cases h
  · rename_i m hk
    split at h
    · rename_i hp
      obtain ⟨records', hd, h⟩ := ok_of_bind h
      cases h
      simp only [Bool.and_eq_true, decide_eq_true_eq] at hp
      exact .snapshot hk hp.1 hp.2 hd
    · cases h

theorem deleteHotBucket_effect (h : deleteHotBucket env session db = .ok ((), db')) :
    Effect env db (.deleteHotBucket session) (.ok ()) db' := by
  obtain ⟨_, -, h⟩ := ok_of_bind h
  obtain ⟨m, hk, hp, hset, hr⟩ := updateOwned_ok h
  have hk' : db.metadata.find? (refOf session.bucket) = some m := hk
  have hp' := hp
  simp only [cleanable, Bool.and_eq_true, decide_eq_true_eq, Bool.not_eq_true'] at hp'
  refine .deleteHot hk' ⟨hp'.1.1, hp'.2⟩ hp'.1.2 ⟨hset.check, hset.find?⟩ ?_
  rw [hr]
  change db.records.rows.filter _ = _
  refine List.filter_congr fun r _ => ?_
  rw [hk', Option.any_some, hp]
  simp

theorem body_effect {q : StoreRequest} {v : q.Value} (h : body env q db = .ok (v, db')) :
    Effect env db q (.ok v) db' := by
  cases q with
  | append b r => exact append_effect h
  | state b =>
      obtain ⟨st, -, h⟩ := ok_of_bind (x := stateFromMetadata db b) h
      cases h; exact .look rfl rfl fun _ _ => rfl
  | discoverArchiveWork scan =>
      obtain ⟨cleanup, -, h⟩ := ok_of_bind h
      dsimp only at h
      split at h
      · cases h; exact .look rfl rfl fun _ _ => rfl
      · obtain ⟨cutover, -, h⟩ := ok_of_bind h
        cases h; exact .look rfl rfl fun _ _ => rfl
  | claimArchive b d => exact claimArchive_effect h
  | claimCleanup b d => exact claimCleanup_effect h
  | renewArchiveLease session d =>
      obtain ⟨_, -, h⟩ := ok_of_bind h
      obtain ⟨t, -, h⟩ := ok_of_bind h
      obtain ⟨m, hk, hp, hset, hr⟩ := updateOwned_ok h
      exact .renew hk (Bool.and_eq_true_iff.mp hp).1 hset hr
  | deferArchive session d =>
      obtain ⟨_, -, h⟩ := ok_of_bind h
      obtain ⟨t, -, h⟩ := ok_of_bind h
      obtain ⟨m, hk, hp, hset, hr⟩ := updateOwned_ok h
      simp only [Bool.and_eq_true, decide_eq_true_eq] at hp
      exact .deferArchive hk hp.1 hp.2 hset hr
  | deferCleanup session d =>
      obtain ⟨_, -, h⟩ := ok_of_bind h
      obtain ⟨t, -, h⟩ := ok_of_bind h
      obtain ⟨m, hk, hp, hset, hr⟩ := updateOwned_ok h
      simp only [Bool.and_eq_true, decide_eq_true_eq, Bool.not_eq_true'] at hp
      exact .deferCleanup hk hp.1 hp.2 hset hr
  | readRange b range after limit =>
      obtain ⟨records, -, h⟩ := ok_of_bind h
      obtain ⟨read, -, h⟩ := ok_of_bind h
      cases h; exact .look rfl rfl fun _ _ => rfl
  | beginArchive b => exact beginArchive_effect h
  | snapshot session => exact snapshot_effect h
  | publishArchive session key =>
      obtain ⟨_, -, h⟩ := ok_of_bind h
      obtain ⟨m, hk, hp, hset, hr⟩ := updateOwned_ok h
      simp only [Bool.and_eq_true, decide_eq_true_eq] at hp
      exact .publish hk hp.1 hp.2 hset hr
  | deleteHotBucket session => exact deleteHotBucket_effect h
  | abortArchive session =>
      obtain ⟨_, -, h⟩ := ok_of_bind h
      obtain ⟨m, hk, hp, hset, hr⟩ := updateOwned_ok h
      simp only [Bool.and_eq_true, decide_eq_true_eq] at hp
      exact .abort hk hp.1 hp.2 hset hr

/-- **What an operation can do.** -/
theorem exec_effect (env : Env) (q : StoreRequest) (db : Db) :
    Effect env db q (exec env q db).1 (exec env q db).2 := by
  unfold exec
  cases h : body env q db with
  | error e =>
      exact .look StoreRequest.appended?_error StoreRequest.issued?_error fun v hv => by cases hv
  | ok p => exact body_effect h

end Inversion

namespace Sample
open Pulpitum.Sample

/-- The first midnight of 2024. -/
def env (token : String) : Env where
  now := 757382400000000
  utcNow := newYear 2024 year2024
  token := token

/-- The year bucket of another partition. -/
def otherPartition : BucketId := { bucket with partitionKey := [8] }

end Sample

end Cockroach

end Pulpitum
