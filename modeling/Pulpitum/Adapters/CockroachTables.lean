import Mathlib
import Pulpitum.Support.Table
import Pulpitum.Ports.Storage

/-!
# Adapters — Cockroach tables

The two tables of the v4 schema and the statements the adapter runs on them.  A `TIMESTAMPTZ` is
a whole number of microseconds since 2000-01-01; the driver truncates a `DateTime` toward zero to
one.  The primary keys and the checks of the schema are carried by `Table`, and the foreign key
of the records by `Db`, so a state that violates one cannot be built and a statement that would
fails.
-/

namespace Pulpitum

/-! ### Timestamps -/

/-- A `TIMESTAMPTZ`: microseconds since `2000-01-01T00:00:00Z`. -/
abbrev SqlTime := ℤ

namespace DateTime

/-- Elapsed nanoseconds of `2000-01-01T00:00:00Z`. -/
def sqlEpoch : ℤ := 946684800 * 1000000000

/-- The parameter the driver sends: `(t - 2000-01-01).num_microseconds()`. -/
def toSql (t : DateTime) : ℤ := (t.nanos - sqlEpoch).tdiv 1000

/-- The value the driver decodes, if `chrono` has it. -/
def fromSql (m : ℤ) : Option DateTime := ofNanos (sqlEpoch + m * 1000)

end DateTime

namespace Cockroach

/-! ### Rows -/

/-- The primary key of a bucket: `(table_id, partition_key, bucket_key)`. -/
abbrev BucketRef := TableId × PartitionKey × BucketKey

/-- The columns that address a bucket. -/
def refOf (b : BucketId) : BucketRef := (b.tableId, b.partitionKey, b.key)

/-- The column `state`. -/
inductive RowState where
  | hot
  | archiving
  | archived
deriving DecidableEq

/-- A row of `pulpitum_v4_bucket_metadata`. -/
@[ext]
structure MetadataRow where
  tableId : TableId
  partitionKey : PartitionKey
  bucketKey : BucketKey
  bucketStrategy : BucketStrategy
  bucketStart : SqlTime
  bucketEnd : SqlTime
  state : RowState
  generation : ℕ
  archiveOwnerToken : Option String
  archiveOwnerExpiresAt : Option SqlTime
  archiveObjectKey : Option String
  hotDeleted : Bool
  archiveAttempts : ℕ
  archiveNextAttemptAt : Option SqlTime
deriving DecidableEq

namespace MetadataRow

/-- The primary key. -/
def ref (m : MetadataRow) : BucketRef := (m.tableId, m.partitionKey, m.bucketKey)

/-- The constraint `pulpitum_v4_metadata_invariants`. -/
def Invariants (m : MetadataRow) : Prop :=
  (m.state = .hot ∧ m.archiveOwnerToken = none ∧ m.archiveOwnerExpiresAt = none ∧
      m.archiveObjectKey = none ∧ m.hotDeleted = false) ∨
    (m.state = .archiving ∧ m.archiveOwnerToken ≠ none ∧ m.archiveOwnerExpiresAt ≠ none ∧
      m.archiveObjectKey = none ∧ m.hotDeleted = false) ∨
    (m.state = .archived ∧ m.archiveOwnerToken ≠ none ∧ m.archiveObjectKey ≠ none)

/-- What the schema and the column types ask of a row. -/
def Check (m : MetadataRow) : Prop :=
  m.bucketStart < m.bucketEnd ∧ m.Invariants ∧ m.generation < 2 ^ 63 ∧ m.archiveAttempts < 2 ^ 63

instance : DecidablePred Check := fun m => by unfold Check Invariants; infer_instance

/-- The row `INSERT INTO pulpitum_v4_bucket_metadata` writes, with the defaults of the schema. -/
def new (b : BucketId) : MetadataRow where
  tableId := b.tableId
  partitionKey := b.partitionKey
  bucketKey := b.key
  bucketStrategy := b.strategy
  bucketStart := b.start.toSql
  bucketEnd := b.endAt.toSql
  state := .hot
  generation := 0
  archiveOwnerToken := none
  archiveOwnerExpiresAt := none
  archiveObjectKey := none
  hotDeleted := false
  archiveAttempts := 0
  archiveNextAttemptAt := none

end MetadataRow

/-- A row of `pulpitum_v4_records`. -/
@[ext]
structure RecordRow where
  tableId : TableId
  partitionKey : PartitionKey
  bucketKey : BucketKey
  eventTime : SqlTime
  sortKey : SortKey
  value : List Text.Byte
deriving DecidableEq

namespace RecordRow

/-- The bucket the row refers to. -/
def ref (r : RecordRow) : BucketRef := (r.tableId, r.partitionKey, r.bucketKey)

/-- The primary key. -/
def key (r : RecordRow) : BucketRef × SqlTime × SortKey := (r.ref, r.eventTime, r.sortKey)

/-- The row `INSERT INTO pulpitum_v4_records` writes. -/
def new (b : BucketId) (record : Record) : RecordRow where
  tableId := b.tableId
  partitionKey := record.partitionKey
  bucketKey := b.key
  eventTime := record.eventTime.toSql
  sortKey := record.sortKey
  value := record.value

/-- The record the driver decodes from the row. -/
def decode (r : RecordRow) : Option Record := do
  let eventTime ← DateTime.fromSql r.eventTime
  return { partitionKey := r.partitionKey, eventTime, sortKey := r.sortKey, value := r.value }

end RecordRow

/-! ### The database -/

/-- The two tables; a record row refers to a metadata row. -/
structure Db where
  metadata : Table MetadataRow MetadataRow.ref MetadataRow.Check
  records : Table RecordRow RecordRow.key fun _ => True
  fk : ∀ r ∈ records.rows, (metadata.find? r.ref).isSome

namespace Db

/-- The empty tables. -/
def empty : Db := ⟨.empty, .empty, fun _ h => by cases h⟩

/-- `INSERT INTO pulpitum_v4_bucket_metadata … ON CONFLICT DO NOTHING`. -/
def insertMetadata (db : Db) (row : MetadataRow) : Except DurableBucketStoreError Db :=
  match h : db.metadata.insertIfAbsent row with
  | none => .error .operationFailed
  | some metadata =>
      .ok
        { db with
          metadata := metadata
          fk := fun r hr => by
            rw [Table.find?_insertIfAbsent h]
            split
            · rfl
            · exact db.fk r hr }

/-- `UPDATE pulpitum_v4_bucket_metadata SET f WHERE … AND p RETURNING *`, on the row of one
bucket, leaving its key. -/
def updateMetadata (db : Db) (k : BucketRef) (p : MetadataRow → Bool)
    (f : MetadataRow → MetadataRow) (hf : ∀ m, (f m).ref = m.ref := by intro _; rfl) :
    Except DurableBucketStoreError (Option MetadataRow × Db) :=
  match h : db.metadata.updateAt k p f with
  | none => .error .operationFailed
  | some (metadata, updated) =>
      .ok (updated,
        { db with
          metadata := metadata
          fk := fun r hr => by
            rcases Table.updateAt_cases hf h with ⟨-, rfl, -⟩ | ⟨m, -, -, -, -, hfind, -⟩
            · exact db.fk r hr
            · rw [hfind]
              split
              · rfl
              · exact db.fk r hr })

/-- `INSERT INTO pulpitum_v4_records`. -/
def insertRecord (db : Db) (row : RecordRow) : Except DurableBucketStoreError Db :=
  if hfk : (db.metadata.find? row.ref).isSome then
    match h : db.records.insert? row with
    | none => .error .operationFailed
    | some records =>
        .ok
          { db with
            records := records
            fk := fun r hr => by
              obtain ⟨_, _, rfl⟩ := Table.insert?_eq_some h
              rcases List.mem_append.mp hr with hr | hr
              · exact db.fk r hr
              · rw [List.mem_singleton.mp hr]; exact hfk }
  else .error .operationFailed

/-- `DELETE FROM pulpitum_v4_records WHERE p`. -/
def deleteRecords (db : Db) (p : RecordRow → Bool) : Db :=
  { db with
    records := db.records.deleteWhere p
    fk := fun r hr => db.fk r (List.mem_of_mem_filter hr) }

/-! ### What a statement does -/

variable {db db' : Db}

theorem insertMetadata_ok {row : MetadataRow} (h : db.insertMetadata row = .ok db') :
    db'.records = db.records ∧
      (∀ k, db'.metadata.find? k =
        if row.ref = k then some ((db.metadata.find? k).getD row) else db.metadata.find? k) ∧
      (∀ m ∈ db'.metadata.rows, m ∈ db.metadata.rows ∨
        m = row ∧ db.metadata.find? row.ref = none) ∧
      ∀ m ∈ db.metadata.rows, m ∈ db'.metadata.rows := by
  unfold insertMetadata at h
  split at h
  · cases h
  · rename_i metadata hm
    obtain rfl := Except.ok.inj h
    exact ⟨rfl, Table.find?_insertIfAbsent hm, fun m => Table.mem_insertIfAbsent hm,
      fun m => Table.subset_insertIfAbsent hm⟩

theorem insertMetadata_of_absent (row : MetadataRow) (hk : db.metadata.find? row.ref = none)
    (hc : row.Check) : ∃ db', db.insertMetadata row = .ok db' := by
  unfold insertMetadata
  split
  · rename_i h
    rw [Table.insertIfAbsent_of_absent hk hc] at h; cases h
  · exact ⟨_, rfl⟩

theorem updateMetadata_of_match {k : BucketRef} {p : MetadataRow → Bool}
    {f : MetadataRow → MetadataRow} (hf : ∀ m, (f m).ref = m.ref) {m : MetadataRow}
    (hk : db.metadata.find? k = some m) (hp : p m = true) (hc : (f m).Check) :
    ∃ db', db.updateMetadata k p f hf = .ok (some (f m), db') := by
  unfold updateMetadata
  split
  · rename_i h
    rw [Table.updateAt_of_match hk hp hc] at h; cases h
  · rename_i h
    rw [Table.updateAt_of_match hk hp hc] at h
    cases h; exact ⟨_, rfl⟩

theorem updateMetadata_of_no_match {k : BucketRef} {p : MetadataRow → Bool}
    {f : MetadataRow → MetadataRow} {hf : ∀ m, (f m).ref = m.ref}
    (h : ∀ m, db.metadata.find? k = some m → p m = false) :
    db.updateMetadata k p f hf = .ok (none, db) := by
  unfold updateMetadata
  split
  · rename_i hn
    rw [Table.updateAt_of_no_match h] at hn; cases hn
  · rename_i hn
    rw [Table.updateAt_of_no_match h] at hn
    cases hn; rfl

theorem updateMetadata_ok {k : BucketRef} {p : MetadataRow → Bool} {f : MetadataRow → MetadataRow}
    {hf : ∀ m, (f m).ref = m.ref} {updated : Option MetadataRow}
    (h : db.updateMetadata k p f hf = .ok (updated, db')) :
    (updated = none ∧ db' = db ∧ ∀ m, db.metadata.find? k = some m → p m = false) ∨
      ∃ m, db.metadata.find? k = some m ∧ p m = true ∧ updated = some (f m) ∧
        (f m).Check ∧ db'.records = db.records ∧
        (∀ k', db'.metadata.find? k' = if k = k' then some (f m) else db.metadata.find? k') ∧
        ∀ x ∈ db'.metadata.rows, x = f m ∨ x ∈ db.metadata.rows := by
  unfold updateMetadata at h
  split at h
  · cases h
  · rename_i metadata updated' hm
    obtain ⟨rfl, rfl⟩ := Prod.mk.inj (Except.ok.inj h)
    rcases Table.updateAt_cases hf hm with ⟨rfl, rfl, hp⟩ | ⟨m, h₁, h₂, h₃, h₄, h₅, h₆⟩
    · exact .inl ⟨rfl, rfl, hp⟩
    · exact .inr ⟨m, h₁, h₂, h₃, h₄, rfl, h₅, h₆⟩

theorem insertMetadata_error {row : MetadataRow} {e : DurableBucketStoreError}
    (h : db.insertMetadata row = .error e) : db.metadata.find? row.ref = none ∧ ¬ row.Check := by
  unfold insertMetadata at h
  split at h
  · rename_i hn
    exact Table.insertIfAbsent_eq_none hn
  · cases h

theorem updateMetadata_error {k : BucketRef} {p : MetadataRow → Bool}
    {f : MetadataRow → MetadataRow} {hf : ∀ m, (f m).ref = m.ref} {e : DurableBucketStoreError}
    (h : db.updateMetadata k p f hf = .error e) :
    ∃ m, db.metadata.find? k = some m ∧ p m = true ∧ ¬ (f m).Check := by
  unfold updateMetadata at h
  split at h
  · rename_i hn
    exact Table.updateAt_eq_none hn
  · cases h

theorem insertRecord_of_absent {row : RecordRow} (hfk : (db.metadata.find? row.ref).isSome)
    (hk : db.records.find? row.key = none) : ∃ db', db.insertRecord row = .ok db' := by
  unfold insertRecord
  rw [dif_pos hfk]
  split
  · rename_i hn
    unfold Table.insert? at hn
    rw [dif_pos ⟨trivial, hk⟩] at hn
    cases hn
  · exact ⟨_, rfl⟩

theorem insertRecord_ok {row : RecordRow} (h : db.insertRecord row = .ok db') :
    db'.metadata = db.metadata ∧ db'.records.rows = db.records.rows ++ [row] ∧
      db.records.find? row.key = none ∧ (db.metadata.find? row.ref).isSome := by
  unfold insertRecord at h
  split at h
  · rename_i hfk
    split at h
    · cases h
    · rename_i records hr
      obtain rfl := Except.ok.inj h
      obtain ⟨_, hk, rfl⟩ := Table.insert?_eq_some hr
      exact ⟨rfl, rfl, hk, hfk⟩
  · cases h

end Db

end Cockroach

end Pulpitum
