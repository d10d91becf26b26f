import Mathlib
import Pulpitum.Support.Runs
import Pulpitum.Adapters.CockroachRead
import Pulpitum.Adapters.OpenDal

/-!
# Adapters — Cockroach filing

A record is filed under the bucket of its full-precision event time, and stored with the
microseconds the driver sends.  Whether it is still in its bucket when it is read back decides
whether the bucket can be archived and whether queries find the record.

* `rows_filed`: along every run of the store, a row is the row of an appended record.
* `filed_stays_iff`: **the records of a run read back inside their buckets**, their buckets pass
  the archive's validation and queries are routed to them, exactly when no record crosses the end
  of its bucket.
-/

namespace Pulpitum
namespace Cockroach
open OpenDal (validateRecords validateRecords_eq_ok)

/-- The run appended the record to the bucket. -/
def Filed (calls : List (Call Env)) (b : BucketId) (r : Record) : Prop :=
  ∃ c ∈ calls, c.appended = some (b, r)

/-- The records of the run were appended through the table, each at some current time. -/
def Routed (table : DurableTable) (calls : List (Call Env)) : Prop :=
  ∀ b r, Filed calls b r → ∃ now, table.routeAppend now r = some (.ok b)

/-! ### The rows of a run -/

variable {db db' : Db} {calls : List (Call Env)} {table : DurableTable} {b : BucketId} {r : Record}
  {row : RecordRow}

/-- A call adds no row but that of the record it appends. -/
theorem rows_step {c : Call Env} (hs : Call.Step exec db c db') (h : row ∈ db'.records.rows) :
    row ∈ db.records.rows ∨ ∃ b r, c.appended = some (b, r) ∧ row = .new b r := by
  obtain ⟨env, q, reply⟩ := c
  have heff := exec_effect env q db
  rw [show exec env q db = (reply, db') from hs] at heff
  cases heff with
  | look | snapshot => exact .inl h
  | @append b r _ _ _ _ _ hr =>
      rw [hr, List.mem_append, List.mem_singleton] at h
      rcases h with h | h
      · exact .inl h
      · exact .inr ⟨b, r, rfl, h⟩
  | deleteHot _ _ _ _ hr =>
      rw [hr] at h
      exact .inl (List.mem_of_mem_filter h)
  | claimArchive _ _ _ hr | claimCleanup _ _ _ hr | beginArchive _ _ hr | renew _ _ _ hr
  | deferArchive _ _ _ _ hr | deferCleanup _ _ _ _ hr | publish _ _ _ _ hr | abort _ _ _ _ hr =>
      rw [hr] at h
      exact .inl h

/-- Along every run, a row is the row of an appended record. -/
theorem rows_filed (hrun : Run (Call.Step exec) Db.empty calls db) :
    ∀ row ∈ db.records.rows, ∃ b r, Filed calls b r ∧ row = .new b r := by
  refine Run.rec_last (P := fun calls db => ∀ row ∈ db.records.rows, ∃ b r,
    Filed calls b r ∧ row = .new b r) (fun _ h => absurd h List.not_mem_nil) ?_ hrun
  intro calls db c db' _ ih hs row hrow
  rcases rows_step hs hrow with h | ⟨b, r, ha, he⟩
  · obtain ⟨b, r, ⟨c', hc', ha⟩, he⟩ := ih row h
    exact ⟨b, r, ⟨c', List.mem_append_left _ hc', ha⟩, he⟩
  · exact ⟨b, r, ⟨c, List.mem_append_right _ (List.mem_singleton_self c), ha⟩, he⟩

/-- The rows of a bucket the table files under are those of the records filed under it. -/
theorem rowsOf_filed (hrun : Run (Call.Step exec) Db.empty calls db)
    (hrouted : Routed table calls) (hb : b.Canonical) (hrow : row ∈ rowsOf db (refOf b)) :
    ∃ r, Filed calls b r ∧ row = .new b r := by
  obtain ⟨hin, href⟩ := List.mem_filter.mp hrow
  obtain ⟨b', r, hfiled, rfl⟩ := rows_filed hrun row hin
  obtain ⟨now, hroute⟩ := hrouted b' r hfiled
  have href' : refOf b' = refOf b := by
    rw [← ref_new (DurableTable.partitionKey_of_routeAppend hroute)]
    exact of_decide_eq_true href
  obtain ⟨ht, hk⟩ := Prod.mk.inj href'
  obtain ⟨hp, hk⟩ := Prod.mk.inj hk
  have hsame : b' = b := (DurableTable.canonical_of_routeAppend hroute).eq_of_key hb ht hp hk
  subst hsame
  exact ⟨r, hfiled, rfl⟩

/-! ### Reading filed records back -/

/-- An accepted record is read back, and inside its bucket unless it crosses its end. -/
theorem readBack_routed {now : DateTime} (h : table.routeAppend now r = some (.ok b)) :
    ∃ t, DateTime.fromSql r.eventTime.toSql = some t ∧
      (b.contains t ↔ ¬ b.Crosses r.eventTime) :=
  BucketId.contains_readBack_iff (DurableTable.canonical_of_routeAppend h)
    (DurableTable.contains_of_routeAppend h)

/-- A query for a time inside the bucket of a record is routed to the bucket. -/
theorem mem_buckets_of_contains {now t : DateTime} (h : table.routeAppend now r = some (.ok b))
    (ht : b.contains t) {range : TimeRange} (hr : range.contains t)
    (he : range.endAt ≤ table.definition.horizon) :
    ∃ bs, table.definition.bucketsForRange b.partitionKey range = some bs ∧ b ∈ bs := by
  have hsome : (table.definition.bucketsForRange b.partitionKey range).isSome :=
    (TableDefinition.bucketsForRange_isSome_iff (hr.1.trans_lt hr.2)).mpr he
  obtain ⟨bs, hbs⟩ := Option.isSome_iff_exists.mp hsome
  obtain ⟨b', hmem, hb'⟩ := TableDefinition.mem_bucketsForRange hbs hr
  have hb := DurableTable.bucketFor_of_routeAppend h
  rw [TableDefinition.bucketFor, ← DurableTable.partitionKey_of_routeAppend h] at hb
  have hsame : some b = some b' :=
    (BucketId.forEventTimeWithStrategy_of_contains hb ht).symm.trans hb'
  obtain rfl := Option.some.inj hsame
  exact ⟨bs, hbs, hmem⟩

/-- If no record of a bucket crosses its end, the rows of the bucket decode to records that pass
the validation of the archive. -/
theorem rows_validate (hrun : Run (Call.Step exec) Db.empty calls db)
    (hrouted : Routed table calls) (hb : b.Canonical)
    (hstay : ∀ r, Filed calls b r → ¬ b.Crosses r.eventTime) :
    ∃ snap, decodeRows (sortRows (rowsOf db (refOf b))) = .ok snap ∧
      validateRecords b snap = .ok () := by
  have each : ∀ row ∈ rowsOf db (refOf b), ∃ r', row.decode = some r' ∧
      r'.partitionKey = b.partitionKey ∧ b.contains r'.eventTime := by
    intro row hrow
    obtain ⟨r, hfiled, rfl⟩ := rowsOf_filed hrun hrouted hb hrow
    obtain ⟨now, hroute⟩ := hrouted b r hfiled
    obtain ⟨t, ht, hin⟩ := readBack_routed hroute
    have hdecode : (RecordRow.new b r).decode = some { r with eventTime := t } := by
      simp [RecordRow.decode, RecordRow.new, ht]
    exact ⟨_, hdecode, (DurableTable.partitionKey_of_routeAppend hroute).symm,
      hin.mpr (hstay r hfiled)⟩
  have : Nonempty Record := ⟨Pulpitum.Sample.record⟩
  choose! dec hdec hpart hin using each
  have hsorted : ∀ row ∈ sortRows (rowsOf db (refOf b)), row.decode = some (dec row) :=
    fun row hrow => hdec row ((List.perm_insertionSort _ _).mem_iff.mp hrow)
  refine ⟨_, decodeRows_eq hsorted, ?_⟩
  rw [map_sortRows hdec, validateRecords_eq_ok]
  refine ⟨fun r hr => ?_, (sortByKey_pairwise _).isChain⟩
  obtain ⟨row, hrow, rfl⟩ := List.mem_map.mp ((sortByKey_perm _).mem_iff.mp hr)
  exact ⟨hpart row hrow, hin row hrow⟩

/-- A snapshot is what the rows of its bucket decode to. -/
theorem snapshot_eq {env : Env} {session : ArchiveSession} {snap : List Record}
    (h : (exec env (.snapshot session) db).1 = .ok snap) :
    decodeRows (sortRows (rowsOf db (refOf session.bucket))) = .ok snap := by
  have heff := exec_effect env (.snapshot session) db
  rw [h] at heff
  generalize (exec env (.snapshot session) db).2 = db' at heff
  cases heff with
  | look _ _ hs => cases hs snap rfl
  | snapshot _ _ _ hd => exact hd

/-- **Accepted records stay in their buckets** exactly when none crosses the end of its bucket.
Along every run of the store whose appends went through the table: every record appended reads
back inside the bucket it was filed under, a query for the time read back is routed to that
bucket, and the bucket's snapshot passes the archive's validation. -/
theorem filed_stays_iff (hrun : Run (Call.Step exec) Db.empty calls db)
    (hrouted : Routed table calls) :
    (∀ b r, Filed calls b r →
      (∃ t, DateTime.fromSql r.eventTime.toSql = some t ∧ b.contains t ∧
        ∀ range : TimeRange, range.contains t → range.endAt ≤ table.definition.horizon →
          ∃ bs, table.definition.bucketsForRange b.partitionKey range = some bs ∧ b ∈ bs) ∧
      ∃ snap, decodeRows (sortRows (rowsOf db (refOf b))) = .ok snap ∧
        validateRecords b snap = .ok () ∧
        ∀ env session snap', session.bucket = b →
          (exec env (.snapshot session) db).1 = .ok snap' → snap' = snap) ↔
      ∀ b r, Filed calls b r → ¬ b.Crosses r.eventTime := by
  constructor
  · intro hstays b r hfiled
    obtain ⟨now, hroute⟩ := hrouted b r hfiled
    obtain ⟨⟨t, ht, hin, -⟩, -⟩ := hstays b r hfiled
    obtain ⟨t', ht', hiff⟩ := readBack_routed hroute
    obtain rfl := Option.some.inj (ht.symm.trans ht')
    exact hiff.mp hin
  · intro hstay b r hfiled
    obtain ⟨now, hroute⟩ := hrouted b r hfiled
    obtain ⟨t, ht, hiff⟩ := readBack_routed hroute
    have hin := hiff.mpr (hstay b r hfiled)
    obtain ⟨snap, hsnap, hvalid⟩ := rows_validate hrun hrouted
      (DurableTable.canonical_of_routeAppend hroute) (hstay b)
    refine ⟨⟨t, ht, hin, fun range => mem_buckets_of_contains hroute hin⟩, snap, hsnap, hvalid, ?_⟩
    rintro env session snap' rfl hs
    exact Except.ok.inj ((snapshot_eq hs).symm.trans hsnap)

/-! ### Samples -/

namespace Sample
open Pulpitum.Sample

/-- `2024-12-31T23:59:60Z`, the leap second the year ends with. -/
def lastSecond : DateTime :=
  .ofFields (.ofFields 2024 12 31 (by decide)) 86399 1000000000 (by decide)

/-- A record of that second. -/
def lastRecord : Record := { record with eventTime := lastSecond }

/-- The database after the append of a record to the year bucket. -/
def filed (r : Record) : Db := (exec (env "a") (.append bucket r) Db.empty).2

/-- The run to it. -/
def filing (r : Record) : List (Call Env) := [Call.of exec (env "a") (.append bucket r) Db.empty]

theorem run_filing (r : Record) : Run (Call.Step exec) Db.empty (filing r) (filed r) :=
  .one (Call.step_of ..)

theorem filed_filing {r r' : Record} {b : BucketId} (h : Filed (filing r) b r') :
    b = bucket ∧ r' = r := by
  obtain ⟨c, hc, ha⟩ := h
  obtain rfl := List.mem_singleton.mp hc
  unfold Call.appended Call.of at ha
  cases hx : (exec (env "a") (.append bucket r) Db.empty).1 with
  | error e => rw [hx] at ha; cases ha
  | ok u =>
      rw [hx] at ha
      cases ha
      exact ⟨rfl, rfl⟩

end Sample

/-- The first record of a year stays in the bucket of the year. -/
theorem filed_stays_iff_of_append :
    Filed (Sample.filing Pulpitum.Sample.record) Pulpitum.Sample.bucket Pulpitum.Sample.record ∧
      ∃ snap, decodeRows (sortRows (rowsOf (Sample.filed Pulpitum.Sample.record)
        (refOf Pulpitum.Sample.bucket))) = .ok snap ∧
          validateRecords Pulpitum.Sample.bucket snap = .ok () := by
  have hfiled : Filed (Sample.filing Pulpitum.Sample.record) Pulpitum.Sample.bucket
      Pulpitum.Sample.record := ⟨_, List.mem_singleton_self _, rfl⟩
  have hrouted : Routed Pulpitum.Sample.table (Sample.filing Pulpitum.Sample.record) := by
    intro b r h
    obtain ⟨rfl, rfl⟩ := Sample.filed_filing h
    exact ⟨_, Pulpitum.Sample.routeAppend_record⟩
  have hstay : ∀ b r, Filed (Sample.filing Pulpitum.Sample.record) b r →
      ¬ b.Crosses r.eventTime := by
    intro b r h
    obtain ⟨rfl, rfl⟩ := Sample.filed_filing h
    decide
  obtain ⟨-, snap, hsnap, hvalid, -⟩ := (filed_stays_iff (Sample.run_filing _) hrouted).mpr hstay
    _ _ hfiled
  exact ⟨hfiled, snap, hsnap, hvalid⟩

/-- **A bucket that can no longer be archived.** A record of the leap second at the end of a year
is accepted and filed under the year; it reads back as the first instant of the next year, and
the snapshot of the bucket fails the archive's validation. -/
theorem leap_second_leaves_bucket :
    let session : ArchiveSession := ⟨Pulpitum.Sample.bucket, "b", 1⟩
    let db := (exec (Sample.env "b") (.beginArchive Pulpitum.Sample.bucket)
      (Sample.filed Sample.lastRecord)).2
    Pulpitum.Sample.table.routeAppend (Pulpitum.Sample.newYear 2024 (by decide))
        Sample.lastRecord = some (.ok Pulpitum.Sample.bucket) ∧
      Filed (Sample.filing Sample.lastRecord) Pulpitum.Sample.bucket Sample.lastRecord ∧
      DateTime.fromSql Sample.lastRecord.eventTime.toSql = some Pulpitum.Sample.bucket.endAt ∧
      ∃ snap, (exec (Sample.env "b") (.snapshot session) db).1 = .ok snap ∧
        validateRecords Pulpitum.Sample.bucket snap =
          .error (.other "archive records do not all belong to the requested bucket") := by
  intro session db
  refine ⟨rfl, ⟨_, List.mem_singleton_self _, rfl⟩, ?_, ?_⟩
  · rfl
  · exact ⟨[{ Pulpitum.Sample.record with eventTime := Pulpitum.Sample.bucket.endAt }], rfl, rfl⟩

end Cockroach

end Pulpitum
