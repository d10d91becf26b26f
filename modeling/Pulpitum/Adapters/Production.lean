import Mathlib
import Pulpitum.Adapters.ArchiveCacheTier
import Pulpitum.Adapters.CockroachTier
import Pulpitum.Adapters.OpenDalTier
import Pulpitum.Adapters.TierPaging

/-!
# Adapters — Production

A table as the sidecar builds it: processes with route caches over `CockroachDurableBucketStore`,
and processes with an `ImmutableArchiveCache` each over `OpenDalArchiveStore`, with any number of
uploads under way.  Here an archived bucket is read through a route that may be cached, and records
that may be cached or are decoded from a manifest and a payload; what carries the proof is that a
route and an object are written once.

* `admissible_canonical`: archival is asked for the buckets that a strategy derives.
* `immutable_uploads`: reads of an object return one record list, so caches of them are coherent.
* `production_delivers_iff`: **a scan delivers every record once, in order**, exactly if its range
  ends at or before the horizon of the table's strategy.
-/

namespace Pulpitum
namespace Production

open Cockroach OpenDal ArchiveCache

/-- The stores of a table in production. -/
def services (limits : Limits) (lib : Libraries) (uploads : Set Upload)
    (store : OpenDalArchiveStore) : Services :=
  .of serveRouted (serveCached limits (serveUploads lib uploads store))

/-- No rows, no objects and no processes. -/
def empty : Routing × Cached UploadPool := (⟨Db.empty, []⟩, ⟨.empty, []⟩)

/-- A bucket that a strategy derives is read back from its row. -/
theorem canonical_of_new {b b' : BucketId} (hb : b.Canonical)
    (h : bucketFromRow (.new b) = .ok b') : b'.Canonical := by
  unfold bucketFromRow at h
  simp only [MetadataRow.new, hb.whole.1.fromSql_toSql, hb.whole.2.fromSql_toSql] at h
  cases h
  exact hb

theorem admissible_canonical : Admissible BucketId.Canonical := ⟨id, canonical_of_new⟩

section

variable {limits : Limits} {lib : Libraries} {uploads : Set Upload} {store : OpenDalArchiveStore}

variable (store) in
/-- Reads of an object return one record list. -/
theorem immutable_uploads (hl : lib.Lawful) (he : lib.EncodesManifests uploads)
    (hfree : CollisionFree lib (involved lib uploads)) :
    Immutable (openDalTier store hl he hfree) (contentsOf lib uploads) := by
  intro c c' o b key rs hkeeps hread
  obtain ⟨hc, later, hlater, hr⟩ := hread
  exact Returns.contentsOf_eq hl he hfree ⟨c', later, hkeeps.1.trans hc, hlater, hr.symm⟩

/-- **Paging is complete and duplicate-free in production.**  From every state that appends and
archival can reach, over every run that goes on, with processes that cache routes and records and
are restarted, and uploads that fail halfway, are abandoned, repeated or raced, a client that pages
through a range is given every record that was there before the first page exactly once, in
strictly increasing order, and is done after boundedly many steps, if and only if the range ends at
or before the horizon of the table's strategy. -/
theorem production_delivers_iff (hl : lib.Lawful) (he : lib.EncodesManifests uploads)
    (hfree : CollisionFree lib (involved lib uploads)) {table : DurableTable} {query : Query}
    {s₀ : System (services limits lib uploads store).State}
    (hreach : System.Reaches (services limits lib uploads store) BucketId.Canonical
      (.init empty) s₀)
    (hwhole : WholeTimes s₀) (hlen : s₀.appenders.length < 2 ^ 63)
    (hr : query.range.start < query.range.endAt) (hpos : 0 < query.limit)
    (hlimit : query.limit ≤ usizeMax) (hstart : query.range.start.Whole)
    (hend : query.range.endAt.Whole) :
    (∀ {l : List Scan.Turn} {s : System (services limits lib uploads store).State} {scan : Scan},
      Run (Scan.Attempt (services limits lib uploads store) BucketId.Canonical table query)
        (s₀, .start) l (s, scan) →
        WholeTimes s → s.appenders.length < 2 ^ 63 →
        scan.Withstands BucketId.Canonical table query s₀ l s) ↔
      query.range.endAt ≤ table.definition.horizon := by
  have hempty : EmptyTiers (T := cockroachTier BucketId.Canonical)
      (A := cachedTier limits (immutable_uploads store hl he hfree)) empty :=
    ⟨fun _ => (absurd · List.not_mem_nil), rfl, keepsUploads_empty,
      fun _ => (absurd · List.not_mem_nil)⟩
  exact tiers_deliver_iff objectKeyOf_inj admissible_canonical hempty hreach hwhole hlen hr hpos
    hlimit hstart hend

end

namespace Sample
open Pulpitum.Sample

/-- The stores, with the upload of the record. -/
abbrev services : Services :=
  Production.services ArchiveCache.Sample.limits OpenDal.Sample.libraries {OpenDal.Sample.upload}
    (OpenDal.Sample.store .json)

/-- An operation of a process that was just started. -/
def answer (q : StoreRequest) (s : Routing) : q.Reply × Routing :=
  let (r, db) := exec (Cockroach.Sample.env "a") q s.db
  (r, ⟨db, ⟨∅, (follow? q r).toList⟩ :: s.processes⟩)

theorem serveRouted_answer (q : StoreRequest) (s : Routing) :
    serveRouted q s (answer q s).1 (answer q s).2 := by
  have h := @RouteServes.tables q s.db _ _ [] s.processes ⟨∅, []⟩
    (.transaction (Cockroach.Sample.env "a") q s.db)
  rw [List.append_nil] at h
  exact ⟨_, .single ⟨.start, rfl⟩, h⟩

/-- An operation on the tables, next to the archive store. -/
theorem serve_answer (q : StoreRequest) (s : Routing) (x : Cached UploadPool) :
    services.serve (.store q) (s, x) (answer q s).1 ((answer q s).2, x) :=
  ⟨serveRouted_answer q s, rfl⟩

/-- An operation on the archive store, next to the tables. -/
theorem serve_archive {q : ArchiveRequest} {x x' : Cached UploadPool} {r : q.Reply}
    (h : serveCached ArchiveCache.Sample.limits (serveUploads OpenDal.Sample.libraries
      {OpenDal.Sample.upload} (OpenDal.Sample.store .json)) q x r x') (s : Routing) :
    services.serve (.archive q) (s, x) r (s, x') :=
  ⟨h, rfl⟩

/-- The upload of the record, by a process that was just started. -/
theorem exists_uploaded : ∃ x,
    serveCached ArchiveCache.Sample.limits (serveUploads OpenDal.Sample.libraries
      {OpenDal.Sample.upload} (OpenDal.Sample.store .json)) (.putBucketGeneration bucket 1 [record])
      Production.empty.2 (.ok (OpenDal.Sample.manifestKey .json)) x := by
  obtain ⟨c, hrun, p, hp, hname, hrest⟩ := OpenDal.Sample.exists_uploaded
  have hserve : serveUploads OpenDal.Sample.libraries {OpenDal.Sample.upload}
      (OpenDal.Sample.store .json) (.putBucketGeneration bucket 1 [record]) .empty
      (.ok (OpenDal.Sample.manifestKey .json)) c := ⟨hrun, p, hp, hname, hrest⟩
  exact ⟨_, _, .tail (.single .start) (.process (l := []) (.openPut rfl)),
    @CacheServes.putBucketGeneration _ _ _ _ [] _ _ _ [] _ _ _ _ _ hserve⟩

/-- The tables after an append to the year bucket. -/
def appended : Routing := (answer (.append bucket record) Production.empty.1).2

/-- The session of its cutover. -/
def session : ArchiveSession := ⟨bucket, "a", 1⟩

/-- The tables after its cutover. -/
def archived : Routing :=
  let claimed := (answer (.snapshot session) (answer (.beginArchive bucket) appended).2).2
  let published := (answer (.publishArchive session (OpenDal.Sample.manifestKey .json)) claimed).2
  (answer (.deleteHotBucket session) published).2

/-- An append to the year bucket, and its cutover by a worker that no one disturbs. -/
theorem reaches_archived : ∃ (x : Cached UploadPool) (t : Task JobResult),
    (∃ o, t.phase = .finished (.archived (.ok o))) ∧
      System.Reaches services BucketId.Canonical (.init Production.empty)
        ⟨(archived, x), [Cockroach.Sample.acknowledged bucket record], [t], []⟩ := by
  obtain ⟨x, hput⟩ := exists_uploaded
  have hjob := @archiveBucket_reaches services bucket session [record]
    (OpenDal.Sample.manifestKey .json) (appended, Production.empty.2) _ _ _ _ _
    (serve_answer (.beginArchive bucket) appended _) (serve_answer (.snapshot session) _ _)
    (serve_archive hput _) (serve_answer (.publishArchive session _) _ _)
    (serve_answer (.deleteHotBucket session) _ _)
  obtain ⟨t, ht, hrun⟩ := @System.reaches_job services DurableTable.Routes BucketId.Canonical _ _
    [Cockroach.Sample.acknowledged bucket record] [] [] (.archiveBucket bucket) _
    Cockroach.Sample.bucket_canonical hjob
  exact ⟨_, t, ⟨_, ht⟩, .trans (System.reaches_append routes_record (serve_answer _ _ _)) hrun⟩

end Sample

/-- An append, the cutover of its bucket, an append to the next bucket, and the range of both. -/
theorem production_delivers_of_cutover :
    ∃ s₀ : System Sample.services.State,
      (∃ t ∈ s₀.workers, ∃ o, t.phase = .finished (.archived (.ok o))) ∧
      s₀.appenders = [Cockroach.Sample.acknowledged Pulpitum.Sample.nextBucket
          Pulpitum.Sample.nextRecord,
        Cockroach.Sample.acknowledged Pulpitum.Sample.bucket Pulpitum.Sample.record] ∧
      ∀ {l : List Scan.Turn} {s : System Sample.services.State} {scan : Scan},
        Run (Scan.Attempt Sample.services BucketId.Canonical Pulpitum.Sample.table
          Cockroach.Sample.query) (s₀, .start) l (s, scan) →
        WholeTimes s → s.appenders.length < 2 ^ 63 →
        scan.Withstands BucketId.Canonical Pulpitum.Sample.table Cockroach.Sample.query s₀ l s := by
  obtain ⟨x, t, ht, hrun⟩ := Sample.reaches_archived
  have hrun := hrun.trans (System.reaches_append Pulpitum.Sample.routes_nextRecord
    (Sample.serve_answer _ Sample.archived x))
  have hlen : 2 < 2 ^ 63 := by decide
  refine ⟨_, ⟨t, List.mem_cons_self .., ht⟩, rfl, (production_delivers_iff
    OpenDal.Sample.libraries_lawful OpenDal.Sample.encodesManifests_upload
    OpenDal.Sample.collisionFree_upload hrun ?_ hlen (by decide) (by decide) (by decide)
    (by decide) (by decide)).mpr (by decide)⟩
  intro a ha _
  rcases List.mem_pair.mp ha with rfl | rfl <;> decide

end Production
end Pulpitum
