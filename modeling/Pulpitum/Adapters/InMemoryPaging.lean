import Mathlib
import Pulpitum.Adapters.InMemoryCutover
import Pulpitum.Application.Pagination
import Pulpitum.Application.Undisturbed

/-!
# Adapters — In-memory paging

Paging through a table over `InMemoryDurableBucketStore` and `InMemoryArchiveStore`.

* `servesReads`: reads find a bucket in the tier it is in.
* `paging_complete_iff`: **a scan delivers every record once, in order**, exactly when its range
  ends at or before the horizon of the table's strategy; beyond it `query_page` panics.
-/

namespace Pulpitum
namespace InMemory

open Cutover (World)

variable {s : Store} {o : Objects} {w : World BucketId Record String}

/-- A read of a bucket that is not archived takes the first matching records, in key order. -/
theorem readRange_hot (h : Tracks (s, o) w) {b : BucketId} (range : TimeRange)
    (after : Option Cursor) (limit : ℕ) (hp : ∀ key d, (w.cell b).phase ≠ .archived key d) :
    readRange b range after limit s =
      (.ok (.hot (selectArchived range after limit (w.visible b))), s) := by
  have hvis : w.visible b = (orDefault s b).records := by
    have hcell := h.cell b
    unfold World.visible
    split
    · rw [hcell]; rfl
    · rw [hcell]; rfl
    · rename_i key d hphase
      exact absurd hphase (hp key d)
  have hselect : selectArchived range after limit (w.visible b) =
      (((orDefault s b).records.filter fun r => range.contains r.eventTime).filter fun r =>
        isAfter after r).take limit := by
    -- the records are sorted already
    have hsorted := ((h.sorted b).filter fun r => range.contains r.eventTime).filter
      fun r => isAfter after r
    rw [hvis, selectArchived, sortByKey, hsorted.insertionSort_eq]
  rw [hselect]
  unfold readRange
  cases hl : s.lookup b with
  | none =>
      have : orDefault s b = .default := by rw [orDefault, hl]; rfl
      simp [this, Entry.default]
  | some entry =>
      obtain rfl := orDefault_of_lookup hl
      have hstate : ∀ key d, (orDefault s b).state ≠ .archived key d := by
        intro key d e
        refine hp key d ?_
        rw [h.cell]
        simp [Entry.cell, Entry.phase, e]
      cases he : orDefault s b with
      | mk state generation token expires next records =>
          cases state with
          | hot | archiving => rfl
          | archived key d => exact absurd (by rw [he]) (hstate key d)

theorem readRange_archived (h : Tracks (s, o) w) {b : BucketId} (range : TimeRange)
    (after : Option Cursor) (limit : ℕ) {key : String} {d : Bool}
    (hp : (w.cell b).phase = .archived key d) :
    readRange b range after limit s = (.ok (.archive key), s) := by
  have hstate : (orDefault s b).state = .archived key d := Entries.state_of_phase h.cell hp
  unfold readRange
  cases hl : s.lookup b with
  | none =>
      rw [orDefault, hl] at hstate
      cases hstate
  | some entry =>
      obtain rfl := orDefault_of_lookup hl
      cases he : orDefault s b with
      | mk state generation token expires next records =>
          rw [he] at hstate
          cases hstate
          rfl

/-- Reads are served from the tier a bucket is in. -/
theorem servesReads : refinement.ServesReads where
  total := by
    rintro (q | q) ⟨s, o⟩
    · exact ⟨_, ((exec ⟨0, 0, ""⟩ q s).2, o), ⟨⟨0, 0, ""⟩, rfl⟩, rfl⟩
    · exact ⟨_, (s, (InMemoryArchive.exec q o).2), rfl, rfl⟩
  readRange := by
    rintro ⟨s, o⟩ ⟨s', o'⟩ w b range after limit r h _ hs
    obtain ⟨⟨env, hs⟩, ho⟩ :
      (∃ env, exec env (.readRange b range after limit) s = (r, s')) ∧ o' = o := hs
    have hs : readRange b range after limit s = (r, s') := hs
    subst ho
    by_cases hp : ∃ key d, (w.cell b).phase = .archived key d
    · obtain ⟨key, d, hp⟩ := hp
      rw [readRange_archived h range after limit hp] at hs
      cases hs
      exact ⟨h, .inl ⟨key, d, hp, rfl⟩⟩
    · push Not at hp
      rw [readRange_hot h range after limit hp] at hs
      cases hs
      exact ⟨h, .inr rfl⟩
  getBucket := by
    rintro ⟨s, o⟩ ⟨s', o'⟩ w b key d r h hi hp hin hs
    obtain ⟨hs, hst⟩ : InMemoryArchive.exec (.getBucket b key) o = (r, o') ∧ s' = s := hs
    have hs : (InMemoryArchive.getBucket b key o, o) = (r, o') := hs
    subst hst
    obtain ⟨g, rs, hstored, -⟩ := hi.published hp
    have hobject : o key = some rs := by
      have := hi.stored_object hstored
      rwa [h.object] at this
    have hvis : w.visible b = rs := by
      simp only [World.visible, hp, hi.stored_object hstored, Option.getD_some]
    rw [hvis] at hin ⊢
    rw [InMemoryArchive.getBucket_eq_ok hobject hin] at hs
    cases hs
    exact ⟨h, rfl⟩

/-- **Paging is complete and duplicate-free across archival.**  From every state that appends and
archival can reach, over every run that goes on with fresh keys, a client that pages through a
range is given every record that was there before the first page exactly once, in strictly
increasing order, and is done after boundedly many steps, if and only if the range ends at or
before the horizon of the table's strategy. -/
theorem paging_complete_iff {table : DurableTable} {query : Query}
    {s₀ : System services.State}
    (hreach : System.Reaches services BucketId.Canonical (.init (∅, fun _ => none)) s₀)
    (hfresh : Scan.Fresh table query s₀) (hr : query.range.start < query.range.endAt)
    (hl : 0 < query.limit) (hlimit : query.limit ≤ usizeMax) :
    (∀ {l : List Scan.Party} {s : System services.State} {scan : Scan},
      Run (Scan.Move services BucketId.Canonical table query) (s₀, .start) l (s, scan) →
        Scan.Fresh table query s → scan.Delivers BucketId.Canonical table query s₀ l s) ↔
      query.range.endAt ≤ table.definition.horizon := by
  have hrouted : (table.definition.bucketsForRange query.partitionKey query.range).isSome ↔
      query.range.endAt ≤ table.definition.horizon :=
    TableDefinition.bucketsForRange_isSome_iff hr
  rw [← hrouted]
  constructor
  · intro h
    by_contra hnone
    rw [Bool.not_eq_true, Option.isSome_eq_false_iff, Option.isNone_iff_eq_none] at hnone
    -- the first step of the client is a panic
    have hmove : Scan.Move services BucketId.Canonical table query (s₀, .start) .client
        (s₀, Scan.call table query .start) := .client .call
    exact (h (.one hmove) hfresh).served.1 (Scan.call_panics hr hl hnone)
  · intro hb l s scan hrun hf
    obtain ⟨buckets, hb⟩ := Option.isSome_iff_exists.mp hb
    obtain ⟨w, hsound⟩ := sound_of_reaches hreach
    exact Scan.delivers servesReads hsound hr hl hlimit hb hrun hf

namespace Sample

/-- The stores after one acknowledged append. -/
def appended : System services.State where
  services := ((exec ⟨0, 0, "token"⟩ (.append Pulpitum.Sample.bucket Pulpitum.Sample.record) ∅).2,
    fun _ => none)
  appenders :=
    [⟨Pulpitum.Sample.bucket, Pulpitum.Sample.record, .answered (.ok ()), some (.ok ())⟩]
  workers := []
  orphans := []

theorem reaches_appended :
    System.Reaches services BucketId.Canonical (.init (∅, fun _ => none)) appended := by
  have hserve : services.serve (.store (.append Pulpitum.Sample.bucket Pulpitum.Sample.record))
      (∅, fun _ => none) (.ok ()) appended.services := ⟨⟨⟨0, 0, "token"⟩, rfl⟩, rfl⟩
  exact .tail (.tail (.tail (.tail .refl (.openAppend ⟨_, _, Pulpitum.Sample.routeAppend_record⟩))
    (.send (l := []))) (.serveAppend (l := []) hserve)) (.deliver (l := []))

/-- The two stores, at one instant. -/
def answer : (q : Request) → services.State → q.Reply × services.State
  | .store q, (s, o) =>
      ((exec ⟨0, 0, "token"⟩ q s).1, ((exec ⟨0, 0, "token"⟩ q s).2, o))
  | .archive q, (s, o) => ((InMemoryArchive.exec q o).1, (s, (InMemoryArchive.exec q o).2))

theorem serve_answer (q : Request) (s : services.State) :
    services.serve q s (answer q s).1 (answer q s).2 := by
  cases q with
  | store q => exact ⟨⟨_, rfl⟩, rfl⟩
  | archive q => exact ⟨rfl, rfl⟩

/-- The stores after an append to the year bucket and its cutover. -/
def archived : services.State :=
  ((Job.archiveBucket Pulpitum.Sample.bucket).prog.runOn (Effect.undisturbed answer)
    appended.services).2

theorem reaches_archived :
    ∃ t : Task JobResult, (∃ o, t.phase = .finished (.archived (.ok o))) ∧
      System.Reaches services BucketId.Canonical (.init (∅, fun _ => none))
        ⟨archived, appended.appenders, [t], []⟩ := by
  have hjob := Prog.reaches_runOn (@Effect.undisturbed_serves services answer serve_answer)
    (Job.archiveBucket Pulpitum.Sample.bucket).prog appended.services
  have hcanonical : Pulpitum.Sample.bucket.Canonical := ⟨Pulpitum.Sample.record.eventTime, rfl⟩
  obtain ⟨t, ht, hrun⟩ := @System.reaches_job _ DurableTable.Routes BucketId.Canonical _ _
    appended.appenders [] [] (.archiveBucket Pulpitum.Sample.bucket) _ hcanonical hjob
  exact ⟨t, ⟨_, ht⟩, reaches_appended.trans hrun⟩

/-- The records of the partition from 2024 on, one a page. -/
def query (endAt : DateTime) : Query where
  partitionKey := [7]
  range := ⟨Pulpitum.Sample.newYear 2024 Pulpitum.Sample.year2024, endAt⟩
  after := none
  limit := 1

/-- The last day `chrono` has. -/
def lastDay : DateTime :=
  DateTime.midnight (.ofFields 262142 12 31 (by decide)) (by decide)

end Sample

/-- An append, the cutover of its bucket, an append to the next bucket, and the range of both. -/
theorem paging_complete_iff_of_cutover :
    ∃ s₀ : System services.State,
      (∃ t ∈ s₀.workers, ∃ o, t.phase = .finished (.archived (.ok o))) ∧
      s₀.appenders.map Appender.bucket = [Pulpitum.Sample.nextBucket, Pulpitum.Sample.bucket] ∧
      (∀ a ∈ s₀.appenders, a.Acknowledged) ∧
      ∀ {l : List Scan.Party} {s : System services.State} {scan : Scan},
        Run (Scan.Move services BucketId.Canonical Pulpitum.Sample.table
          (Sample.query Pulpitum.Sample.nextBucket.endAt)) (s₀, .start) l (s, scan) →
        Scan.Fresh Pulpitum.Sample.table (Sample.query Pulpitum.Sample.nextBucket.endAt) s →
        scan.Delivers BucketId.Canonical Pulpitum.Sample.table
          (Sample.query Pulpitum.Sample.nextBucket.endAt) s₀ l s := by
  obtain ⟨t, ht, hrun⟩ := Sample.reaches_archived
  have hrun := hrun.trans (System.reaches_append Pulpitum.Sample.routes_nextRecord
    (Sample.serve_answer _ _))
  have hlen : 2 ≤ usizeMax := by decide
  refine ⟨_, ⟨t, List.mem_cons_self .., ht⟩, rfl, ?_, (paging_complete_iff hrun
    ⟨?_, hlen⟩ (by decide) (by decide) (by decide)).mpr (by decide)⟩
  · exact List.forall_mem_cons.mpr ⟨rfl, List.forall_mem_singleton.mpr rfl⟩
  · refine List.pairwise_pair.mpr fun _ _ _ _ _ _ => ?_
    decide

/-- **A range that ends in the last year panics.**  With one acknowledged record in a table of
yearly buckets, the first page of a range from 2024 to the last day `chrono` has is a panic, so
the record is never returned. -/
theorem open_range_panics :
    ∃ scan : Scan, Run (Scan.Move services BucketId.Canonical Pulpitum.Sample.table
        (Sample.query Sample.lastDay)) (Sample.appended, .start) [.client]
        (Sample.appended, scan) ∧
      (∃ a ∈ Sample.appended.appenders, a.Acknowledged ∧
        Pulpitum.Sample.table.definition.bucketFor a.record = some a.bucket ∧
        a.record.partitionKey = (Sample.query Sample.lastDay).partitionKey ∧
        (Sample.query Sample.lastDay).range.contains a.record.eventTime) ∧
      scan.stage = .panicked := by
  have hr : (Sample.query Sample.lastDay).range.start <
      (Sample.query Sample.lastDay).range.endAt := by
    decide
  have hnone : Pulpitum.Sample.table.definition.bucketsForRange
      (Sample.query Sample.lastDay).partitionKey (Sample.query Sample.lastDay).range = none := by
    rw [← Option.not_isSome_iff_eq_none, TableDefinition.bucketsForRange_isSome_iff hr]
    decide
  refine ⟨_, .one (.client .call), ⟨_, List.mem_cons_self .., rfl, rfl, rfl, by decide⟩, ?_⟩
  exact Scan.call_panics hr (by decide) hnone

end InMemory
end Pulpitum
