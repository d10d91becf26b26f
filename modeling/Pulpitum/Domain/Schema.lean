import Mathlib
import Pulpitum.Domain.Model

/-!
# Domain — Schema

Table definitions, and the buckets a definition routes a time, a range or a write window to.
`none` stands for a panic: a calendar bucket whose bounds `chrono` cannot represent.

* `TableDefinition.mem_bucketsForRange`: the bucket of every time in a range is routed to.
* `TableDefinition.bucketsForRange_pairwise`: routed buckets follow one another in time.
* `TableDefinition.bucketsForRange_isSome_iff`: a range is routed exactly when it ends at or
  before the strategy's `horizon`.
-/

namespace Pulpitum
open Calendar

/-- The direction of a clustering column. -/
inductive SortDirection where
  | ascending
  | descending
deriving DecidableEq

/-- One field of the clustering key of a physical partition. -/
structure ClusteringColumn where
  field : String
  direction : SortDirection
deriving DecidableEq

/-- A logical table. -/
structure TableDefinition where
  name : String
  tableId : TableId
  partitionKey : String
  bucketTimeKey : String
  bucketStrategy : BucketStrategy
  clusteringKey : List ClusteringColumn
  writableBuckets : Fin 256
deriving DecidableEq

namespace TableDefinition

/-- The clustering key the record model has. -/
def requiredClusteringKey : List ClusteringColumn :=
  [⟨"event_time", .ascending⟩, ⟨"sort_key", .ascending⟩]

/-- `validate`. -/
def validate (d : TableDefinition) : Except DefinitionError Unit := do
  if isBlank d.name then throw .emptyName
  if isBlank d.tableId.asStr then throw .emptyTableId
  if d.bucketTimeKey ≠ "event_time" then throw (.unsupportedBucketTimeKey d.bucketTimeKey)
  if d.writableBuckets = 0 then throw .invalidWriteWindow
  if d.clusteringKey ≠ requiredClusteringKey then throw .unsupportedClusteringKey

/-- `bucket_for_event_time`. -/
def bucketForEventTime (d : TableDefinition) (partitionKey : PartitionKey) (eventTime : DateTime) :
    Option BucketId :=
  BucketId.forEventTimeWithStrategy d.tableId partitionKey d.bucketStrategy eventTime

/-- `bucket_for`. -/
def bucketFor (d : TableDefinition) (record : Record) : Option BucketId :=
  d.bucketForEventTime record.partitionKey record.eventTime

/-- The number of the last day `chrono` has. -/
def lastDay : ℤ := daysBeforeYear (maxYear + 1)

theorem dayNumber_le_lastDay (t : DateTime) : t.date.dayNumber ≤ lastDay :=
  (DateTime.representable_iff_dayNumber t.minYear_le).mp t.representable

variable {d : TableDefinition} {pk : PartitionKey} {t u e : DateTime} {b : BucketId}

theorem contains_of_bucketForEventTime (h : d.bucketForEventTime pk t = some b) : b.contains t :=
  BucketId.contains_of_forEventTime h

/-- The end of a bucket is a later day than any time in the bucket. -/
theorem dayNumber_lt_endAt (h : d.bucketForEventTime pk t = some b) :
    t.date.dayNumber < b.endAt.date.dayNumber := by
  obtain ⟨hb, -⟩ := BucketId.forEventTimeWithStrategy_eq_some h
  obtain ⟨-, ⟨_, he⟩⟩ := BucketStrategy.bucketBounds_eq_some hb
  rw [Date.dayNumber_lt_iff, he]
  exact d.bucketStrategy.lt_next_startOf _

/-- The loop of `buckets_for_range`: the buckets from the one of `eventTime` on that start before
`endAt`. -/
def bucketsFrom (d : TableDefinition) (pk : PartitionKey) (endAt eventTime : DateTime) :
    Option (List BucketId) :=
  match _h : d.bucketForEventTime pk eventTime with
  | none => none
  | some bucket =>
      if bucket.start < endAt then (bucket :: ·) <$> d.bucketsFrom pk endAt bucket.endAt
      else some []
termination_by (lastDay - eventTime.date.dayNumber).toNat
decreasing_by
  have h₁ := dayNumber_lt_endAt ‹_›
  have h₂ := dayNumber_le_lastDay bucket.endAt
  omega

/-- `buckets_for_range`. -/
def bucketsForRange (d : TableDefinition) (partitionKey : PartitionKey) (range : TimeRange) :
    Option (List BucketId) :=
  if range.endAt ≤ range.start then some []
  else d.bucketsFrom partitionKey range.endAt range.start

/-- The loop of `recent_buckets`: the `n` buckets before `bucket`, newest first. -/
def bucketsBefore (d : TableDefinition) (pk : PartitionKey) : ℕ → BucketId → Option (List BucketId)
  | 0, _ => some []
  | n + 1, bucket => do
      let previousEventTime ← DateTime.ofNanos (bucket.start.nanos - 1)
      let bucket ← d.bucketForEventTime pk previousEventTime
      let older ← d.bucketsBefore pk n bucket
      return bucket :: older

/-- `recent_buckets`. -/
def recentBuckets (d : TableDefinition) (partitionKey : PartitionKey) (eventTime : DateTime)
    (count : ℕ) : Option (List BucketId) :=
  if count = 0 then some []
  else do
    let bucket ← d.bucketForEventTime partitionKey eventTime
    let older ← d.bucketsBefore partitionKey (count - 1) bucket
    return (bucket :: older).reverse

/-- `writable_buckets_at`. -/
def writableBucketsAt (d : TableDefinition) (partitionKey : PartitionKey) (eventTime : DateTime) :
    Option (List BucketId) :=
  d.recentBuckets partitionKey eventTime d.writableBuckets

/-! ### The routed buckets -/

theorem bucketsFrom_none (h : d.bucketForEventTime pk t = none) : d.bucketsFrom pk e t = none := by
  rw [bucketsFrom]
  split
  · rfl
  · rename_i h'; rw [h] at h'; cases h'

theorem bucketsFrom_some (h : d.bucketForEventTime pk t = some b) :
    d.bucketsFrom pk e t =
      if b.start < e then (b :: ·) <$> d.bucketsFrom pk e b.endAt else some [] := by
  rw [bucketsFrom]
  split
  · rename_i h'; rw [h] at h'; cases h'
  · rename_i h'; rw [h] at h'; cases h'; rfl

/-- Induction along the loop of `buckets_for_range`. -/
theorem bucketsFrom_induction {P : DateTime → List BucketId → Prop}
    (stop : ∀ {t b}, d.bucketForEventTime pk t = some b → e ≤ b.start → P t [])
    (more : ∀ {t b bs}, d.bucketForEventTime pk t = some b → b.start < e → P b.endAt bs →
      P t (b :: bs)) :
    ∀ {t bs}, d.bucketsFrom pk e t = some bs → P t bs := by
  intro t
  induction hn : (lastDay - t.date.dayNumber).toNat using Nat.strong_induction_on
    generalizing t with
  | _ n ih =>
      intro bs h
      cases hb : d.bucketForEventTime pk t with
      | none => rw [bucketsFrom_none hb] at h; cases h
      | some b =>
          rw [bucketsFrom_some hb] at h
          split at h
          case isFalse hlt =>
              obtain rfl := Option.some.inj h
              exact stop hb (not_lt.mp hlt)
          case isTrue hlt =>
              obtain ⟨bs', hbs', rfl⟩ := Option.map_eq_some_iff.mp h
              have h₁ := dayNumber_lt_endAt hb
              have h₂ := dayNumber_le_lastDay b.endAt
              exact more hb hlt (ih _ (by omega) rfl hbs')

/-- Every routed bucket is the bucket of its own start, and starts before the range ends. -/
theorem bucketForEventTime_start (h : d.bucketForEventTime pk t = some b) :
    d.bucketForEventTime pk b.start = some b :=
  BucketId.forEventTimeWithStrategy_of_contains h
    ⟨le_rfl, (contains_of_bucketForEventTime h).1.trans_lt (contains_of_bucketForEventTime h).2⟩

/-- The bucket at the end of a bucket starts there. -/
theorem start_of_bucketForEventTime_endAt {b' : BucketId} (h : d.bucketForEventTime pk t = some b)
    (h' : d.bucketForEventTime pk b.endAt = some b') : b'.start = b.endAt := by
  obtain ⟨hb, -⟩ := BucketId.forEventTimeWithStrategy_eq_some h
  obtain ⟨hb', -⟩ := BucketId.forEventTimeWithStrategy_eq_some h'
  exact BucketStrategy.bucketBounds_end hb hb'

theorem bucketsFrom_spec {bs : List BucketId} (h : d.bucketsFrom pk e t = some bs) :
    (∀ b ∈ bs, d.bucketForEventTime pk b.start = some b ∧ b.start < e ∧ t < b.endAt) ∧
      bs.Pairwise (fun a b => a.endAt ≤ b.start) ∧
      ∀ u, t ≤ u → u < e → ∃ b ∈ bs, d.bucketForEventTime pk u = some b := by
  refine bucketsFrom_induction (P := fun t bs =>
    (∀ b ∈ bs, d.bucketForEventTime pk b.start = some b ∧ b.start < e ∧ t < b.endAt) ∧
      bs.Pairwise (fun a b => a.endAt ≤ b.start) ∧
      ∀ u, t ≤ u → u < e → ∃ b ∈ bs, d.bucketForEventTime pk u = some b) ?_ ?_ h
  · intro t b hb hle
    refine ⟨by simp, .nil, fun u htu hue => ?_⟩
    exact absurd (((contains_of_bucketForEventTime hb).1.trans htu).trans_lt hue) (not_lt.mpr hle)
  · rintro t b bs hb hlt ⟨hall, hpw, hcover⟩
    have hmem := contains_of_bucketForEventTime hb
    refine ⟨?_, List.pairwise_cons.mpr ⟨fun b' hb' => ?_, hpw⟩, fun u htu hue => ?_⟩
    · rintro b' (_ | ⟨_, hb'⟩)
      · exact ⟨bucketForEventTime_start hb, hlt, hmem.2⟩
      · obtain ⟨h₁, h₂, h₃⟩ := hall b' hb'
        exact ⟨h₁, h₂, hmem.2.trans h₃⟩
    · -- a later bucket contains the end of `b`, unless it starts there or after it
      obtain ⟨h₁, -, h₃⟩ := hall b' hb'
      by_contra hcon
      have hin : b'.contains b.endAt := ⟨(not_le.mp hcon).le, h₃⟩
      have hstart := start_of_bucketForEventTime_endAt hb
        (BucketId.forEventTimeWithStrategy_of_contains h₁ hin)
      exact hcon hstart.ge
    · by_cases hu : u < b.endAt
      · exact ⟨b, List.mem_cons_self .., BucketId.forEventTimeWithStrategy_of_contains hb
          ⟨hmem.1.trans htu, hu⟩⟩
      · obtain ⟨b', hb', hbu⟩ := hcover u (not_lt.mp hu) hue
        exact ⟨b', List.mem_cons_of_mem _ hb', hbu⟩

/-- The bucket of every time in a range is routed to. -/
theorem mem_bucketsForRange {range : TimeRange} {bs : List BucketId}
    (h : d.bucketsForRange pk range = some bs) (ht : range.contains t) :
    ∃ b ∈ bs, d.bucketForEventTime pk t = some b := by
  unfold bucketsForRange at h
  rw [if_neg (not_le.mpr (ht.1.trans_lt ht.2))] at h
  exact (bucketsFrom_spec h).2.2 t ht.1 ht.2

/-- Routed buckets are buckets of the partition. -/
theorem bucketForEventTime_of_mem {range : TimeRange} {bs : List BucketId}
    (h : d.bucketsForRange pk range = some bs) (hb : b ∈ bs) :
    d.bucketForEventTime pk b.start = some b := by
  unfold bucketsForRange at h
  split at h
  · obtain rfl := Option.some.inj h; cases hb
  · exact ((bucketsFrom_spec h).1 b hb).1

/-- Routed buckets follow one another in time. -/
theorem bucketsForRange_pairwise {range : TimeRange} {bs : List BucketId}
    (h : d.bucketsForRange pk range = some bs) : bs.Pairwise (fun a b => a.endAt ≤ b.start) := by
  unfold bucketsForRange at h
  split at h
  · obtain rfl := Option.some.inj h; exact .nil
  · exact (bucketsFrom_spec h).2.1

/-! ### Which ranges are routed -/

/-- The last time up to which ranges of a strategy are routed. -/
def horizon (d : TableDefinition) : DateTime :=
  DateTime.midnight d.bucketStrategy.horizon d.bucketStrategy.representable_horizon

theorem bucketForEventTime_isSome_iff :
    (d.bucketForEventTime pk t).isSome ↔
      d.bucketStrategy.startOf t.date ≤ d.bucketStrategy.horizon := by
  rw [← BucketStrategy.representable_next_iff]
  unfold bucketForEventTime BucketId.forEventTimeWithStrategy BucketStrategy.bucketBounds
    DateTime.midnight?
  simp only [DateTime.midnight]
  by_cases h : DateTime.Representable (d.bucketStrategy.next (d.bucketStrategy.startOf t.date)) <;>
    simp [h]

theorem start_le_horizon (h : d.bucketForEventTime pk t = some b) : b.start ≤ d.horizon := by
  obtain ⟨hb, -⟩ := BucketId.forEventTimeWithStrategy_eq_some h
  obtain ⟨⟨_, hs⟩, -⟩ := BucketStrategy.bucketBounds_eq_some hb
  rw [hs, DateTime.midnight_le]
  exact bucketForEventTime_isSome_iff.mp (by rw [h]; rfl)

/-- A bucket that starts before the horizon ends at or before it. -/
theorem endAt_le_horizon (h : d.bucketForEventTime pk t = some b) (hlt : b.start < d.horizon) :
    b.endAt ≤ d.horizon := by
  by_contra hcon
  have hin : d.bucketForEventTime pk d.horizon = some b :=
    BucketId.forEventTimeWithStrategy_of_contains h ⟨hlt.le, not_le.mp hcon⟩
  obtain ⟨hb, -⟩ := BucketId.forEventTimeWithStrategy_eq_some hin
  obtain ⟨⟨_, hs⟩, -⟩ := BucketStrategy.bucketBounds_eq_some hb
  refine hlt.ne (hs.trans (DateTime.midnight_congr ?_))
  exact d.bucketStrategy.startOf_horizon

theorem bucketsFrom_isSome (he : e ≤ d.horizon) :
    ∀ {t}, t ≤ d.horizon → (d.bucketsFrom pk e t).isSome := by
  intro t
  induction hn : (lastDay - t.date.dayNumber).toNat using Nat.strong_induction_on
    generalizing t with
  | _ n ih =>
      intro ht
      have hdate : t.date ≤ d.bucketStrategy.horizon := DateTime.date_le_date ht
      have hsome : (d.bucketForEventTime pk t).isSome :=
        bucketForEventTime_isSome_iff.mpr ((d.bucketStrategy.startOf_le _).trans hdate)
      obtain ⟨b, hb⟩ := Option.isSome_iff_exists.mp hsome
      rw [bucketsFrom_some hb]
      split
      case isFalse => rfl
      case isTrue hlt =>
          have h₁ := dayNumber_lt_endAt hb
          have h₂ := dayNumber_le_lastDay b.endAt
          rw [Option.map_eq_map, Option.isSome_map]
          exact ih _ (by omega) rfl (endAt_le_horizon hb (hlt.trans_le he))

/-- **Which ranges are routed**: those that end at or before the horizon of the strategy; for a
later end the source panics. -/
theorem bucketsForRange_isSome_iff {range : TimeRange} (hr : range.start < range.endAt) :
    (d.bucketsForRange pk range).isSome ↔ range.endAt ≤ d.horizon := by
  unfold bucketsForRange
  rw [if_neg (not_le.mpr hr)]
  refine ⟨fun h => ?_, fun h => bucketsFrom_isSome h (hr.le.trans h)⟩
  obtain ⟨bs, hbs⟩ := Option.isSome_iff_exists.mp h
  exact bucketsFrom_induction (P := fun _ _ => range.endAt ≤ d.horizon)
    (fun hb hle => hle.trans (start_le_horizon hb)) (fun _ _ ih => ih) hbs

end TableDefinition

namespace Sample

/-- The definition of the table of `Sample.bucket`. -/
def definition : TableDefinition where
  name := "events"
  tableId := ⟨"events", events_not_blank⟩
  partitionKey := "partition_key"
  bucketTimeKey := "event_time"
  bucketStrategy := .calendarYearUtc
  clusteringKey := TableDefinition.requiredClusteringKey
  writableBuckets := 1

end Sample

end Pulpitum
