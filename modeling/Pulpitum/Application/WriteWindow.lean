import Mathlib
import Pulpitum.Domain.Window
import Pulpitum.Application.DurableTable

/-!
# Application — WriteWindow

Which appends pass the write window, and which calls of a table return at all.

* `window_iff`: **the window is the most recent buckets**, and an append passes exactly when its
  bucket is one of them, as long as the current bucket has a representable end.
* `returns_iff`: **`append` and `query_page` return** exactly when the buckets they derive have
  representable ends; otherwise they panic.
-/

namespace Pulpitum

open TableDefinition

/-! ### The window -/

/-- `recent_buckets` returns `n` buckets, oldest first, adjoining, the last one with `now`. -/
def IsRecent (d : TableDefinition) (pk : PartitionKey) (now : DateTime) (n : ℕ) : Prop :=
  ∃ bs, d.recentBuckets pk now n = some bs ∧ bs.length = n ∧ Adjoined bs ∧
    ∃ b, bs.getLast? = some b ∧ b.contains now

/-- `append` passes the check of the write window. -/
def DurableTable.PassesWindow (table : DurableTable) (now : DateTime) (record : Record) : Prop :=
  ∃ bucket, table.routeAppend now record = some (.ok bucket)

/-- An append passes exactly when its time is from the start of the oldest writable bucket to the
end of the newest, and exactly when its bucket is a writable one. -/
def DurableTable.ChecksWindow (table : DurableTable) (now : DateTime) (record : Record) : Prop :=
  ∃ bs oldest newest, table.definition.writableBucketsAt record.partitionKey now = some bs ∧
    bs.head? = some oldest ∧ bs.getLast? = some newest ∧
    (table.PassesWindow now record ↔
      oldest.start ≤ record.eventTime ∧ record.eventTime < newest.endAt) ∧
    (table.PassesWindow now record ↔ ∃ b ∈ bs, table.definition.bucketFor record = some b)

section Window

variable {table : DurableTable} {d : TableDefinition} {pk : PartitionKey} {now t : DateTime}
  {record : Record} {b oldest newest : BucketId} {bs : List BucketId}

theorem writableBuckets_pos (table : DurableTable) :
    1 ≤ (table.definition.writableBuckets : ℕ) := by
  have hvalid := table.valid
  by_contra hlt
  have hzero : table.definition.writableBuckets = 0 := Fin.ext (by simp; omega)
  simp [TableDefinition.validate, hzero, bind, Except.bind, throw, throwThe,
    MonadExceptOf.throw] at hvalid
  split_ifs at hvalid

/-- The bucket of a record passes the check if and only if it starts in the window. -/
theorem passesWindow_iff (hb : table.definition.bucketFor record = some b)
    (hbs : table.definition.writableBucketsAt record.partitionKey now = some bs)
    (ho : bs.head? = some oldest) (hn : bs.getLast? = some newest) :
    table.PassesWindow now record ↔ oldest.start ≤ b.start ∧ b.start ≤ newest.start := by
  have hpk := (BucketId.forEventTimeWithStrategy_eq_some hb).2.2.1
  have hroute : table.routeAppend now record =
      if b.start < oldest.start ∨ b.start > newest.start then
        some (.error (.outsideWriteWindow b oldest.key newest.key))
      else some (.ok b) := by
    simp only [DurableTable.routeAppend, hb, hpk, hbs, ho, hn, Option.bind_eq_bind,
      Option.bind_some]
    split <;> rfl
  unfold DurableTable.PassesWindow
  rw [hroute]
  split
  · rename_i hout
    refine iff_of_false ?_ fun h => hout.elim (not_lt.mpr h.1) (not_lt.mpr h.2)
    rintro ⟨_, h⟩
    cases h
  · rename_i hin
    rw [not_or, not_lt, not_lt] at hin
    exact iff_of_true ⟨b, rfl⟩ hin

/-- **Starting in the window, being one of its buckets and having a time in it** are the same, for
a bucket of the partition. -/
theorem window_cases (hall : ∀ c ∈ bs, d.bucketForEventTime pk c.start = some c)
    (hadjoined : Adjoined bs) (ho : bs.head? = some oldest) (hn : bs.getLast? = some newest)
    (hb : d.bucketForEventTime pk t = some b) :
    (oldest.start ≤ b.start ∧ b.start ≤ newest.start ↔ b ∈ bs) ∧
      (oldest.start ≤ t ∧ t < newest.endAt ↔ b ∈ bs) := by
  have hpos : ∀ c ∈ bs, c.start < c.endAt := fun c hc =>
    (contains_of_bucketForEventTime (hall c hc)).2
  have hbounds := hadjoined.bounds hpos ho hn
  have hmem : newest ∈ bs := List.mem_of_getLast? hn
  -- a time in the window is in one of its buckets, and that is the bucket of the time
  have hcover : ∀ {u c}, d.bucketForEventTime pk u = some c → oldest.start ≤ u →
      u < newest.endAt → c ∈ bs := by
    intro u c hc h₁ h₂
    obtain ⟨x, hx, hin⟩ := hadjoined.exists_mem ho hn h₁ h₂
    have hxu := BucketId.forEventTimeWithStrategy_of_contains (hall x hx) hin
    cases hxu.symm.trans hc
    exact hx
  have hin := contains_of_bucketForEventTime hb
  refine ⟨⟨fun ⟨h₁, h₂⟩ => ?_, fun hbs => ⟨(hbounds b hbs).1, (hbounds b hbs).2.1⟩⟩,
    ⟨fun ⟨h₁, h₂⟩ => hcover hb h₁ h₂, fun hbs => ?_⟩⟩
  · exact hcover (bucketForEventTime_start hb) h₁ (h₂.trans_lt (hpos newest hmem))
  · exact ⟨(hbounds b hbs).1.trans hin.1, hin.2.trans_le (hbounds b hbs).2.2⟩

/-- The check of the window, when there is one. -/
theorem checksWindow_of_some
    (hbs : table.definition.writableBucketsAt record.partitionKey now = some bs) :
    table.ChecksWindow now record := by
  obtain ⟨hlength, hadjoined, hall, newest, hn, -⟩ :=
    recentBuckets_spec (writableBuckets_pos table) hbs
  obtain ⟨oldest, ho⟩ : ∃ oldest, bs.head? = some oldest := by
    cases bs with
    | nil => cases hn
    | cons b bs => exact ⟨b, rfl⟩
  refine ⟨bs, oldest, newest, hbs, ho, hn, ?_⟩
  cases hb : table.definition.bucketFor record with
  | some b =>
      obtain ⟨hstart, htime⟩ := window_cases hall hadjoined ho hn hb
      have hpasses := (passesWindow_iff hb hbs ho hn).trans hstart
      refine ⟨hpasses.trans htime.symm, hpasses.trans ⟨fun h => ⟨b, h, rfl⟩, ?_⟩⟩
      rintro ⟨c, hc, he⟩
      cases he
      exact hc
  | none =>
      -- a record without a bucket passes no check and has no time in the window
      have hnot : ¬ table.PassesWindow now record := by
        rintro ⟨c, hc⟩
        cases hb.symm.trans (DurableTable.bucketFor_of_routeAppend hc)
      refine ⟨iff_of_false hnot fun ⟨h₁, h₂⟩ => ?_, iff_of_false hnot fun ⟨_, _, h⟩ => by cases h⟩
      obtain ⟨x, hx, hin⟩ := hadjoined.exists_mem ho hn h₁ h₂
      cases hb.symm.trans (BucketId.forEventTimeWithStrategy_of_contains (hall x hx) hin)

/-- A time in the `n`-th bucket before gives one in each bucket after it. -/
theorem hasPrevious_pred {n : ℕ} (hb : d.bucketForEventTime pk t = some b)
    (h : d.bucketStrategy.HasPrevious t n) : d.bucketStrategy.HasPrevious t (n - 1) := by
  rw [← bucketsBefore_isSome_iff hb] at h ⊢
  cases n with
  | zero => exact h
  | succ n => exact bucketsBefore_isSome_pred h

/-- **The write window is exactly the most recent buckets**, for a `now` whose bucket has a
representable end. -/
theorem window_iff {n : ℕ} (hn : 1 ≤ n)
    (hprev : table.definition.bucketStrategy.HasPrevious now n)
    (hwindow : table.definition.bucketStrategy.HasPrevious now table.definition.writableBuckets) :
    IsRecent table.definition pk now n ∧ (∀ record, table.ChecksWindow now record) ↔
      now < table.definition.edge := by
  constructor
  · rintro ⟨⟨bs, hbs, -⟩, -⟩
    have hsome : (table.definition.recentBuckets pk now n).isSome := by rw [hbs]; rfl
    exact ((recentBuckets_isSome_iff hn).mp hsome).1
  · intro hedge
    -- every partition has a bucket at `now`, and the buckets before it
    have hsome : ∀ (k : PartitionKey) {m : ℕ}, 1 ≤ m →
        table.definition.bucketStrategy.HasPrevious now m →
          ∃ bs, table.definition.recentBuckets k now m = some bs := by
      intro k m hm hm'
      have hbucket : (table.definition.bucketForEventTime k now).isSome :=
        bucketForEventTime_isSome_iff_lt.mpr hedge
      obtain ⟨b, hb⟩ := Option.isSome_iff_exists.mp hbucket
      exact Option.isSome_iff_exists.mp
        ((recentBuckets_isSome_iff hm).mpr ⟨hedge, hasPrevious_pred hb hm'⟩)
    refine ⟨?_, fun record => ?_⟩
    · obtain ⟨bs, hbs⟩ := hsome pk hn hprev
      obtain ⟨hlength, hadjoined, -, hlast⟩ := recentBuckets_spec hn hbs
      exact ⟨bs, hbs, hlength, hadjoined, hlast⟩
    · obtain ⟨bs, hbs⟩ := hsome record.partitionKey (writableBuckets_pos table) hwindow
      exact checksWindow_of_some hbs

end Window

namespace Sample

/-- The first day of the last year that `chrono` has. -/
def lastYear : DateTime := newYear 262142 (by decide)

/-- A record of that day. -/
def lastRecord : Record := { record with eventTime := lastYear }

end Sample

/-- The year bucket is the whole write window of its table at the start of 2024. -/
theorem window_of_year :
    IsRecent Sample.table.definition [7] (Sample.newYear 2024 (by decide)) 2 ∧
      ∀ record, Sample.table.ChecksWindow (Sample.newYear 2024 (by decide)) record := by
  have htwo : Sample.table.definition.bucketStrategy.HasPrevious
      (Sample.newYear 2024 (by decide)) 2 :=
    ⟨Sample.newYear 2022 (by decide), rfl⟩
  have hone : Sample.table.definition.bucketStrategy.HasPrevious (Sample.newYear 2024 (by decide))
      Sample.table.definition.writableBuckets := ⟨Sample.newYear 2023 (by decide), rfl⟩
  exact (window_iff (by decide) htwo hone).mpr (by decide)

/-- **In the last year there is no window**: the year before it is representable, but the end of
the year itself is not, and the source panics. -/
theorem last_year_has_no_window :
    Sample.table.definition.bucketStrategy.HasPrevious Sample.lastYear 1 ∧
      Sample.table.definition.recentBuckets [7] Sample.lastYear 1 = none :=
  ⟨⟨Sample.newYear 262141 (by decide), rfl⟩, rfl⟩

/-! ### Which calls return -/

section Returns

variable {table : DurableTable} {now : DateTime} {record : Record} {query : Query}

/-- An append is routed, or refused, exactly when it has a bucket and there is a window. -/
theorem routeAppend_isSome_iff :
    (table.routeAppend now record).isSome ↔ (table.definition.bucketFor record).isSome ∧
      (table.definition.writableBucketsAt record.partitionKey now).isSome := by
  cases hb : table.definition.bucketFor record with
  | none => simp [DurableTable.routeAppend, hb]
  | some b =>
      have hpk := (BucketId.forEventTimeWithStrategy_eq_some hb).2.2.1
      cases hbs : table.definition.writableBucketsAt record.partitionKey now with
      | none => simp [DurableTable.routeAppend, hb, hpk, hbs]
      | some bs =>
          obtain ⟨_, oldest, newest, hbs', ho, hn, -⟩ := checksWindow_of_some hbs
          cases hbs.symm.trans hbs'
          simp only [DurableTable.routeAppend, hb, hpk, hbs, ho, hn, Option.bind_eq_bind,
            Option.bind_some]
          split <;> simp

theorem append_isSome_iff :
    (table.append now record).isSome ↔ (table.routeAppend now record).isSome := by
  cases hr : table.routeAppend now record with
  | none => simp [DurableTable.append, hr]
  | some r => cases r <;> simp [DurableTable.append, hr]

theorem openPage_isSome_iff :
    (table.openPage query).isSome ↔ query.range.endAt ≤ query.range.start ∨ query.limit = 0 ∨
      query.range.endAt ≤ table.definition.horizon := by
  unfold DurableTable.openPage
  split
  · rename_i hge
    exact iff_of_true rfl (.inl hge)
  split
  · rename_i hzero
    exact iff_of_true rfl (.inr (.inl hzero))
  · rename_i hge hzero
    rw [ge_iff_le, not_le] at hge
    have hroute : (table.definition.bucketsForRange query.partitionKey query.range).isSome ↔ _ :=
      bucketsForRange_isSome_iff hge
    rw [or_iff_right (not_le.mpr hge), or_iff_right hzero, ← hroute]
    cases table.definition.bucketsForRange query.partitionKey query.range <;> simp

/-- **When the calls of a table return.**  `append` returns exactly when the buckets of the event
time and of the current time have representable ends and `chrono` has a time in the oldest
writable bucket; `query_page` exactly when the range is empty, nothing is asked for, or the range
ends at or before the start of the last bucket. -/
theorem returns_iff (table : DurableTable) (now : DateTime) (record : Record) (query : Query) :
    ((table.append now record).isSome ↔ record.eventTime < table.definition.edge ∧
      now < table.definition.edge ∧ table.definition.bucketStrategy.HasPrevious now
        (table.definition.writableBuckets - 1)) ∧
    ((table.openPage query).isSome ↔ query.range.endAt ≤ query.range.start ∨ query.limit = 0 ∨
      query.range.endAt ≤ table.definition.horizon) := by
  refine ⟨?_, openPage_isSome_iff⟩
  have hwindow : (table.definition.writableBucketsAt record.partitionKey now).isSome ↔ _ :=
    recentBuckets_isSome_iff (writableBuckets_pos table)
  have hbucket : (table.definition.bucketFor record).isSome ↔
      record.eventTime < table.definition.edge := bucketForEventTime_isSome_iff_lt
  rw [append_isSome_iff, routeAppend_isSome_iff, hwindow, hbucket]

end Returns

/-- **An append to the last year panics**, and so does a query up to the last year. -/
theorem last_year_panics :
    (Sample.table.append (Sample.newYear 2024 (by decide)) Sample.lastRecord).isSome = false ∧
      Sample.table.openPage ⟨[7], ⟨Sample.newYear 2024 (by decide), Sample.lastYear⟩, none, 1⟩ =
        none := by
  refine ⟨rfl, ?_⟩
  have hnone : ¬ (Sample.table.openPage
      ⟨[7], ⟨Sample.newYear 2024 (by decide), Sample.lastYear⟩, none, 1⟩).isSome := by
    rw [openPage_isSome_iff]
    decide
  exact Option.not_isSome_iff_eq_none.mp hnone

end Pulpitum
