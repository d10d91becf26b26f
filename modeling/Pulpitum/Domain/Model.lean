import Mathlib
import Pulpitum.Support.Text
import Pulpitum.Domain.Time

/-!
# Domain — Model

Table identifiers, calendar buckets, records, cursors and ranges.

A strategy cuts time into the calendar years, months or days of UTC.  `bucketBounds` is `none`
where the source's `expect` panics: at a bucket whose end is past the last year `chrono` has.

* `BucketStrategy.bucketBounds_contains`: a time lies in the bounds derived from it.
* `BucketStrategy.startOf_eq_of_mem`: every time inside a bucket derives that bucket.
* `BucketStrategy.keyText_inj`: the text of a bucket key determines the strategy and the bucket.
* `BucketId.forEventTimeWithStrategy_of_contains`, `BucketId.Canonical.eq_of_key`: the same, of
  whole bucket identifiers.
-/

namespace Pulpitum
open Calendar Text

/-! ### Names and opaque keys -/

/-- The characters `str::trim` removes: Unicode's `White_Space`. -/
def isWhiteSpace (c : Char) : Bool :=
  (0x9 ≤ c.val && c.val ≤ 0xD) || c.val == 0x20 || c.val == 0x85 || c.val == 0xA0 ||
  c.val == 0x1680 || (0x2000 ≤ c.val && c.val ≤ 0x200A) || c.val == 0x2028 || c.val == 0x2029 ||
  c.val == 0x202F || c.val == 0x205F || c.val == 0x3000

/-- `value.trim().is_empty()`. -/
def isBlank (value : String) : Bool := value.toList.all isWhiteSpace

theorem isBlank_append_left {a b : String} (h : isBlank a = false) : isBlank (a ++ b) = false := by
  unfold isBlank at *
  rw [String.toList_append, List.all_append, h, Bool.false_and]

/-- Why a table definition is refused. -/
inductive DefinitionError where
  | emptyName
  | emptyTableId
  | unsupportedBucketTimeKey (key : String)
  | unsupportedClusteringKey
  | invalidWriteWindow
deriving DecidableEq

/-- The physical namespace of one logical table. -/
@[ext]
structure TableId where
  asStr : String
  not_blank : isBlank asStr = false
deriving DecidableEq

/-- `TableId::new`. -/
def TableId.new (value : String) : Except DefinitionError TableId :=
  if h : isBlank value = false then .ok ⟨value, h⟩ else .error .emptyTableId

/-- Opaque logical partition key bytes. -/
abbrev PartitionKey := List Byte

/-- Opaque clustering key bytes. -/
abbrev SortKey := List Byte

/-- The identity of one time bucket. -/
@[ext]
structure BucketKey where
  asStr : String
  not_blank : isBlank asStr = false
deriving DecidableEq

/-! ### Bucket strategies -/

/-- The calendar granularity of a table's buckets. -/
inductive BucketStrategy where
  | calendarYearUtc
  | calendarMonthUtc
  | calendarDayUtc
deriving DecidableEq

namespace BucketStrategy

/-- `as_str`. -/
def asStr : BucketStrategy → String
  | calendarYearUtc => "calendar_year_utc"
  | calendarMonthUtc => "calendar_month_utc"
  | calendarDayUtc => "calendar_day_utc"

/-- `from_str`. -/
def fromStr (value : String) : Option BucketStrategy :=
  if value = "calendar_year_utc" then some calendarYearUtc
  else if value = "calendar_month_utc" then some calendarMonthUtc
  else if value = "calendar_day_utc" then some calendarDayUtc
  else none

@[simp]
theorem fromStr_asStr : ∀ s : BucketStrategy, fromStr s.asStr = some s
  | calendarYearUtc => by decide
  | calendarMonthUtc => by decide
  | calendarDayUtc => by decide

/-- The text of the bucket key of the day `d`. -/
def keyText : BucketStrategy → Date → String
  | calendarYearUtc, d => "year:" ++ signedPadded 4 d.year
  | calendarMonthUtc, d => "month:" ++ (signedPadded 4 d.year ++ "-" ++ zeroPadded 2 d.month)
  | calendarDayUtc, d =>
      "day:" ++ (signedPadded 4 d.year ++ "-" ++ zeroPadded 2 d.month ++ "-" ++
        zeroPadded 2 d.day)

theorem keyText_not_blank (s : BucketStrategy) (d : Date) : isBlank (s.keyText d) = false := by
  cases s <;> exact isBlank_append_left (by decide)

/-- `bucket_key`. -/
def bucketKey (s : BucketStrategy) (eventTime : DateTime) : BucketKey :=
  ⟨s.keyText eventTime.date, s.keyText_not_blank _⟩

/-- The first day of the bucket of the day `d`. -/
def startOf : BucketStrategy → Date → Date
  | calendarYearUtc, d => d.firstOfYear
  | calendarMonthUtc, d => d.firstOfMonth
  | calendarDayUtc, d => d

/-- The first day of the bucket after the one that starts with `d`. -/
def next : BucketStrategy → Date → Date
  | calendarYearUtc, d => d.addMonths 12
  | calendarMonthUtc, d => d.addMonths 1
  | calendarDayUtc, d => d.addDays 1

theorem representable_startOf (s : BucketStrategy) (t : DateTime) :
    DateTime.Representable (s.startOf t.date) := by
  cases s <;> exact t.representable

/-- `bucket_bounds`; `none` where the bucket's end is not representable and the source panics. -/
def bucketBounds (s : BucketStrategy) (eventTime : DateTime) : Option (DateTime × DateTime) := do
  let start := DateTime.midnight (s.startOf eventTime.date) (s.representable_startOf eventTime)
  let endAt ← DateTime.midnight? (s.next start.date)
  return (start, endAt)

theorem startOf_le (s : BucketStrategy) (d : Date) : s.startOf d ≤ d := by
  cases s with
  | calendarYearUtc => exact d.firstOfYear_le
  | calendarMonthUtc => exact d.firstOfMonth_le
  | calendarDayUtc => exact le_rfl

theorem lt_next_startOf (s : BucketStrategy) (d : Date) : d < s.next (s.startOf d) := by
  cases s with
  | calendarYearUtc => exact d.lt_addMonths_year
  | calendarMonthUtc => exact d.lt_addMonths_one
  | calendarDayUtc => exact d.lt_addDays_one

/-- Every day from a bucket's first to its last has that first day. -/
theorem startOf_eq_of_mem (s : BucketStrategy) {d u : Date} (h₁ : s.startOf d ≤ u)
    (h₂ : u < s.next (s.startOf d)) : s.startOf u = s.startOf d := by
  cases s with
  | calendarYearUtc =>
      have hm := u.month_pos
      have hd := u.day_pos
      rw [← not_lt, Date.lt_iff] at h₁
      rw [Date.lt_iff] at h₂
      simp only [startOf, next, Date.firstOfYear, Date.addMonths] at h₁ h₂
      have hy : u.year = d.year := by omega
      exact Date.ext hy rfl rfl
  | calendarMonthUtc =>
      have hm := d.month_pos
      have hm' := d.month_le
      have hu := u.month_pos
      have hu' := u.month_le
      have hd := u.day_pos
      rw [← not_lt, Date.lt_iff] at h₁
      rw [Date.lt_iff] at h₂
      simp only [startOf, next, Date.firstOfMonth, Date.addMonths] at h₁ h₂
      have hy : u.year = d.year ∧ u.month = d.month := by omega
      exact Date.ext hy.1 hy.2 rfl
  | calendarDayUtc =>
      refine le_antisymm ?_ h₁
      change u ≤ d
      have : u < d.addDays 1 := h₂
      rw [← Date.dayNumber_lt_iff, Date.dayNumber_addDays] at this
      rw [← not_lt, ← Date.dayNumber_lt_iff]; omega

/-- The bucket after a bucket starts where it ends. -/
theorem startOf_next (s : BucketStrategy) (d : Date) :
    s.startOf (s.next (s.startOf d)) = s.next (s.startOf d) := by
  cases s with
  | calendarYearUtc =>
      refine Date.ext rfl ?_ (Date.day_addMonths_of_first 12 rfl).symm
      simp only [startOf, next, Date.firstOfYear, Date.addMonths]; omega
  | calendarMonthUtc => exact Date.ext rfl rfl (Date.day_addMonths_of_first 1 rfl).symm
  | calendarDayUtc => rfl

theorem bucketBounds_eq_some {s : BucketStrategy} {t a e : DateTime}
    (h : s.bucketBounds t = some (a, e)) :
    (∃ h₁, a = DateTime.midnight (s.startOf t.date) h₁) ∧
      ∃ h₂, e = DateTime.midnight (s.next (s.startOf t.date)) h₂ := by
  simp only [bucketBounds, Option.bind_eq_bind, Option.bind_eq_some_iff] at h
  obtain ⟨e', he, h⟩ := h
  obtain ⟨rfl, rfl⟩ := Prod.mk.inj (Option.some.inj h)
  exact ⟨⟨_, rfl⟩, DateTime.midnight?_eq_some he⟩

/-- A time lies in the bounds derived from it. -/
theorem bucketBounds_contains {s : BucketStrategy} {t a e : DateTime}
    (h : s.bucketBounds t = some (a, e)) : a ≤ t ∧ t < e := by
  obtain ⟨⟨h₁, rfl⟩, ⟨h₂, rfl⟩⟩ := bucketBounds_eq_some h
  exact ⟨DateTime.midnight_le.mpr (s.startOf_le _), DateTime.lt_midnight.mpr (s.lt_next_startOf _)⟩

/-- The bucket at the end of a bucket starts there. -/
theorem bucketBounds_end {s : BucketStrategy} {t a e : DateTime} {p : DateTime × DateTime}
    (ht : s.bucketBounds t = some (a, e)) (he : s.bucketBounds e = some p) : p.1 = e := by
  obtain ⟨-, ⟨h₂, hend⟩⟩ := bucketBounds_eq_some ht
  obtain ⟨⟨h₁, hstart⟩, -⟩ := bucketBounds_eq_some (a := p.1) (e := p.2) he
  have hdate : e.date = s.next (s.startOf t.date) := by rw [hend]; rfl
  calc p.1 = DateTime.midnight (s.startOf e.date) h₁ := hstart
    _ = DateTime.midnight (s.next (s.startOf t.date)) h₂ :=
        DateTime.midnight_congr (by rw [hdate, startOf_next])
    _ = e := hend.symm

/-- The bounds of a time depend on the first day of its bucket only. -/
theorem bucketBounds_congr {s : BucketStrategy} {t u : DateTime}
    (h : s.startOf u.date = s.startOf t.date) : s.bucketBounds u = s.bucketBounds t := by
  simp only [bucketBounds, DateTime.midnight, h]

/-- Every time inside the bounds derives them. -/
theorem bucketBounds_of_mem {s : BucketStrategy} {t u a e : DateTime}
    (h : s.bucketBounds t = some (a, e)) (h₁ : a ≤ u) (h₂ : u < e) :
    s.bucketBounds u = some (a, e) := by
  rw [← h]
  obtain ⟨⟨_, rfl⟩, ⟨_, rfl⟩⟩ := bucketBounds_eq_some h
  exact bucketBounds_congr
    (s.startOf_eq_of_mem (DateTime.midnight_le.mp h₁) (DateTime.lt_midnight.mp h₂))

/-! ### The last bucket -/

/-- The first day of the last bucket whose end is representable. -/
def horizon : BucketStrategy → Date
  | calendarYearUtc => .ofFields 262141 1 1 (by decide)
  | calendarMonthUtc => .ofFields 262142 11 1 (by decide)
  | calendarDayUtc => .ofFields 262142 12 30 (by decide)

theorem representable_horizon (s : BucketStrategy) : DateTime.Representable s.horizon := by
  cases s <;> decide

theorem startOf_horizon (s : BucketStrategy) : s.startOf s.horizon = s.horizon := by
  cases s <;> rfl

/-- The end of a bucket is representable when the bucket starts at or before the horizon. -/
theorem representable_next_iff (s : BucketStrategy) (t : DateTime) :
    DateTime.Representable (s.next (s.startOf t.date)) ↔ s.startOf t.date ≤ s.horizon := by
  have h₁ := t.minYear_le
  have h₂ := t.le_maxYear
  have h₃ := t.date.month_pos
  have h₄ := t.date.month_le
  cases s with
  | calendarYearUtc =>
      rw [← not_lt, Date.lt_iff]
      simp only [DateTime.Representable, startOf, next, horizon, Date.ofFields, Date.firstOfYear,
        Date.addMonths, minYear, maxYear] at *
      omega
  | calendarMonthUtc =>
      rw [← not_lt, Date.lt_iff]
      simp only [DateTime.Representable, startOf, next, horizon, Date.ofFields, Date.firstOfMonth,
        Date.addMonths, minYear, maxYear] at *
      omega
  | calendarDayUtc =>
      have hday : (horizon calendarDayUtc).dayNumber + 1 = daysBeforeYear (maxYear + 1) := by decide
      have hmono : t.date.year ≤ (t.date.addDays 1).year := by
        have := Date.lt_iff.mp t.date.lt_addDays_one
        omega
      change DateTime.Representable (t.date.addDays 1) ↔ t.date ≤ _
      rw [← not_lt, ← Date.dayNumber_lt_iff,
        DateTime.representable_iff_dayNumber (h₁.trans hmono), Date.dayNumber_addDays]
      omega

/-! ### The key of a bucket -/

theorem keyText_startOf (s : BucketStrategy) (d : Date) :
    s.keyText (s.startOf d) = s.keyText d := by
  cases s <;> rfl

theorem dash_notMem_paddedDigits (w n : ℕ) : '-' ∉ paddedDigits w n := fun h =>
  absurd (isDigit_of_mem_paddedDigits h) (by decide)

/-- Two texts that end in a dash and a padded number are equal only if both parts are. -/
theorem dash_zeroPadded_inj {a b : String} {w m n : ℕ}
    (h : a ++ "-" ++ zeroPadded w m = b ++ "-" ++ zeroPadded w n) : a = b ∧ m = n := by
  have h' : a.toList ++ '-' :: paddedDigits w m = b.toList ++ '-' :: paddedDigits w n := by
    simpa [toList_zeroPadded] using congrArg String.toList h
  obtain ⟨h₁, h₂⟩ := sep_append_inj (dash_notMem_paddedDigits w m) (dash_notMem_paddedDigits w n) h'
  exact ⟨String.toList_inj.mp h₁, paddedDigits_injective w h₂⟩

theorem append_left_cancel' {a b c : String} (h : a ++ b = a ++ c) : b = c := by
  rw [← String.toList_inj] at h ⊢
  simpa using h

/-- **A key names one bucket**: equal texts come of one strategy and of days of one bucket. -/
theorem keyText_inj {s s' : BucketStrategy} {d d' : Date} (h : s.keyText d = s'.keyText d') :
    s = s' ∧ s.startOf d = s'.startOf d' := by
  have hd : (s.keyText d).toList.head? = (s'.keyText d').toList.head? := by rw [h]
  cases s <;> cases s' <;> simp [keyText] at hd
  case calendarYearUtc.calendarYearUtc =>
      have hy := signedPadded_injective 4 (append_left_cancel' h)
      exact ⟨rfl, Date.ext hy rfl rfl⟩
  case calendarMonthUtc.calendarMonthUtc =>
      obtain ⟨h₁, h₂⟩ := dash_zeroPadded_inj (append_left_cancel' h)
      exact ⟨rfl, Date.ext (signedPadded_injective 4 h₁) h₂ rfl⟩
  case calendarDayUtc.calendarDayUtc =>
      obtain ⟨h₁, h₃⟩ := dash_zeroPadded_inj (append_left_cancel' h)
      obtain ⟨h₁, h₂⟩ := dash_zeroPadded_inj h₁
      exact ⟨rfl, Date.ext (signedPadded_injective 4 h₁) h₂ h₃⟩

/-- The text of a bucket key is one component of a path. -/
theorem slash_notMem_keyText (s : BucketStrategy) (d : Date) : '/' ∉ (s.keyText d).toList := by
  have signed : ∀ w z, '/' ∉ (signedPadded w z).toList := fun w z h => by
    rcases mem_signedPadded h with h | h
    · exact absurd h (by decide)
    · exact absurd h (by decide)
  have padded : ∀ w n, '/' ∉ paddedDigits w n := fun w n h =>
    absurd (isDigit_of_mem_paddedDigits h) (by decide)
  cases s <;> simp [keyText, toList_zeroPadded, signed, padded]

theorem colon_mem_keyText (s : BucketStrategy) (d : Date) : ':' ∈ (s.keyText d).toList := by
  cases s <;> simp [keyText]

end BucketStrategy

/-! ### Buckets -/

/-- A physical partition: the table, the logical partition, and the bucket's strategy, key and
bounds. -/
@[ext]
structure BucketId where
  tableId : TableId
  partitionKey : PartitionKey
  strategy : BucketStrategy
  key : BucketKey
  start : DateTime
  endAt : DateTime
deriving DecidableEq

namespace BucketId

/-- What two buckets are compared by: their fields in the order of their declaration. -/
def fields (b : BucketId) : String ×ₗ PartitionKey ×ₗ ℕ ×ₗ String ×ₗ DateTime ×ₗ DateTime :=
  toLex (b.tableId.asStr, toLex (b.partitionKey, toLex (b.strategy.ctorIdx,
    toLex (b.key.asStr, toLex (b.start, b.endAt)))))

theorem fields_injective : Function.Injective fields := by
  intro a b h
  simp only [fields, EmbeddingLike.apply_eq_iff_eq, Prod.mk.injEq] at h
  obtain ⟨h₁, h₂, h₃, h₄, h₅, h₆⟩ := h
  have hs : a.strategy = b.strategy := by
    revert h₃; cases a.strategy <;> cases b.strategy <;> simp [BucketStrategy.ctorIdx]
  exact BucketId.ext (TableId.ext h₁) h₂ hs (BucketKey.ext h₄) h₅ h₆

instance : LinearOrder BucketId := LinearOrder.lift' fields fields_injective

/-- `for_event_time_with_strategy`. -/
def forEventTimeWithStrategy (tableId : TableId) (partitionKey : PartitionKey)
    (strategy : BucketStrategy) (eventTime : DateTime) : Option BucketId := do
  let (start, endAt) ← strategy.bucketBounds eventTime
  return { tableId, partitionKey, strategy, key := strategy.bucketKey eventTime, start, endAt }

/-- `contains`. -/
def contains (b : BucketId) (eventTime : DateTime) : Prop :=
  b.start ≤ eventTime ∧ eventTime < b.endAt

instance (b : BucketId) : DecidablePred b.contains := fun t => by unfold contains; infer_instance

/-- The bucket is one that a strategy derives from an event time. -/
def Canonical (b : BucketId) : Prop :=
  ∃ t, forEventTimeWithStrategy b.tableId b.partitionKey b.strategy t = some b

section ForEventTime

variable {tid : TableId} {pk : PartitionKey} {s : BucketStrategy} {t u : DateTime} {b : BucketId}

theorem forEventTimeWithStrategy_eq_some (h : forEventTimeWithStrategy tid pk s t = some b) :
    s.bucketBounds t = some (b.start, b.endAt) ∧ b.tableId = tid ∧ b.partitionKey = pk ∧
      b.strategy = s ∧ b.key = s.bucketKey t := by
  simp only [forEventTimeWithStrategy, Option.bind_eq_bind, Option.bind_eq_some_iff] at h
  obtain ⟨⟨a, e⟩, hb, h⟩ := h
  obtain rfl := Option.some.inj h
  exact ⟨hb, rfl, rfl, rfl, rfl⟩

/-- A time lies in the bucket derived from it. -/
theorem contains_of_forEventTime (h : forEventTimeWithStrategy tid pk s t = some b) :
    b.contains t :=
  BucketStrategy.bucketBounds_contains (forEventTimeWithStrategy_eq_some h).1

/-- Times of one calendar bucket derive the same bucket. -/
theorem forEventTimeWithStrategy_congr (h : s.startOf u.date = s.startOf t.date) :
    forEventTimeWithStrategy tid pk s u = forEventTimeWithStrategy tid pk s t := by
  have hk : s.bucketKey u = s.bucketKey t := by
    refine BucketKey.ext ?_
    change s.keyText u.date = s.keyText t.date
    rw [← s.keyText_startOf u.date, h, s.keyText_startOf]
  simp only [forEventTimeWithStrategy, BucketStrategy.bucketBounds_congr h, hk]

/-- Every time inside a derived bucket derives it. -/
theorem forEventTimeWithStrategy_of_contains (h : forEventTimeWithStrategy tid pk s t = some b)
    (hu : b.contains u) : forEventTimeWithStrategy tid pk s u = some b := by
  obtain ⟨hb, -⟩ := forEventTimeWithStrategy_eq_some h
  obtain ⟨⟨h₁, e₁⟩, ⟨h₂, e₂⟩⟩ := BucketStrategy.bucketBounds_eq_some hb
  obtain ⟨hs, he⟩ := hu
  rw [e₁, DateTime.midnight_le] at hs
  rw [e₂, DateTime.lt_midnight] at he
  rw [← h]
  exact forEventTimeWithStrategy_congr (s.startOf_eq_of_mem hs he)

theorem canonical_of_forEventTime (h : forEventTimeWithStrategy tid pk s t = some b) :
    b.Canonical := by
  obtain ⟨-, rfl, rfl, rfl, -⟩ := forEventTimeWithStrategy_eq_some h
  exact ⟨t, h⟩

end ForEventTime

/-- Canonical buckets with the same table, partition and key are equal. -/
theorem Canonical.eq_of_key {a b : BucketId} (ha : a.Canonical) (hb : b.Canonical)
    (ht : a.tableId = b.tableId) (hp : a.partitionKey = b.partitionKey) (hk : a.key = b.key) :
    a = b := by
  obtain ⟨t, ha⟩ := ha
  obtain ⟨u, hb⟩ := hb
  obtain ⟨-, -, -, -, hka⟩ := forEventTimeWithStrategy_eq_some ha
  obtain ⟨-, -, -, -, hkb⟩ := forEventTimeWithStrategy_eq_some hb
  have hkey : a.strategy.keyText t.date = b.strategy.keyText u.date := by
    have := congrArg BucketKey.asStr (hka.symm.trans (hk.trans hkb))
    exact this
  obtain ⟨hs, hd⟩ := BucketStrategy.keyText_inj hkey
  rw [ht, hp, hs, forEventTimeWithStrategy_congr (hs ▸ hd), hb] at ha
  exact (Option.some.inj ha).symm

/-- The key of a canonical bucket is one component of a path. -/
theorem Canonical.slash_notMem_key {b : BucketId} (hb : b.Canonical) :
    '/' ∉ b.key.asStr.toList := by
  obtain ⟨t, ht⟩ := hb
  obtain ⟨-, -, -, -, hk⟩ := forEventTimeWithStrategy_eq_some ht
  rw [hk]
  exact b.strategy.slash_notMem_keyText t.date

/-- The key of a canonical bucket has a colon after the name of its strategy. -/
theorem Canonical.colon_mem_key {b : BucketId} (hb : b.Canonical) : ':' ∈ b.key.asStr.toList := by
  obtain ⟨t, ht⟩ := hb
  obtain ⟨-, -, -, -, hk⟩ := forEventTimeWithStrategy_eq_some ht
  rw [hk]
  exact b.strategy.colon_mem_keyText t.date

/-- The bounds of a canonical bucket are midnights. -/
theorem Canonical.bounds {b : BucketId} (hb : b.Canonical) :
    (∃ d h, b.start = DateTime.midnight d h) ∧ (∃ d h, b.endAt = DateTime.midnight d h) ∧
      b.start < b.endAt := by
  obtain ⟨t, ht⟩ := hb
  obtain ⟨hs, he⟩ := BucketStrategy.bucketBounds_eq_some (forEventTimeWithStrategy_eq_some ht).1
  obtain ⟨h₁, h₂⟩ := contains_of_forEventTime ht
  exact ⟨⟨_, hs⟩, ⟨_, he⟩, h₁.trans_lt h₂⟩

end BucketId

/-! ### Records -/

/-- A record; inside a bucket, records are sorted by `(event_time, sort_key)`. -/
@[ext]
structure Record where
  partitionKey : PartitionKey
  eventTime : DateTime
  sortKey : SortKey
  value : List Byte
deriving DecidableEq

/-- A continuation token for the `(event_time, sort_key)` order. -/
structure Cursor where
  eventTime : DateTime
  sortKey : SortKey
deriving DecidableEq

/-- What a position in the `(event_time, sort_key)` order is compared by. -/
abbrev ClusteringKey := DateTime ×ₗ SortKey

/-- The record's place in the `(event_time, sort_key)` order. -/
def Record.clusteringKey (r : Record) : ClusteringKey := toLex (r.eventTime, r.sortKey)

/-- The cursor's place in the `(event_time, sort_key)` order. -/
def Cursor.clusteringKey (c : Cursor) : ClusteringKey := toLex (c.eventTime, c.sortKey)

/-- `Cursor::from`. -/
def Record.cursor (r : Record) : Cursor := ⟨r.eventTime, r.sortKey⟩

@[simp]
theorem Record.clusteringKey_cursor (r : Record) : r.cursor.clusteringKey = r.clusteringKey := rfl

/-- `sort_by` on `(event_time, sort_key)`: stable. -/
def sortByKey (rs : List Record) : List Record :=
  rs.insertionSort fun a b => a.clusteringKey ≤ b.clusteringKey

theorem sortByKey_perm (rs : List Record) : (sortByKey rs).Perm rs := List.perm_insertionSort _ _

theorem sortByKey_pairwise (rs : List Record) :
    (sortByKey rs).Pairwise fun a b => a.clusteringKey ≤ b.clusteringKey := by
  have : Std.Total fun a b : Record => a.clusteringKey ≤ b.clusteringKey :=
    ⟨fun _ _ => le_total _ _⟩
  have : IsTrans Record fun a b : Record => a.clusteringKey ≤ b.clusteringKey :=
    ⟨fun _ _ _ => le_trans⟩
  exact List.pairwise_insertionSort _ _

/-- An inclusive start and an exclusive end. -/
structure TimeRange where
  start : DateTime
  endAt : DateTime

/-- `TimeRange::contains`. -/
def TimeRange.contains (range : TimeRange) (timestamp : DateTime) : Prop :=
  range.start ≤ timestamp ∧ timestamp < range.endAt

instance (range : TimeRange) : DecidablePred range.contains := fun t => by
  unfold TimeRange.contains; infer_instance

/-- Records with different keys have one order. -/
theorem sortByKey_congr {rs rs' : List Record} (h : rs.Perm rs')
    (hd : ∀ a ∈ rs, ∀ b ∈ rs, a.clusteringKey = b.clusteringKey → a = b) :
    sortByKey rs = sortByKey rs' := by
  refine List.Perm.eq_of_pairwise (fun a b ha hb hab hba => ?_) (sortByKey_pairwise rs)
    (sortByKey_pairwise rs') (((sortByKey_perm rs).trans h).trans (sortByKey_perm rs').symm)
  have ha : a ∈ rs := (sortByKey_perm rs).mem_iff.mp ha
  have hb : b ∈ rs := h.mem_iff.mpr ((sortByKey_perm rs').mem_iff.mp hb)
  exact hd a ha b hb (le_antisymm hab hba)

/-- The record is strictly after the cursor, if there is one. -/
def isAfter (after : Option Cursor) (r : Record) : Prop :=
  ∀ c ∈ after, c.clusteringKey < r.clusteringKey

instance (after : Option Cursor) : DecidablePred (isAfter after) := fun r => by
  unfold isAfter; infer_instance

/-! ### Values to evaluate on -/

namespace Sample

/-- Midnight of the first of January. -/
def newYear (y : ℤ) (h : minYear ≤ y ∧ y ≤ maxYear) : DateTime :=
  DateTime.midnight (.ofFields y 1 1 (by simp [daysInMonth])) h

theorem year2024 : minYear ≤ 2024 ∧ 2024 ≤ maxYear := by decide

theorem year2025 : minYear ≤ 2025 ∧ 2025 ≤ maxYear := by decide

/-- Midnight of the first of July 2024. -/
def july : DateTime := DateTime.midnight (.ofFields 2024 7 1 (by decide)) (by decide)

theorem events_not_blank : isBlank "events" = false := by decide

/-- The year bucket `2024` of a table `events`. -/
def bucket : BucketId where
  tableId := ⟨"events", events_not_blank⟩
  partitionKey := [7]
  strategy := .calendarYearUtc
  key := ⟨"year:2024", by decide⟩
  start := newYear 2024 year2024
  endAt := newYear 2025 year2025

/-- A record of that bucket. -/
def record : Record where
  partitionKey := [7]
  eventTime := newYear 2024 year2024
  sortKey := [1]
  value := [42]

theorem year2026 : minYear ≤ 2026 ∧ 2026 ≤ maxYear := by decide

/-- The year bucket `2025` of the same partition. -/
def nextBucket : BucketId where
  tableId := ⟨"events", events_not_blank⟩
  partitionKey := [7]
  strategy := .calendarYearUtc
  key := ⟨"year:2025", by decide⟩
  start := newYear 2025 year2025
  endAt := newYear 2026 year2026

/-- A record of that bucket. -/
def nextRecord : Record where
  partitionKey := [7]
  eventTime := newYear 2025 year2025
  sortKey := [1]
  value := [43]

end Sample

end Pulpitum
