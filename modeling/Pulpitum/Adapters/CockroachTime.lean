import Mathlib
import Pulpitum.Support.Window
import Pulpitum.Adapters.CockroachTables

/-!
# Adapters — Cockroach time

How the times of `chrono` and the stored microseconds compare.  The driver truncates toward zero,
so it moves a time between two microseconds down if it is after 2000 and up if it is before, and
it sends a leap second as the second after it.

* `le_iff_ceilSql_le`: a time is at or before a stored one exactly when its *next* microsecond is.
* `Cursor.cut_lt_after`: where a cursor cuts the stored keys.
* `contains_readBack_iff`: whether a time is still in its bucket when it is read back.
-/

namespace Pulpitum

open Calendar

namespace DateTime

/-- The time is one the store can keep: no leap second, and a whole microsecond. -/
def Whole (t : DateTime) : Prop := ¬ t.IsLeapSecond ∧ t.nanos % 1000 = 0

instance : DecidablePred Whole := fun t => by unfold Whole; infer_instance

/-- The first microsecond at or after the time; that of a leap second is the second after it. -/
def ceilSql (t : DateTime) : ℤ :=
  -((sqlEpoch - min t.nanos ((t.unixSeconds + 1) * 1000000000)) / 1000)

variable {t u : DateTime} {m : ℤ}

theorem fromSql_eq_some (h : fromSql m = some u) :
    u.nanos = sqlEpoch + m * 1000 ∧ ¬ u.IsLeapSecond :=
  ofNanos_eq_some h

/-- **A time against a stored one**: only the next microsecond of the time matters. -/
theorem le_iff_ceilSql_le (h : fromSql m = some u) : t ≤ u ↔ t.ceilSql ≤ m := by
  obtain ⟨hn, hl⟩ := fromSql_eq_some h
  have hmin : t ≤ u ↔ min t.nanos ((t.unixSeconds + 1) * 1000000000) ≤ u.nanos := by
    rw [le_iff_unix]
    unfold IsLeapSecond at hl
    unfold nanos
    omega
  rw [hmin, hn]
  unfold ceilSql
  omega

theorem lt_iff_lt_ceilSql (h : fromSql m = some u) : u < t ↔ m < t.ceilSql := by
  rw [← not_le, le_iff_ceilSql_le h, not_le]

/-- The microsecond of a whole time is both what the driver sends and the next one. -/
theorem Whole.toSql_eq (h : t.Whole) :
    t.toSql = t.ceilSql ∧ t.nanos = sqlEpoch + t.toSql * 1000 := by
  obtain ⟨hl, hw⟩ := h
  have hmin : min t.nanos ((t.unixSeconds + 1) * 1000000000) = t.nanos := by
    unfold IsLeapSecond at hl
    unfold nanos
    omega
  have hexact : t.toSql * 1000 = t.nanos - sqlEpoch := by
    refine Int.tdiv_mul_cancel ?_
    unfold sqlEpoch
    omega
  refine ⟨?_, by omega⟩
  unfold ceilSql
  rw [hmin]
  omega

/-- A whole time is read back. -/
theorem Whole.fromSql_toSql (h : t.Whole) : fromSql t.toSql = some t := by
  unfold fromSql
  rw [← h.toSql_eq.2]
  exact ofNanos_nanos h.1

/-- A stored time is whole. -/
theorem whole_of_fromSql (h : fromSql m = some u) : u.Whole := by
  obtain ⟨hn, hl⟩ := fromSql_eq_some h
  refine ⟨hl, ?_⟩
  rw [hn]
  unfold sqlEpoch
  omega

theorem toSql_of_fromSql (h : fromSql m = some u) : u.toSql = m := by
  have hw := (whole_of_fromSql h).toSql_eq.2
  have hn := (fromSql_eq_some h).1
  omega

/-- Between two whole times of `chrono`, every microsecond is a time. -/
theorem exists_fromSql (ht : t.Whole) (hu : u.Whole) (h₁ : t.toSql ≤ m) (h₂ : m ≤ u.toSql) :
    ∃ v, fromSql m = some v := by
  have ht' := ht.toSql_eq.2
  have hu' := hu.toSql_eq.2
  have hl := hu.1
  refine exists_ofNanos (t := t) (u := u) ?_ ?_
  · rw [dayNumber_eq]
    unfold nanos at ht'
    omega
  · rw [dayNumber_eq]
    unfold IsLeapSecond at hl
    unfold nanos at hu'
    omega

/-- Stored times are in the order of their microseconds. -/
theorem lt_iff_of_fromSql {m' : ℤ} (h : fromSql m = some t) (h' : fromSql m' = some u) :
    t < u ↔ m < m' := by
  rw [lt_iff_lt_ceilSql h, ← (whole_of_fromSql h').toSql_eq.1, toSql_of_fromSql h']

theorem eq_iff_of_fromSql {m' : ℤ} (h : fromSql m = some t) (h' : fromSql m' = some u) :
    t = u ↔ m = m' := by
  refine ⟨fun e => ?_, fun e => ?_⟩
  · rw [← toSql_of_fromSql h, e, toSql_of_fromSql h']
  · subst e; exact Option.some.inj (h.symm.trans h')

theorem whole_midnight {d : Date} {h : Representable d} : (midnight d h).Whole := by
  refine ⟨midnight_not_leap, ?_⟩
  simp only [nanos, unixSeconds, midnight]
  omega

end DateTime

theorem BucketId.Canonical.whole {b : BucketId} (hb : b.Canonical) :
    b.start.Whole ∧ b.endAt.Whole := by
  obtain ⟨⟨_, _, hs⟩, ⟨_, _, he⟩, -⟩ := hb.bounds
  rw [hs, he]
  exact ⟨DateTime.whole_midnight, DateTime.whole_midnight⟩

/-! ### Reading a time back -/

/-- Storing the time moves it past the end of the bucket: it is a leap second the bucket ends
with, or before 2000 and less than a microsecond before the end. -/
def BucketId.Crosses (b : BucketId) (t : DateTime) : Prop :=
  (t.IsLeapSecond ∧ t.unixSeconds + 1 = b.endAt.unixSeconds) ∨
    (t.nanos < DateTime.sqlEpoch ∧ b.endAt.nanos - t.nanos < 1000)

instance (b : BucketId) : DecidablePred b.Crosses := fun t => by
  unfold BucketId.Crosses; infer_instance

/-- The driver rounds down after 2000 and up before. -/
theorem DateTime.toSql_cases (t : DateTime) :
    (sqlEpoch ≤ t.nanos ∧ t.toSql = (t.nanos - sqlEpoch) / 1000) ∨
      (t.nanos < sqlEpoch ∧ t.toSql = -((sqlEpoch - t.nanos) / 1000)) := by
  unfold toSql
  rcases le_or_gt sqlEpoch t.nanos with h | h
  · exact .inl ⟨h, Int.tdiv_eq_ediv_of_nonneg (by omega)⟩
  · refine .inr ⟨h, ?_⟩
    rw [← neg_sub sqlEpoch t.nanos, Int.neg_tdiv, Int.tdiv_eq_ediv_of_nonneg (by omega)]

/-- A time that is no leap second is stored as one that decodes: the driver moves it toward
2000. -/
theorem DateTime.exists_fromSql_toSql {t : DateTime} (h : ¬ t.IsLeapSecond) :
    ∃ u, fromSql t.toSql = some u := by
  let epoch := midnight ⟨2000, 1, 1, by decide, by decide, by decide, by decide⟩ (by decide)
  have hepoch : epoch.date.dayNumber = 730120 := by decide
  unfold IsLeapSecond at h
  rcases t.toSql_cases with ⟨hn, hs⟩ | ⟨hn, hs⟩
  · refine exists_ofNanos (t := epoch) (u := t) ?_ ?_
    · rw [hepoch, hs]
      unfold unixDay sqlEpoch at *
      omega
    · rw [dayNumber_eq, hs]
      unfold nanos sqlEpoch at *
      omega
  · refine exists_ofNanos (t := t) (u := epoch) ?_ ?_
    · rw [dayNumber_eq, hs]
      unfold nanos sqlEpoch at *
      omega
    · rw [hepoch, hs]
      unfold unixDay sqlEpoch at *
      omega

/-- **A time in a bucket is read back**, and inside the bucket unless it crosses its end. -/
theorem BucketId.contains_readBack_iff {b : BucketId} {t : DateTime} (hb : b.Canonical)
    (ht : b.contains t) :
    ∃ u, DateTime.fromSql t.toSql = some u ∧ (b.contains u ↔ ¬ b.Crosses t) := by
  obtain ⟨hs, he⟩ := hb.whole
  obtain ⟨h₁, h₂⟩ := ht
  have hsq := hs.toSql_eq.2
  have heq := he.toSql_eq.2
  have hsl := hs.1
  have hel := he.1
  have hround := t.toSql_cases
  obtain ⟨-, ⟨d, hd, hend⟩, -⟩ := hb.bounds
  have hendfrac : b.endAt.frac = 0 := by rw [hend]; rfl
  have hendsecs : b.endAt.secs = 0 := by rw [hend]; rfl
  rw [DateTime.le_iff_unix] at h₁
  rw [DateTime.lt_iff_unix] at h₂
  have htf := t.frac_lt
  unfold DateTime.IsLeapSecond at hsl hel
  obtain ⟨u, hu⟩ : ∃ u, DateTime.fromSql t.toSql = some u := by
    refine DateTime.exists_ofNanos (t := b.start) (u := b.endAt) ?_ ?_
    · rw [DateTime.dayNumber_eq]
      unfold DateTime.nanos at *
      omega
    · rw [DateTime.dayNumber_eq]
      unfold DateTime.nanos DateTime.unixSeconds at *
      omega
  refine ⟨u, hu, ?_⟩
  rw [contains, DateTime.le_iff_ceilSql_le hu, DateTime.lt_iff_lt_ceilSql hu, ← hs.toSql_eq.1,
    ← he.toSql_eq.1, Crosses]
  unfold DateTime.IsLeapSecond
  unfold DateTime.nanos at *
  omega

/-! ### Cursors -/

/-- Where the cursor cuts the stored keys: after its own key, or before the next microsecond if no
stored time is equal to its time. -/
def Cursor.cut (c : Cursor) : Window.Cut SortKey :=
  if c.eventTime.Whole then Window.after c.eventTime.toSql c.sortKey
  else Window.before c.eventTime.ceilSql

/-- **A cursor against a stored key.** -/
theorem Cursor.cut_lt_after {c : Cursor} {m : ℤ} {t : DateTime} {k : SortKey}
    (h : DateTime.fromSql m = some t) :
    c.cut < Window.after m k ↔ c.clusteringKey < toLex (t, k) := by
  rw [Cursor.clusteringKey, Prod.Lex.toLex_lt_toLex, cut]
  split
  case isTrue hw =>
      have hc := hw.fromSql_toSql
      rw [Window.after_lt_after, Prod.Lex.toLex_lt_toLex, DateTime.lt_iff_of_fromSql hc h,
        DateTime.eq_iff_of_fromSql hc h]
  case isFalse hw =>
      -- no stored time is equal to the cursor's
      have hne : c.eventTime ≠ t := fun e => hw (e ▸ DateTime.whole_of_fromSql h)
      rw [Window.before_lt_after, ← DateTime.le_iff_ceilSql_le h, le_iff_lt_or_eq]
      simp [hne]

end Pulpitum
