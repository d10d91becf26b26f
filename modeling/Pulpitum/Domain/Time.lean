import Mathlib
import Pulpitum.Support.Calendar

/-!
# Domain — Time

`chrono`'s `DateTime<Utc>`: a date of the years `-262143` to `262142`, the seconds since its
midnight and the nanoseconds of the second.  A leap second is a second `:59` whose nanoseconds
run on from `10⁹` to `2·10⁹`; it compares below the second that follows it, and its elapsed time
is that of the second that follows it.

* `DateTime.lt_iff_unix`: times compare by their second, then by their nanoseconds.
* `DateTime.nanos_lt_iff`: away from leap seconds, they compare by elapsed nanoseconds.
* `DateTime.ofNanos_nanos`, `DateTime.ofNanos_eq_some`: a time that is no leap second is read back
  from its elapsed nanoseconds.
* `DateTime.fromTimestampNanos_eq_iff`: the same through 64-bit nanoseconds.
-/

namespace Pulpitum
open Calendar

/-- The first year of a `chrono` date. -/
def minYear : ℤ := -262143

/-- The last year of a `chrono` date. -/
def maxYear : ℤ := 262142

/-- `DateTime<Utc>`. -/
@[ext]
structure DateTime where
  date : Date
  /-- Seconds since midnight. -/
  secs : ℕ
  /-- Nanoseconds of the second, `10⁹` and above in a leap second. -/
  frac : ℕ
  minYear_le : minYear ≤ date.year
  le_maxYear : date.year ≤ maxYear
  secs_lt : secs < 86400
  frac_lt : frac < 2000000000
  leap_at : 1000000000 ≤ frac → secs % 60 = 59
deriving DecidableEq

namespace DateTime

/-- The time with these fields, which make one. -/
def ofFields (date : Date) (secs frac : ℕ)
    (h : (minYear ≤ date.year ∧ date.year ≤ maxYear) ∧ secs < 86400 ∧ frac < 2000000000 ∧
      (1000000000 ≤ frac → secs % 60 = 59)) : DateTime :=
  ⟨date, secs, frac, h.1.1, h.1.2, h.2.1, h.2.2.1, h.2.2.2⟩

/-- What two times are compared by. -/
def fields (t : DateTime) : Date ×ₗ ℕ ×ₗ ℕ := toLex (t.date, toLex (t.secs, t.frac))

theorem fields_injective : Function.Injective fields := by
  intro a b h
  simp only [fields, EmbeddingLike.apply_eq_iff_eq, Prod.mk.injEq] at h
  exact DateTime.ext h.1 h.2.1 h.2.2

instance : LinearOrder DateTime := LinearOrder.lift' fields fields_injective

theorem lt_iff {a b : DateTime} :
    a < b ↔ a.date < b.date ∨ a.date = b.date ∧
      (a.secs < b.secs ∨ a.secs = b.secs ∧ a.frac < b.frac) := by
  change fields a < fields b ↔ _
  simp only [fields, Prod.Lex.toLex_lt_toLex]

theorem date_le_date {a b : DateTime} (h : a ≤ b) : a.date ≤ b.date := by
  by_contra hd
  exact absurd (lt_iff.mpr (.inl (not_le.mp hd))) (not_lt.mpr h)

/-- The number of the day `1970-01-01`. -/
def unixDay : ℤ := 719163

/-- `timestamp`: seconds since `1970-01-01T00:00:00Z`. -/
def unixSeconds (t : DateTime) : ℤ := (t.date.dayNumber - unixDay) * 86400 + t.secs

/-- Nanoseconds since `1970-01-01T00:00:00Z`, a leap second counting with the next second. -/
def nanos (t : DateTime) : ℤ := t.unixSeconds * 1000000000 + t.frac

/-- `t` is inside a leap second. -/
def IsLeapSecond (t : DateTime) : Prop := 1000000000 ≤ t.frac

instance : DecidablePred IsLeapSecond := fun t => by unfold IsLeapSecond; infer_instance

theorem dayNumber_eq (t : DateTime) : t.date.dayNumber = t.unixSeconds / 86400 + unixDay := by
  have := t.secs_lt
  unfold unixSeconds; omega

theorem lt_iff_unix {a b : DateTime} :
    a < b ↔ a.unixSeconds < b.unixSeconds ∨ a.unixSeconds = b.unixSeconds ∧ a.frac < b.frac := by
  have h₁ := a.secs_lt
  have h₂ := b.secs_lt
  rw [lt_iff, ← Date.dayNumber_lt_iff, ← Date.dayNumber_injective.eq_iff]
  unfold unixSeconds; omega

theorem le_iff_unix {a b : DateTime} :
    a ≤ b ↔ a.unixSeconds < b.unixSeconds ∨ a.unixSeconds = b.unixSeconds ∧ a.frac ≤ b.frac := by
  rw [← not_lt, lt_iff_unix]; omega

/-- Times that are not leap seconds compare by their elapsed nanoseconds. -/
theorem nanos_lt_iff {a b : DateTime} (ha : ¬ a.IsLeapSecond) (hb : ¬ b.IsLeapSecond) :
    a.nanos < b.nanos ↔ a < b := by
  unfold IsLeapSecond at ha hb
  rw [lt_iff_unix]
  unfold nanos; omega

/-! ### Times of a date and of elapsed seconds -/

/-- The date's years are `chrono`'s. -/
def Representable (d : Date) : Prop := minYear ≤ d.year ∧ d.year ≤ maxYear

instance : DecidablePred Representable := fun d => by unfold Representable; infer_instance

theorem representable_iff_dayNumber {d : Date} (h : minYear ≤ d.year) :
    Representable d ↔ d.dayNumber ≤ daysBeforeYear (maxYear + 1) := by
  refine ⟨fun hd => ?_, fun hd => ⟨h, ?_⟩⟩
  · exact d.dayNumber_le.trans (Date.daysBeforeYear_mono (by have := hd.2; omega))
  · by_contra hy
    have h₁ := Date.daysBeforeYear_mono (show maxYear + 1 ≤ d.year by omega)
    have h₂ := d.daysBeforeYear_lt_dayNumber
    omega

theorem representable (t : DateTime) : Representable t.date := ⟨t.minYear_le, t.le_maxYear⟩

/-- The midnight a date starts with. -/
def midnight (d : Date) (h : Representable d) : DateTime where
  date := d
  secs := 0
  frac := 0
  minYear_le := h.1
  le_maxYear := h.2
  secs_lt := by omega
  frac_lt := by omega
  leap_at := by omega

/-- The midnight a date starts with, if `chrono` has the date. -/
def midnight? (d : Date) : Option DateTime :=
  if h : Representable d then some (midnight d h) else none

theorem midnight?_eq_some {d : Date} {t : DateTime} (h : midnight? d = some t) :
    ∃ hd, t = midnight d hd := by
  unfold midnight? at h
  split at h
  · rename_i hd; exact ⟨hd, (Option.some.inj h).symm⟩
  · cases h

theorem midnight_congr {d d' : Date} {h : Representable d} {h' : Representable d'} (e : d = d') :
    midnight d h = midnight d' h' := by
  subst e; rfl

theorem midnight_le {d : Date} {h : Representable d} {t : DateTime} :
    midnight d h ≤ t ↔ d ≤ t.date := by
  rw [← not_lt, ← not_lt, lt_iff]
  simp only [midnight, Nat.not_lt_zero, and_false, or_false]

theorem lt_midnight {d : Date} {h : Representable d} {t : DateTime} :
    t < midnight d h ↔ t.date < d := by
  rw [← not_le, midnight_le, not_le]

@[simp]
theorem midnight_not_leap {d : Date} {h : Representable d} : ¬ (midnight d h).IsLeapSecond := by
  simp [IsLeapSecond, midnight]

/-- `from_timestamp`, for nanoseconds below `10⁹`. -/
def ofUnix (s : ℤ) (f : ℕ) (hf : f < 1000000000) : Option DateTime :=
  if h : Representable (Date.ofDayNumber (s / 86400 + unixDay)) then
    some
      { date := Date.ofDayNumber (s / 86400 + unixDay)
        secs := (s % 86400).toNat
        frac := f
        minYear_le := h.1
        le_maxYear := h.2
        secs_lt := by omega
        frac_lt := by omega
        leap_at := by omega }
  else none

/-- The time with the elapsed nanoseconds `n`, if `chrono` has one. -/
def ofNanos (n : ℤ) : Option DateTime :=
  ofUnix (n / 1000000000) (n % 1000000000).toNat (by omega)

theorem ofNanos_eq_some {n : ℤ} {t : DateTime} (h : ofNanos n = some t) :
    t.nanos = n ∧ ¬ t.IsLeapSecond := by
  unfold ofNanos ofUnix at h
  split at h
  · obtain rfl := Option.some.inj h
    refine ⟨?_, by simp only [IsLeapSecond]; omega⟩
    simp only [nanos, unixSeconds, Date.dayNumber_ofDayNumber]
    omega
  · cases h

/-- A time that is no leap second is read back from its elapsed nanoseconds. -/
theorem ofNanos_nanos {t : DateTime} (h : ¬ t.IsLeapSecond) : ofNanos t.nanos = some t := by
  unfold IsLeapSecond at h
  have hs : t.nanos / 1000000000 = t.unixSeconds := by unfold nanos; omega
  have hd : Date.ofDayNumber (t.nanos / 1000000000 / 86400 + unixDay) = t.date := by
    rw [hs, ← dayNumber_eq, Date.ofDayNumber_dayNumber]
  have hr : Representable (Date.ofDayNumber (t.nanos / 1000000000 / 86400 + unixDay)) := by
    rw [hd]; exact t.representable
  unfold ofNanos ofUnix
  rw [dif_pos hr]
  refine congrArg some (DateTime.ext hd ?_ ?_)
  · have := t.secs_lt
    simp only [hs, unixSeconds]; omega
  · simp only [nanos]; omega

/-- Every elapsed time on the days between two times is the elapsed time of some `DateTime`. -/
theorem exists_ofNanos {t u : DateTime} {n : ℤ}
    (ht : t.date.dayNumber ≤ n / 1000000000 / 86400 + unixDay)
    (hu : n / 1000000000 / 86400 + unixDay ≤ u.date.dayNumber) : ∃ v, ofNanos n = some v := by
  rw [← Date.dayNumber_ofDayNumber (n / 1000000000 / 86400 + unixDay)] at ht hu
  have h : Representable (Date.ofDayNumber (n / 1000000000 / 86400 + unixDay)) :=
    ⟨t.minYear_le.trans (Date.year_le_year ht), (Date.year_le_year hu).trans u.le_maxYear⟩
  unfold ofNanos ofUnix
  rw [dif_pos h]
  exact ⟨_, rfl⟩

/-- The elapsed time of the years of `chrono`. -/
theorem nanos_bounds (t : DateTime) : -10 ^ 22 ≤ t.nanos ∧ t.nanos ≤ 10 ^ 22 := by
  have hlow := (Date.daysBeforeYear_mono t.minYear_le).trans_lt t.date.daysBeforeYear_lt_dayNumber
  have hup : t.date.dayNumber ≤ daysBeforeYear (maxYear + 1) :=
    (representable_iff_dayNumber t.minYear_le).mp t.representable
  have hsecs := t.secs_lt
  have hfrac := t.frac_lt
  rw [show daysBeforeYear minYear = -95746130 by decide] at hlow
  rw [show daysBeforeYear (maxYear + 1) = 95745399 by decide] at hup
  unfold nanos unixSeconds unixDay
  omega

/-! ### Nanoseconds in 64 bits -/

/-- An `i64`. -/
abbrev I64 := {n : ℤ // -2 ^ 63 ≤ n ∧ n < 2 ^ 63}

/-- `timestamp_nanos_opt`. -/
def timestampNanosOpt (t : DateTime) : Option I64 :=
  if h : -2 ^ 63 ≤ t.nanos ∧ t.nanos < 2 ^ 63 then some ⟨t.nanos, h⟩ else none

/-- Every `i64` of nanoseconds is a time of the years 1600 to 2300. -/
theorem exists_ofNanos_i64 (n : I64) : ∃ t, ofNanos n = some t := by
  have h := n.2
  refine exists_ofNanos
    (t := midnight ⟨1600, 1, 1, by decide, by decide, by decide, by decide⟩ (by decide))
    (u := midnight ⟨2300, 1, 1, by decide, by decide, by decide, by decide⟩ (by decide)) ?_ ?_
  · rw [show (midnight _ _).date.dayNumber = 584023 by decide]
    unfold unixDay; omega
  · rw [show (midnight _ _).date.dayNumber = 839693 by decide]
    unfold unixDay; omega

/-- `from_timestamp_nanos`. -/
def fromTimestampNanos (n : I64) : DateTime :=
  (ofNanos n).get (Option.isSome_iff_exists.mpr (exists_ofNanos_i64 n))

theorem ofNanos_i64 (n : I64) : ofNanos n = some (fromTimestampNanos n) :=
  (Option.some_get _).symm

theorem timestampNanosOpt_eq_some {t : DateTime} {n : I64} (h : timestampNanosOpt t = some n) :
    t.nanos = n := by
  unfold timestampNanosOpt at h
  split at h
  · cases h; rfl
  · cases h

/-- A time comes back from its nanoseconds unless it is a leap second. -/
theorem fromTimestampNanos_eq_iff {t : DateTime} {n : I64} (h : timestampNanosOpt t = some n) :
    fromTimestampNanos n = t ↔ ¬ t.IsLeapSecond := by
  refine ⟨fun e => e ▸ (ofNanos_eq_some (ofNanos_i64 n)).2, fun hl => ?_⟩
  have := ofNanos_nanos hl
  rw [timestampNanosOpt_eq_some h, ofNanos_i64] at this
  exact Option.some.inj this

/-- Times read from nanoseconds are in the order of the nanoseconds. -/
theorem fromTimestampNanos_lt_iff {m n : I64} :
    fromTimestampNanos m < fromTimestampNanos n ↔ m.1 < n.1 := by
  obtain ⟨hm, hlm⟩ := ofNanos_eq_some (ofNanos_i64 m)
  obtain ⟨hn, hln⟩ := ofNanos_eq_some (ofNanos_i64 n)
  rw [← nanos_lt_iff hlm hln, hm, hn]

theorem fromTimestampNanos_le_iff {m n : I64} :
    fromTimestampNanos m ≤ fromTimestampNanos n ↔ m.1 ≤ n.1 := by
  rw [← not_lt, fromTimestampNanos_lt_iff, not_lt]

end DateTime

end Pulpitum
