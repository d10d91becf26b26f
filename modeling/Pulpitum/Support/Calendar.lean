import Mathlib

/-!
# Support — Calendar

The proleptic Gregorian calendar: dates as `(year, month, day)` with a valid day, ordered field
by field, and their day numbers (day `1` is `0001-01-01`).

* `Date.dayNumber_lt_iff`: day numbers order dates as their fields do.
* `Date.ofDayNumber_dayNumber`, `Date.dayNumber_ofDayNumber`: the two readings of a date are
  inverse to each other, over every year.
* `Date.addMonths`, `Date.addDays`: calendar steps, with the first of the next month and the
  next day bounding what lies before them (`Date.lt_addMonths_one`, `Date.lt_addDays_one`).
-/

namespace Calendar

/-- A leap year of the Gregorian rule. -/
def IsLeap (y : ℤ) : Prop := y % 4 = 0 ∧ (y % 100 ≠ 0 ∨ y % 400 = 0)

instance : DecidablePred IsLeap := fun y => by unfold IsLeap; infer_instance

/-- `1` in a leap year, `0` otherwise. -/
def leapDay (y : ℤ) : ℕ := if IsLeap y then 1 else 0

/-- The length of month `m` of year `y`; `0` outside `1 ≤ m ≤ 12`. -/
def daysInMonth (y : ℤ) : ℕ → ℕ
  | 1 | 3 | 5 | 7 | 8 | 10 | 12 => 31
  | 4 | 6 | 9 | 11 => 30
  | 2 => 28 + leapDay y
  | _ => 0

/-- The days of year `y` before the first of month `m`. -/
def daysBeforeMonth (y : ℤ) : ℕ → ℕ
  | 1 => 0
  | 2 => 31
  | 3 => 59 + leapDay y
  | 4 => 90 + leapDay y
  | 5 => 120 + leapDay y
  | 6 => 151 + leapDay y
  | 7 => 181 + leapDay y
  | 8 => 212 + leapDay y
  | 9 => 243 + leapDay y
  | 10 => 273 + leapDay y
  | 11 => 304 + leapDay y
  | 12 => 334 + leapDay y
  | _ => 365 + leapDay y

/-- The days before the first of January of year `y`, counted from `0001-01-01`. -/
def daysBeforeYear (y : ℤ) : ℤ :=
  365 * (y - 1) + (y - 1) / 4 - (y - 1) / 100 + (y - 1) / 400

theorem daysBeforeYear_succ (y : ℤ) :
    daysBeforeYear (y + 1) = daysBeforeYear y + 365 + leapDay y := by
  by_cases h : IsLeap y
  · simp only [leapDay, h, if_true, daysBeforeYear]
    unfold IsLeap at h; omega
  · simp only [leapDay, h, if_false, daysBeforeYear]
    unfold IsLeap at h; omega

theorem daysBeforeMonth_succ {y : ℤ} {m : ℕ} (h₁ : 1 ≤ m) (h₂ : m ≤ 12) :
    daysBeforeMonth y (m + 1) = daysBeforeMonth y m + daysInMonth y m := by
  interval_cases m <;> simp only [daysBeforeMonth, daysInMonth] <;> omega

theorem daysInMonth_pos {y : ℤ} {m : ℕ} (h₁ : 1 ≤ m) (h₂ : m ≤ 12) : 1 ≤ daysInMonth y m := by
  interval_cases m <;> simp only [daysInMonth] <;> omega

theorem daysBeforeMonth_mono {y : ℤ} {m n : ℕ} (h₁ : 1 ≤ m) (hmn : m < n) (h₂ : n ≤ 13) :
    daysBeforeMonth y m + daysInMonth y m ≤ daysBeforeMonth y n := by
  induction n, hmn using Nat.le_induction with
  | base => exact (daysBeforeMonth_succ h₁ (by omega)).ge
  | succ n hn ih =>
      rw [daysBeforeMonth_succ (y := y) (m := n) (by omega) (by omega)]
      exact (ih (by omega)).trans (Nat.le_add_right _ _)

/-! ### Dates -/

/-- A date with a valid day of a valid month. -/
@[ext]
structure Date where
  year : ℤ
  month : ℕ
  day : ℕ
  month_pos : 1 ≤ month
  month_le : month ≤ 12
  day_pos : 1 ≤ day
  day_le : day ≤ daysInMonth year month
deriving DecidableEq

namespace Date

/-- The date with these fields, which make one. -/
def ofFields (year : ℤ) (month day : ℕ)
    (h : (1 ≤ month ∧ month ≤ 12) ∧ 1 ≤ day ∧ day ≤ daysInMonth year month) : Date :=
  ⟨year, month, day, h.1.1, h.1.2, h.2.1, h.2.2⟩

/-- The fields of a date, in the order that compares them. -/
def fields (d : Date) : ℤ ×ₗ ℕ ×ₗ ℕ := toLex (d.year, toLex (d.month, d.day))

theorem fields_injective : Function.Injective fields := by
  intro a b h
  simp only [fields, EmbeddingLike.apply_eq_iff_eq, Prod.mk.injEq] at h
  exact Date.ext h.1 h.2.1 h.2.2

instance : LinearOrder Date := LinearOrder.lift' fields fields_injective

theorem lt_iff {a b : Date} :
    a < b ↔ a.year < b.year ∨ a.year = b.year ∧
      (a.month < b.month ∨ a.month = b.month ∧ a.day < b.day) := by
  change fields a < fields b ↔ _
  simp only [fields, Prod.Lex.toLex_lt_toLex]

/-- The number of the day, with `0001-01-01` the day `1`. -/
def dayNumber (d : Date) : ℤ :=
  daysBeforeYear d.year + daysBeforeMonth d.year d.month + d.day

theorem daysBeforeYear_lt_dayNumber (d : Date) : daysBeforeYear d.year < d.dayNumber := by
  have := d.day_pos
  unfold dayNumber; omega

theorem dayNumber_le (d : Date) : d.dayNumber ≤ daysBeforeYear (d.year + 1) := by
  have h := daysBeforeMonth_mono (y := d.year) d.month_pos (n := 13) (by have := d.month_le; omega)
    le_rfl
  have := d.day_le
  have : daysBeforeMonth d.year 13 = 365 + leapDay d.year := rfl
  rw [daysBeforeYear_succ]
  unfold dayNumber; omega

theorem daysBeforeYear_mono {y z : ℤ} (h : y ≤ z) : daysBeforeYear y ≤ daysBeforeYear z := by
  unfold daysBeforeYear; omega

theorem dayNumber_lt_of_lt {a b : Date} (h : a < b) : a.dayNumber < b.dayNumber := by
  rcases lt_iff.mp h with hy | ⟨hy, hm | ⟨hm, hd⟩⟩
  · have h₁ := a.dayNumber_le
    have h₂ := daysBeforeYear_mono (show a.year + 1 ≤ b.year by omega)
    have h₃ := b.daysBeforeYear_lt_dayNumber
    omega
  · have h₁ := daysBeforeMonth_mono (y := a.year) a.month_pos hm (by have := b.month_le; omega)
    have := a.day_le
    have := b.day_pos
    unfold dayNumber
    rw [← hy]; omega
  · unfold dayNumber
    rw [← hy, ← hm]; omega

/-- **Day numbers order dates.** -/
theorem dayNumber_lt_iff {a b : Date} : a.dayNumber < b.dayNumber ↔ a < b := by
  refine ⟨fun h => ?_, dayNumber_lt_of_lt⟩
  by_contra hn
  rcases (not_lt.mp hn).lt_or_eq with hlt | heq
  · exact absurd (dayNumber_lt_of_lt hlt) (by omega)
  · rw [heq] at h; exact absurd h (lt_irrefl _)

theorem year_le_year {a b : Date} (h : a.dayNumber ≤ b.dayNumber) : a.year ≤ b.year := by
  by_contra hy
  have hlt : b < a := lt_iff.mpr (.inl (not_le.mp hy))
  exact absurd (dayNumber_lt_of_lt hlt) (not_lt.mpr h)

theorem dayNumber_injective : Function.Injective dayNumber := by
  intro a b h
  rcases lt_trichotomy a b with hab | hab | hab
  · exact absurd (dayNumber_lt_of_lt hab) (by omega)
  · exact hab
  · exact absurd (dayNumber_lt_of_lt hab) (by omega)

/-! ### The date of a day number -/

/-- The year day `n` lies in: the mean-year estimate is off by at most one. -/
def yearOf (n : ℤ) : ℤ :=
  let y := 400 * (n - 1) / 146097 + 1
  if n ≤ daysBeforeYear y then y - 1 else if n ≤ daysBeforeYear (y + 1) then y else y + 1

theorem yearOf_spec (n : ℤ) :
    daysBeforeYear (yearOf n) < n ∧ n ≤ daysBeforeYear (yearOf n + 1) := by
  unfold yearOf
  simp only
  split
  · rename_i h
    refine ⟨?_, by simpa using h⟩
    unfold daysBeforeYear at h ⊢; omega
  · split
    · rename_i h₁ h₂; exact ⟨by omega, h₂⟩
    · rename_i h₁ h₂
      refine ⟨by omega, ?_⟩
      unfold daysBeforeYear at h₂ ⊢; omega

/-- The last of the months `1, …, m` that begins before the `o`-th day of year `y`. -/
def monthUpTo (y : ℤ) (o : ℕ) : ℕ → ℕ
  | 0 => 1
  | m + 1 => if daysBeforeMonth y (m + 1) < o then m + 1 else monthUpTo y o m

theorem monthUpTo_spec {y : ℤ} {o : ℕ} (h₁ : 1 ≤ o) :
    ∀ m, 1 ≤ m → m ≤ 12 → o ≤ daysBeforeMonth y (m + 1) →
      1 ≤ monthUpTo y o m ∧ monthUpTo y o m ≤ 12 ∧ daysBeforeMonth y (monthUpTo y o m) < o ∧
        o ≤ daysBeforeMonth y (monthUpTo y o m + 1)
  | 0, h, _, _ => absurd h (by omega)
  | m + 1, _, hm, ho => by
      unfold monthUpTo
      split
      · rename_i hlt; exact ⟨by omega, hm, hlt, ho⟩
      · rename_i hnlt
        rcases Nat.eq_zero_or_pos m with rfl | hpos
        · exact absurd (show daysBeforeMonth y 1 < o from h₁) hnlt
        · exact monthUpTo_spec h₁ m hpos (by omega) (by omega)

/-- The month of the `o`-th day of year `y`. -/
def monthOf (y : ℤ) (o : ℕ) : ℕ := monthUpTo y o 12

theorem monthOf_spec {y : ℤ} {o : ℕ} (h₁ : 1 ≤ o) (h₂ : o ≤ 365 + leapDay y) :
    1 ≤ monthOf y o ∧ monthOf y o ≤ 12 ∧ daysBeforeMonth y (monthOf y o) < o ∧
      o ≤ daysBeforeMonth y (monthOf y o) + daysInMonth y (monthOf y o) := by
  obtain ⟨ha, hb, hc, hd⟩ := monthUpTo_spec h₁ 12 (by omega) le_rfl h₂
  rw [daysBeforeMonth_succ ha hb] at hd
  exact ⟨ha, hb, hc, hd⟩

/-- The ordinal of day `n` in its year. -/
def ordinalOf (n : ℤ) : ℕ := (n - daysBeforeYear (yearOf n)).toNat

theorem ordinalOf_bounds (n : ℤ) : 1 ≤ ordinalOf n ∧ ordinalOf n ≤ 365 + leapDay (yearOf n) := by
  obtain ⟨h₁, h₂⟩ := yearOf_spec n
  rw [daysBeforeYear_succ] at h₂
  unfold ordinalOf; omega

/-- The date whose day number is `n`. -/
def ofDayNumber (n : ℤ) : Date where
  year := yearOf n
  month := monthOf (yearOf n) (ordinalOf n)
  day := ordinalOf n - daysBeforeMonth (yearOf n) (monthOf (yearOf n) (ordinalOf n))
  month_pos := (monthOf_spec (ordinalOf_bounds n).1 (ordinalOf_bounds n).2).1
  month_le := (monthOf_spec (ordinalOf_bounds n).1 (ordinalOf_bounds n).2).2.1
  day_pos := by
    have := (monthOf_spec (ordinalOf_bounds n).1 (ordinalOf_bounds n).2).2.2.1
    omega
  day_le := by
    have := (monthOf_spec (ordinalOf_bounds n).1 (ordinalOf_bounds n).2).2.2.2
    omega

@[simp]
theorem dayNumber_ofDayNumber (n : ℤ) : (ofDayNumber n).dayNumber = n := by
  have h := (monthOf_spec (ordinalOf_bounds n).1 (ordinalOf_bounds n).2).2.2.1
  have hy := (yearOf_spec n).1
  have ho : (ordinalOf n : ℤ) = n - daysBeforeYear (yearOf n) := by unfold ordinalOf; omega
  simp only [dayNumber, ofDayNumber]
  omega

@[simp]
theorem ofDayNumber_dayNumber (d : Date) : ofDayNumber d.dayNumber = d :=
  dayNumber_injective (dayNumber_ofDayNumber _)

/-! ### Calendar steps -/

/-- The same day `n` months on, or the last day of that month when it is shorter. -/
def addMonths (d : Date) (n : ℕ) : Date :=
  let k : ℤ := d.year * 12 + (d.month - 1 : ℕ) + n
  have hm : 1 ≤ (k % 12).toNat + 1 ∧ (k % 12).toNat + 1 ≤ 12 := by omega
  { year := k / 12
    month := (k % 12).toNat + 1
    day := min d.day (daysInMonth (k / 12) ((k % 12).toNat + 1))
    month_pos := hm.1
    month_le := hm.2
    day_pos := le_min d.day_pos (daysInMonth_pos hm.1 hm.2)
    day_le := min_le_right _ _ }

/-- The first of a month is moved to the first of a month. -/
theorem day_addMonths_of_first {d : Date} (n : ℕ) (h : d.day = 1) : (d.addMonths n).day = 1 := by
  have hp := (d.addMonths n).day_pos
  have hle : (d.addMonths n).day ≤ d.day := min_le_left _ _
  omega

/-- `n` days on. -/
def addDays (d : Date) (n : ℕ) : Date := ofDayNumber (d.dayNumber + n)

/-- The first of January of `d`'s year. -/
def firstOfYear (d : Date) : Date where
  year := d.year
  month := 1
  day := 1
  month_pos := le_rfl
  month_le := by omega
  day_pos := le_rfl
  day_le := by simp [daysInMonth]

/-- The first of `d`'s month. -/
def firstOfMonth (d : Date) : Date where
  year := d.year
  month := d.month
  day := 1
  month_pos := d.month_pos
  month_le := d.month_le
  day_pos := le_rfl
  day_le := daysInMonth_pos d.month_pos d.month_le

theorem firstOfYear_le (d : Date) : d.firstOfYear ≤ d := by
  have := d.month_pos
  have := d.day_pos
  rw [← not_lt, lt_iff]
  simp only [firstOfYear]; omega

theorem firstOfMonth_le (d : Date) : d.firstOfMonth ≤ d := by
  have := d.day_pos
  rw [← not_lt, lt_iff]
  simp only [firstOfMonth]; omega

theorem lt_addMonths_year (d : Date) : d < d.firstOfYear.addMonths 12 := by
  rw [lt_iff]
  simp only [firstOfYear, addMonths]; omega

theorem lt_addMonths_one (d : Date) : d < d.firstOfMonth.addMonths 1 := by
  have h₁ := d.month_pos
  have h₂ := d.month_le
  rw [lt_iff]
  simp only [firstOfMonth, addMonths]; omega

@[simp]
theorem dayNumber_addDays (d : Date) (n : ℕ) : (d.addDays n).dayNumber = d.dayNumber + n := by
  simp [addDays]

theorem lt_addDays_one (d : Date) : d < d.addDays 1 :=
  dayNumber_lt_iff.mp (by simp)

end Date

end Calendar
