import Mathlib
import Pulpitum.Domain.Routing

/-!
# Domain — Window

The most recent buckets of a definition.  `recent_buckets` finds the bucket before a bucket at the
nanosecond before its start; the buckets of a strategy are numbered, and so is what it can reach.

* `BucketStrategy.number_next`: numbers count the buckets.
* `TableDefinition.bucketsBefore_spec`: the buckets found adjoin.
* `TableDefinition.recentBuckets_isSome_iff`: **when the source finds them all**, and where it
  panics.
* `Adjoined.exists_mem`: adjoining buckets leave no gap.
-/

namespace Pulpitum
open Calendar

/-! ### Numbers of buckets -/

namespace BucketStrategy

/-- The number of the bucket of a day, in the order of time. -/
def number : BucketStrategy → Date → ℤ
  | calendarYearUtc, d => d.year
  | calendarMonthUtc, d => d.year * 12 + d.month
  | calendarDayUtc, d => d.dayNumber

theorem number_startOf (s : BucketStrategy) (d : Date) : s.number (s.startOf d) = s.number d := by
  cases s <;> rfl

/-- The bucket after a bucket has the next number. -/
theorem number_next (s : BucketStrategy) (d : Date) :
    s.number (s.next (s.startOf d)) = s.number d + 1 := by
  have h₁ := d.month_pos
  have h₂ := d.month_le
  cases s with
  | calendarYearUtc =>
      simp only [number, next, startOf, Date.firstOfYear, Date.addMonths]
      omega
  | calendarMonthUtc =>
      simp only [number, next, startOf, Date.firstOfMonth, Date.addMonths]
      omega
  | calendarDayUtc => exact d.dayNumber_addDays 1

theorem number_mono (s : BucketStrategy) {d u : Date} (h : d ≤ u) : s.number d ≤ s.number u := by
  have h₁ := d.month_le
  have h₂ := u.month_pos
  have hlt := mt Date.dayNumber_lt_iff.mp (not_lt.mpr h)
  rw [← not_lt, Date.lt_iff] at h
  cases s with
  | calendarYearUtc =>
      simp only [number]
      omega
  | calendarMonthUtc =>
      simp only [number]
      omega
  | calendarDayUtc => exact not_lt.mp hlt

/-- There is a time in the `n`-th bucket before the one of `t`. -/
def HasPrevious (s : BucketStrategy) (t : DateTime) (n : ℕ) : Prop :=
  ∃ v : DateTime, s.number v.date + n = s.number t.date

end BucketStrategy

/-! ### The time before a midnight -/

namespace DateTime

/-- The first day `chrono` has. -/
def firstDay : Date := .ofFields minYear 1 1 (by decide)

theorem firstDay_le (t : DateTime) : firstDay ≤ t.date := by
  have hy := t.minYear_le
  have hm := t.date.month_pos
  have hd := t.date.day_pos
  rw [← not_lt, Date.lt_iff]
  simp only [firstDay, Date.ofFields]
  omega

/-- There is a time before the midnight of every day but the first. -/
theorem exists_before_midnight {d : Date} {h : Representable d} :
    (∃ v, ofNanos ((midnight d h).nanos - 1) = some v) ↔ firstDay < d := by
  have hday : ((midnight d h).nanos - 1) / 1000000000 / 86400 + unixDay = d.dayNumber - 1 := by
    simp only [nanos, unixSeconds, midnight]
    omega
  have hnumber : firstDay.dayNumber = daysBeforeYear minYear + 1 := rfl
  rw [← Date.dayNumber_lt_iff]
  constructor
  · rintro ⟨v, hv⟩
    have hv' : v.date.dayNumber = d.dayNumber - 1 := by
      obtain ⟨hn, hl⟩ := ofNanos_eq_some hv
      unfold IsLeapSecond at hl
      have hs : v.nanos / 1000000000 = v.unixSeconds := by unfold nanos; omega
      rw [dayNumber_eq, ← hs, hn, hday]
    have hle := (Date.daysBeforeYear_mono v.minYear_le).trans_lt v.date.daysBeforeYear_lt_dayNumber
    omega
  · intro hlt
    refine exists_ofNanos (t := midnight firstDay (by decide)) (u := midnight d h) ?_ ?_
    · rw [hday]
      change firstDay.dayNumber ≤ _
      omega
    · rw [hday]
      change _ ≤ d.dayNumber
      omega

end DateTime

/-! ### Adjoining buckets -/

/-- The buckets adjoin, oldest first. -/
def Adjoined (bs : List BucketId) : Prop := bs.IsChain fun a b => a.endAt = b.start

/-- **Adjoining buckets leave no gap**: every time from the start of the first to the end of the
last is in one of them. -/
theorem Adjoined.exists_mem {bs : List BucketId} (h : Adjoined bs) {oldest newest : BucketId}
    {t : DateTime} (ho : bs.head? = some oldest) (hn : bs.getLast? = some newest)
    (h₁ : oldest.start ≤ t) (h₂ : t < newest.endAt) : ∃ b ∈ bs, b.contains t := by
  induction bs generalizing oldest with
  | nil => cases ho
  | cons b bs ih =>
      cases ho
      by_cases hlt : t < b.endAt
      · exact ⟨b, List.mem_cons_self, h₁, hlt⟩
      · cases bs with
        | nil =>
            cases hn
            exact absurd h₂ hlt
        | cons c bs =>
            obtain ⟨hadjoin, hrest⟩ := List.isChain_cons_cons.mp h
            rw [List.getLast?_cons_cons] at hn
            obtain ⟨x, hx, hin⟩ := ih hrest rfl hn (hadjoin ▸ not_lt.mp hlt)
            exact ⟨x, List.mem_cons_of_mem b hx, hin⟩

/-- Adjoining buckets that are not empty are between the first and the last. -/
theorem Adjoined.bounds {bs : List BucketId} (h : Adjoined bs) (hpos : ∀ b ∈ bs, b.start < b.endAt)
    {oldest newest : BucketId} (ho : bs.head? = some oldest) (hn : bs.getLast? = some newest) :
    ∀ b ∈ bs, oldest.start ≤ b.start ∧ b.start ≤ newest.start ∧ b.endAt ≤ newest.endAt := by
  induction bs generalizing oldest with
  | nil => cases ho
  | cons b bs ih =>
      cases ho
      cases bs with
      | nil =>
          cases hn
          exact List.forall_mem_singleton.mpr ⟨le_rfl, le_rfl, le_rfl⟩
      | cons c bs =>
          obtain ⟨hadjoin, hrest⟩ := List.isChain_cons_cons.mp h
          rw [List.getLast?_cons_cons] at hn
          obtain ⟨hb, hpos⟩ := List.forall_mem_cons.mp hpos
          have hall := ih hrest hpos rfl hn
          have hbc : b.start ≤ c.start := hadjoin ▸ hb.le
          obtain ⟨-, hc₁, hc₂⟩ := hall c List.mem_cons_self
          have hc := (hpos c List.mem_cons_self).le
          refine List.forall_mem_cons.mpr ⟨⟨le_rfl, hbc.trans hc₁, ?_⟩, fun x hx => ?_⟩
          · rw [hadjoin]
            exact hc.trans hc₂
          · exact ⟨hbc.trans (hall x hx).1, (hall x hx).2⟩

/-! ### Recent buckets -/

namespace TableDefinition

variable {d : TableDefinition} {pk : PartitionKey} {t v : DateTime} {b b' : BucketId}
  {older bs : List BucketId}

/-- The bucket of the nanosecond before a bucket ends where that bucket starts. -/
theorem endAt_of_previous (hb : d.bucketForEventTime pk t = some b)
    (hv : DateTime.ofNanos (b.start.nanos - 1) = some v)
    (hb' : d.bucketForEventTime pk v = some b') : b'.endAt = b.start := by
  obtain ⟨hn, hl⟩ := DateTime.ofNanos_eq_some hv
  obtain ⟨⟨_, hstart⟩, -⟩ :=
    BucketStrategy.bucketBounds_eq_some (BucketId.forEventTimeWithStrategy_eq_some hb).1
  obtain ⟨-, ⟨_, hend⟩⟩ :=
    BucketStrategy.bucketBounds_eq_some (BucketId.forEventTimeWithStrategy_eq_some hb').1
  have hls : ¬ b.start.IsLeapSecond := by rw [hstart]; exact DateTime.midnight_not_leap
  have hle : ¬ b'.endAt.IsLeapSecond := by rw [hend]; exact DateTime.midnight_not_leap
  have hvs : v < b.start := (DateTime.nanos_lt_iff hl hls).mp (by omega)
  obtain ⟨h₁, h₂⟩ := contains_of_bucketForEventTime hb'
  rcases lt_trichotomy b'.endAt b.start with hlt | heq | hgt
  · -- no time lies between the nanosecond before and the start
    have hn₁ := (DateTime.nanos_lt_iff hl hle).mpr h₂
    have hn₂ := (DateTime.nanos_lt_iff hle hls).mpr hlt
    omega
  · exact heq
  · -- the start is in no bucket that starts before it
    have hsame := BucketId.forEventTimeWithStrategy_of_contains hb' ⟨h₁.trans hvs.le, hgt⟩
    cases (bucketForEventTime_start hb).symm.trans hsame
    exact absurd (h₁.trans_lt hvs) (lt_irrefl _)

/-- **The buckets that the loop of `recent_buckets` finds**: as many as it is asked for, each
ending where the one found before it starts. -/
theorem bucketsBefore_spec {n : ℕ} (hb : d.bucketForEventTime pk t = some b)
    (h : d.bucketsBefore pk n b = some older) :
    older.length = n ∧ (b :: older).IsChain (fun a b => b.endAt = a.start) ∧
      ∀ c ∈ older, d.bucketForEventTime pk c.start = some c := by
  induction n generalizing t b older with
  | zero =>
      cases h
      exact ⟨rfl, .singleton b, fun _ hc => by cases hc⟩
  | succ n ih =>
      simp only [bucketsBefore, Option.bind_eq_bind, Option.bind_eq_some_iff] at h
      obtain ⟨v, hv, b', hb', rest, hrest, h⟩ := h
      cases h
      obtain ⟨hlength, hchain, hall⟩ := ih hb' hrest
      refine ⟨by rw [List.length_cons, hlength], ?_, ?_⟩
      · exact List.isChain_cons_cons.mpr ⟨endAt_of_previous hb hv hb', hchain⟩
      · exact List.forall_mem_cons.mpr ⟨bucketForEventTime_start hb', hall⟩

/-- The number of the bucket before a bucket. -/
theorem number_of_previous (hb : d.bucketForEventTime pk t = some b)
    (hb' : d.bucketForEventTime pk v = some b') (he : b'.endAt = b.start) :
    d.bucketStrategy.number v.date + 1 = d.bucketStrategy.number t.date := by
  obtain ⟨⟨_, hstart⟩, -⟩ :=
    BucketStrategy.bucketBounds_eq_some (BucketId.forEventTimeWithStrategy_eq_some hb).1
  obtain ⟨-, ⟨_, hend⟩⟩ :=
    BucketStrategy.bucketBounds_eq_some (BucketId.forEventTimeWithStrategy_eq_some hb').1
  have hdate : d.bucketStrategy.next (d.bucketStrategy.startOf v.date) =
      d.bucketStrategy.startOf t.date := by
    have := congrArg DateTime.date (hend.symm.trans (he.trans hstart))
    exact this
  rw [← BucketStrategy.number_next, hdate, BucketStrategy.number_startOf]

/-- **When the loop finds them all**: when `chrono` has a time in the last of them. -/
theorem bucketsBefore_isSome_iff {n : ℕ} (hb : d.bucketForEventTime pk t = some b) :
    (d.bucketsBefore pk n b).isSome ↔ d.bucketStrategy.HasPrevious t n := by
  induction n generalizing t b with
  | zero => exact iff_of_true rfl ⟨t, by simp⟩
  | succ n ih =>
      obtain ⟨⟨hr, hstart⟩, -⟩ :=
        BucketStrategy.bucketBounds_eq_some (BucketId.forEventTimeWithStrategy_eq_some hb).1
      have hbefore := DateTime.exists_before_midnight (h := hr)
      rw [← hstart] at hbefore
      cases hv : DateTime.ofNanos (b.start.nanos - 1) with
      | none =>
          -- the bucket starts with the first day, and no time is before it
          have hnone : d.bucketsBefore pk (n + 1) b = none := by
            simp only [bucketsBefore, hv]
            rfl
          rw [hnone]
          refine iff_of_false (by simp) ?_
          rintro ⟨u, hu⟩
          have hfirst : ¬ DateTime.firstDay < d.bucketStrategy.startOf t.date := by
            rw [← hbefore, hv]
            rintro ⟨_, h⟩
            cases h
          have hle := d.bucketStrategy.number_mono ((not_lt.mp hfirst).trans u.firstDay_le)
          rw [BucketStrategy.number_startOf] at hle
          push_cast at hu
          omega
      | some v =>
          have hvs : v < b.start := by
            obtain ⟨hn, hl⟩ := DateTime.ofNanos_eq_some hv
            refine (DateTime.nanos_lt_iff hl ?_).mp (by omega)
            rw [hstart]
            exact DateTime.midnight_not_leap
          obtain ⟨b', hb'⟩ : ∃ b', d.bucketForEventTime pk v = some b' := by
            refine Option.isSome_iff_exists.mp (bucketForEventTime_isSome_iff.mpr ?_)
            have hle := DateTime.date_le_date (hvs.le.trans (start_le_horizon hb))
            exact (d.bucketStrategy.startOf_le _).trans hle
          have hnumber := number_of_previous hb hb' (endAt_of_previous hb hv hb')
          have hmore : (d.bucketsBefore pk (n + 1) b).isSome ↔
              (d.bucketsBefore pk n b').isSome := by
            simp only [bucketsBefore, hv, hb', Option.bind_eq_bind, Option.bind_some]
            cases d.bucketsBefore pk n b' <;> simp
          rw [hmore, ih hb']
          refine exists_congr fun u => ?_
          push_cast
          omega

theorem bucketsBefore_isSome_pred {n : ℕ} (h : (d.bucketsBefore pk (n + 1) b).isSome) :
    (d.bucketsBefore pk n b).isSome := by
  induction n generalizing b with
  | zero => rfl
  | succ n ih =>
      obtain ⟨bs, hbs⟩ := Option.isSome_iff_exists.mp h
      rw [bucketsBefore] at hbs
      simp only [Option.bind_eq_bind, Option.bind_eq_some_iff] at hbs
      obtain ⟨v, hv, b', hb', rest, hrest, -⟩ := hbs
      obtain ⟨rest', hrest'⟩ := Option.isSome_iff_exists.mp (ih (by rw [hrest]; rfl))
      simp only [bucketsBefore, hv, hb', hrest', Option.bind_eq_bind, Option.bind_some]
      rfl

/-- The last bucket whose end is representable ends here. -/
def edge (d : TableDefinition) : DateTime :=
  DateTime.midnight (d.bucketStrategy.next d.bucketStrategy.horizon) (by
    cases d.bucketStrategy <;> decide)

/-- A time has a bucket exactly when it is before the edge; after it the source panics. -/
theorem bucketForEventTime_isSome_iff_lt :
    (d.bucketForEventTime pk t).isSome ↔ t < d.edge := by
  have hfix := d.bucketStrategy.startOf_horizon
  rw [bucketForEventTime_isSome_iff, edge, DateTime.lt_midnight]
  constructor
  · intro h
    by_contra hge
    have h₁ := d.bucketStrategy.number_mono h
    have h₂ := d.bucketStrategy.number_mono (not_lt.mp hge)
    have hnext := d.bucketStrategy.number_next d.bucketStrategy.horizon
    rw [BucketStrategy.number_startOf] at h₁
    rw [hfix] at hnext
    omega
  · intro h
    by_contra hlt
    have hle := (not_le.mp hlt).le.trans (d.bucketStrategy.startOf_le t.date)
    have hsame := d.bucketStrategy.startOf_eq_of_mem (d := d.bucketStrategy.horizon) (u := t.date)
      (by rw [hfix]; exact hle) (by rw [hfix]; exact h)
    rw [hfix] at hsame
    exact hlt hsame.le

/-- `recent_buckets` starts from the bucket of the time. -/
theorem recentBuckets_eq_some {n : ℕ} (hn : 1 ≤ n) (h : d.recentBuckets pk t n = some bs) :
    ∃ b older, d.bucketForEventTime pk t = some b ∧ d.bucketsBefore pk (n - 1) b = some older ∧
      bs = (b :: older).reverse := by
  unfold recentBuckets at h
  rw [if_neg (by omega)] at h
  simp only [Option.bind_eq_bind, Option.bind_eq_some_iff] at h
  obtain ⟨b, hb, older, holder, h⟩ := h
  cases h
  exact ⟨b, older, hb, holder, rfl⟩

/-- **When `recent_buckets` returns**: when the time has a bucket and `chrono` has a time in the
last of the buckets before it. -/
theorem recentBuckets_isSome_iff {n : ℕ} (hn : 1 ≤ n) :
    (d.recentBuckets pk t n).isSome ↔ t < d.edge ∧ d.bucketStrategy.HasPrevious t (n - 1) := by
  have hedge : (d.bucketForEventTime pk t).isSome ↔ t < d.edge := bucketForEventTime_isSome_iff_lt
  unfold recentBuckets
  rw [if_neg (by omega), ← hedge]
  cases hb : d.bucketForEventTime pk t with
  | none => simp
  | some b =>
      rw [← bucketsBefore_isSome_iff hb, Option.bind_eq_bind, Option.bind_some]
      cases hbefore : d.bucketsBefore pk (n - 1) b with
      | none => simp
      | some older => exact iff_of_true rfl ⟨rfl, rfl⟩

/-- **The most recent buckets**: as many as asked for, adjoining, and the last one has the time. -/
theorem recentBuckets_spec {n : ℕ} (hn : 1 ≤ n) (h : d.recentBuckets pk t n = some bs) :
    bs.length = n ∧ Adjoined bs ∧ (∀ c ∈ bs, d.bucketForEventTime pk c.start = some c) ∧
      ∃ b, bs.getLast? = some b ∧ b.contains t := by
  obtain ⟨b, older, hb, holder, rfl⟩ := recentBuckets_eq_some hn h
  obtain ⟨hlength, hchain, hall⟩ := bucketsBefore_spec hb holder
  refine ⟨?_, List.isChain_reverse.mpr hchain, fun c hc => ?_, b, ?_,
    contains_of_bucketForEventTime hb⟩
  · rw [List.length_reverse, List.length_cons, hlength]
    omega
  · rcases List.mem_cons.mp (List.mem_reverse.mp hc) with rfl | hc
    · exact bucketForEventTime_start hb
    · exact hall c hc
  · rw [List.getLast?_reverse]
    rfl

end TableDefinition

end Pulpitum
