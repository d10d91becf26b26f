import Mathlib
import Pulpitum.Domain.Schema

/-!
# Domain — Routing

What the calendar gives the router: the buckets of a strategy cut time without gaps or overlaps,
their keys tell them apart, and a range is routed to exactly the buckets that it meets.

* `BucketStrategy.calendar_partition`: **two times have one bucket or disjoint ones**, and the keys
  say which.
* `TableDefinition.range_exact_cover`: **a range is covered exactly** by the buckets it is routed
  to, in the order of time and without gaps.
-/

namespace Pulpitum
open Calendar

/-! ### The calendar -/

namespace BucketStrategy

variable {s s' : BucketStrategy} {t u a a' e e' : DateTime}

/-- Buckets that share a time are equal. -/
theorem bounds_eq_or_disjoint (ht : s.bucketBounds t = some (a, e))
    (hu : s.bucketBounds u = some (a', e')) :
    (a, e) = (a', e') ∨ Disjoint (Set.Ico a e) (Set.Ico a' e') := by
  refine or_iff_not_imp_right.mpr fun hnot => ?_
  obtain ⟨v, ⟨hv₁, hv₂⟩, ⟨hv₃, hv₄⟩⟩ := Set.not_disjoint_iff.mp hnot
  have h₁ := bucketBounds_of_mem ht hv₁ hv₂
  have h₂ := bucketBounds_of_mem hu hv₃ hv₄
  exact Option.some.inj (h₁.symm.trans h₂)

/-- The key of a time says which bucket it is in. -/
theorem bucketKey_eq_iff (ht : s.bucketBounds t = some (a, e))
    (hu : s.bucketBounds u = some (a', e')) :
    s.bucketKey t = s.bucketKey u ↔ (a, e) = (a', e') := by
  constructor
  · intro hkey
    have hstart := (keyText_inj (congrArg BucketKey.asStr hkey)).2
    rw [bucketBounds_congr hstart, hu] at ht
    exact (Option.some.inj ht).symm
  · intro hbounds
    obtain ⟨⟨_, ha⟩, -⟩ := bucketBounds_eq_some ht
    obtain ⟨⟨_, ha'⟩, -⟩ := bucketBounds_eq_some hu
    have hstart : s.startOf t.date = s.startOf u.date := by
      have := congrArg DateTime.date (ha.symm.trans ((congrArg Prod.fst hbounds).trans ha'))
      exact this
    refine BucketKey.ext ?_
    calc s.keyText t.date = s.keyText (s.startOf t.date) := (s.keyText_startOf _).symm
      _ = s.keyText (s.startOf u.date) := by rw [hstart]
      _ = s.keyText u.date := s.keyText_startOf _

/-- **Calendar buckets partition time and their keys identify them.** -/
theorem calendar_partition (ht : s.bucketBounds t = some (a, e))
    (hu : s.bucketBounds u = some (a', e')) :
    (a ≤ t ∧ t < e) ∧ ((a, e) = (a', e') ∨ Disjoint (Set.Ico a e) (Set.Ico a' e')) ∧
      (∀ p, s.bucketBounds e = some p → p.1 = e) ∧
      (s.bucketKey t = s.bucketKey u ↔ (a, e) = (a', e')) ∧
      ∀ s' v, s' ≠ s → s'.bucketKey v ≠ s.bucketKey t :=
  ⟨bucketBounds_contains ht, bounds_eq_or_disjoint ht hu, fun _ => bucketBounds_end ht,
    bucketKey_eq_iff ht hu,
    fun _ _ hne hkey => hne (keyText_inj (congrArg BucketKey.asStr hkey)).1⟩

end BucketStrategy

/-- The years 2024 and 2025: different keys, disjoint bounds. -/
theorem calendar_partition_of_years :
    let s := BucketStrategy.calendarYearUtc
    let t := Sample.newYear 2024 (by decide)
    let u := Sample.newYear 2025 (by decide)
    s.bucketBounds t = some (t, u) ∧
      s.bucketBounds u = some (u, Sample.newYear 2026 (by decide)) ∧
      s.bucketKey t ≠ s.bucketKey u ∧
      Disjoint (Set.Ico t u) (Set.Ico u (Sample.newYear 2026 (by decide))) := by
  have ht : BucketStrategy.calendarYearUtc.bucketBounds (Sample.newYear 2024 (by decide)) =
      some (Sample.newYear 2024 (by decide), Sample.newYear 2025 (by decide)) := rfl
  have hu : BucketStrategy.calendarYearUtc.bucketBounds (Sample.newYear 2025 (by decide)) =
      some (Sample.newYear 2025 (by decide), Sample.newYear 2026 (by decide)) := rfl
  have hne : (Sample.newYear 2024 (by decide), Sample.newYear 2025 (by decide)) ≠
      (Sample.newYear 2025 (by decide), Sample.newYear 2026 (by decide)) := by decide
  obtain ⟨-, hdisjoint, -, hkey, -⟩ := BucketStrategy.calendar_partition ht hu
  exact ⟨ht, hu, fun h => hne (hkey.mp h), hdisjoint.resolve_left hne⟩

/-! ### Ranges -/

namespace TableDefinition

variable {d : TableDefinition} {pk : PartitionKey} {range : TimeRange} {t e : DateTime}
  {b b' : BucketId} {bs : List BucketId}

/-- The routed buckets adjoin, from the bucket of the first time on. -/
theorem bucketsFrom_adjoin (h : d.bucketsFrom pk e t = some bs) :
    bs.IsChain (fun a b => a.endAt = b.start) ∧
      ∀ b ∈ bs.head?, d.bucketForEventTime pk t = some b := by
  refine bucketsFrom_induction (P := fun t bs => bs.IsChain (fun a b => a.endAt = b.start) ∧
    ∀ b ∈ bs.head?, d.bucketForEventTime pk t = some b) ?_ ?_ h
  · exact fun _ _ => ⟨.nil, fun _ hb => by cases hb⟩
  · rintro t b bs hb - ⟨hchain, hhead⟩
    refine ⟨List.isChain_cons.mpr ⟨fun b' hb' => ?_, hchain⟩, fun b' hb' => by cases hb'; exact hb⟩
    exact (start_of_bucketForEventTime_endAt hb (hhead b' hb')).symm

theorem bucketsForRange_adjoin (h : d.bucketsForRange pk range = some bs) :
    bs.IsChain (fun a b => a.endAt = b.start) := by
  unfold bucketsForRange at h
  split at h
  · cases h
    exact .nil
  · exact (bucketsFrom_adjoin h).1

/-- Routed buckets are in the order of time. -/
theorem bucketsForRange_sorted (h : d.bucketsForRange pk range = some bs) :
    bs.Pairwise (fun a b => a.start < b.start) := by
  refine (bucketsForRange_pairwise h).imp_of_mem fun {a c} ha _ hle => ?_
  have hin := contains_of_bucketForEventTime (bucketForEventTime_of_mem h ha)
  exact hin.2.trans_le hle

/-- A bucket of the partition is routed to exactly when it meets the range. -/
theorem mem_bucketsForRange_iff (h : d.bucketsForRange pk range = some bs)
    (hb : d.bucketForEventTime pk t = some b) :
    b ∈ bs ↔ ∃ u, b.contains u ∧ range.contains u := by
  constructor
  · intro hmem
    unfold bucketsForRange at h
    split at h
    · cases h
      cases hmem
    · rename_i hlt
      obtain ⟨-, hstart, hend⟩ := (bucketsFrom_spec h).1 b hmem
      have hbucket := contains_of_bucketForEventTime hb
      -- the later one of the two starts is in both
      refine ⟨max b.start range.start, ⟨le_max_left _ _, ?_⟩, le_max_right _ _, ?_⟩
      · exact max_lt (hbucket.1.trans_lt hbucket.2) hend
      · exact max_lt hstart (not_le.mp hlt)
  · rintro ⟨u, hbu, hu⟩
    obtain ⟨c, hc, hcu⟩ := mem_bucketsForRange h hu
    have hbu' := BucketId.forEventTimeWithStrategy_of_contains hb hbu
    cases hcu.symm.trans hbu'
    exact hc

/-- The range ends at or before the horizon when there is a bucket after the one of its end. -/
theorem endAt_le_horizon_of_next (hb : d.bucketForEventTime pk t = some b)
    (hnext : d.bucketForEventTime pk b.endAt = some b') : t ≤ d.horizon := by
  have hstart := start_of_bucketForEventTime_endAt hb hnext
  have hle := start_le_horizon hnext
  rw [hstart] at hle
  exact (contains_of_bucketForEventTime hb).2.le.trans hle

/-- **A range is covered exactly**, if there is a bucket after the one of its end. -/
theorem range_exact_cover (hb : d.bucketForEventTime pk range.endAt = some b)
    (hnext : d.bucketForEventTime pk b.endAt = some b') :
    ∃ bs, d.bucketsForRange pk range = some bs ∧ bs.Nodup ∧
      (∀ c ∈ bs, c.partitionKey = pk) ∧
      bs.Pairwise (fun a b => a.start < b.start) ∧ bs.IsChain (fun a b => a.endAt = b.start) ∧
      (∀ t c, d.bucketForEventTime pk t = some c →
        (c ∈ bs ↔ ∃ u, c.contains u ∧ range.contains u)) ∧
      (range.endAt ≤ range.start → bs = []) ∧
      ∀ t, range.contains t → ∃ c, d.bucketForEventTime pk t = some c ∧
        ∀ c', c' ∈ bs ∧ c'.contains t ↔ c' = c := by
  obtain ⟨bs, hbs⟩ : ∃ bs, d.bucketsForRange pk range = some bs := by
    by_cases hr : range.start < range.endAt
    · exact Option.isSome_iff_exists.mp
        ((bucketsForRange_isSome_iff hr).mpr (endAt_le_horizon_of_next hb hnext))
    · exact ⟨[], if_pos (not_lt.mp hr)⟩
  have hsorted := bucketsForRange_sorted hbs
  refine ⟨bs, hbs, hsorted.imp fun hlt he => absurd (congrArg BucketId.start he) hlt.ne,
    fun c hc => ?_, hsorted, bucketsForRange_adjoin hbs, fun t c => mem_bucketsForRange_iff hbs,
    fun hr => ?_, fun t ht => ?_⟩
  · have hc' := bucketForEventTime_of_mem hbs hc
    exact (BucketId.forEventTimeWithStrategy_eq_some hc').2.2.1
  · have hnil : d.bucketsForRange pk range = some [] := if_pos hr
    exact Option.some.inj (hbs.symm.trans hnil)
  · obtain ⟨c, hc, hct⟩ := mem_bucketsForRange hbs ht
    refine ⟨c, hct, fun c' => ⟨fun ⟨hc', hin⟩ => ?_, ?_⟩⟩
    · have hc't := BucketId.forEventTimeWithStrategy_of_contains
        (bucketForEventTime_of_mem hbs hc') hin
      exact Option.some.inj (hc't.symm.trans hct)
    · rintro rfl
      exact ⟨hc, contains_of_bucketForEventTime hct⟩

end TableDefinition

/-- From the middle of 2024 to the end of 2025: the year buckets of both. -/
theorem range_exact_cover_of_years :
    ∃ bs, Sample.definition.bucketsForRange [7] ⟨Sample.july, Sample.nextBucket.endAt⟩ = some bs ∧
      bs.Nodup ∧ (∀ c, c ∈ bs ∧ c.contains Sample.july ↔ c = Sample.bucket) ∧
      ∀ c, c ∈ bs ∧ c.contains Sample.nextBucket.start ↔ c = Sample.nextBucket := by
  obtain ⟨bs, hbs, hnodup, -, -, -, -, -, hcover⟩ := @TableDefinition.range_exact_cover
    Sample.definition [7] ⟨Sample.july, Sample.nextBucket.endAt⟩ _ _ rfl rfl
  have hbucket : Sample.definition.bucketForEventTime [7] Sample.july = some Sample.bucket := rfl
  have hnext : Sample.definition.bucketForEventTime [7] Sample.nextBucket.start =
      some Sample.nextBucket := rfl
  obtain ⟨c, hc, hiff⟩ := hcover Sample.july ⟨le_rfl, by decide⟩
  obtain ⟨c', hc', hiff'⟩ := hcover Sample.nextBucket.start ⟨by decide, by decide⟩
  cases hbucket.symm.trans hc
  cases hnext.symm.trans hc'
  exact ⟨bs, hbs, hnodup, hiff, hiff'⟩

end Pulpitum
