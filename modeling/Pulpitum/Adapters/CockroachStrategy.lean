import Mathlib
import Pulpitum.Support.Runs
import Pulpitum.Adapters.CockroachDurable

/-!
# Adapters — One strategy per table

Every metadata row keeps the strategy it was inserted with.  `append` inserts a row only when no
row of the table has another strategy; `begin_archive` inserts one without looking.

* `strategyAt_step`: what one call does to the strategies of the rows.
* `one_strategy_iff_no_clash`: after a run, each table has one strategy exactly when no call of the
  run `Clashes`; and then appends with the table's strategy are not refused for it.
* `begin_archive_mixes_strategies`: a run of three calls after which a table has two strategies
  and refuses the strategy it was created with.
-/

namespace Pulpitum
namespace Cockroach

/-- The strategy of the row of a bucket. -/
def strategyAt (db : Db) (k : BucketRef) : Option BucketStrategy :=
  (db.metadata.find? k).map MetadataRow.bucketStrategy

/-- All rows of a table have the same strategy. -/
def OneStrategy (db : Db) : Prop :=
  ∀ m ∈ db.metadata.rows, ∀ m' ∈ db.metadata.rows, m.tableId = m'.tableId →
    m.bucketStrategy = m'.bucketStrategy

instance : DecidablePred OneStrategy := fun db => by unfold OneStrategy; infer_instance

/-- The request is a `begin_archive` of a bucket that has no row yet, whose bounds the schema
accepts, and whose table has a row of another strategy. -/
def Clashes (db : Db) : StoreRequest → Prop
  | .beginArchive b => db.metadata.find? (refOf b) = none ∧ b.start.toSql < b.endAt.toSql ∧
      ∃ m ∈ db.metadata.rows, m.tableId = b.tableId ∧ m.bucketStrategy ≠ b.strategy
  | _ => False

variable {db db' : Db}

theorem mem_rows_iff {m : MetadataRow} :
    m ∈ db.metadata.rows ↔ db.metadata.find? m.ref = some m := by
  rw [Table.find?_eq_some_iff, and_iff_left rfl]

theorem strategyAt_eq_some {k : BucketRef} {s : BucketStrategy} :
    strategyAt db k = some s ↔ ∃ m ∈ db.metadata.rows, m.ref = k ∧ m.bucketStrategy = s := by
  unfold strategyAt
  rw [Option.map_eq_some_iff]
  constructor
  · rintro ⟨m, hm, rfl⟩
    obtain ⟨h₁, h₂⟩ := Table.find?_eq_some_iff.mp hm
    exact ⟨m, h₁, h₂, rfl⟩
  · rintro ⟨m, hm, rfl, rfl⟩
    exact ⟨m, mem_rows_iff.mp hm, rfl⟩

theorem oneStrategy_iff :
    OneStrategy db ↔ ∀ (k k' : BucketRef) {s s' : BucketStrategy}, k.1 = k'.1 →
      strategyAt db k = some s → strategyAt db k' = some s' → s = s' := by
  constructor
  · intro h k k' s s' hk hs hs'
    obtain ⟨m, hm, rfl, rfl⟩ := strategyAt_eq_some.mp hs
    obtain ⟨m', hm', rfl, rfl⟩ := strategyAt_eq_some.mp hs'
    exact h m hm m' hm' hk
  · intro h m hm m' hm' ht
    exact h m.ref m'.ref ht (strategyAt_eq_some.mpr ⟨m, hm, rfl, rfl⟩)
      (strategyAt_eq_some.mpr ⟨m', hm', rfl, rfl⟩)

/-- Some row of the table of `b` has another strategy than `b`. -/
def OtherStrategy (db : Db) (b : BucketId) : Prop :=
  ∃ k s, k.1 = b.tableId ∧ strategyAt db k = some s ∧ s ≠ b.strategy

theorem otherStrategy_iff {b : BucketId} :
    OtherStrategy db b ↔
      ∃ m ∈ db.metadata.rows, m.tableId = b.tableId ∧ m.bucketStrategy ≠ b.strategy := by
  constructor
  · rintro ⟨k, s, hk, hs, hne⟩
    obtain ⟨m, hm, rfl, rfl⟩ := strategyAt_eq_some.mp hs
    exact ⟨m, hm, hk, hne⟩
  · rintro ⟨m, hm, ht, hne⟩
    exact ⟨m.ref, _, ht, strategyAt_eq_some.mpr ⟨m, hm, rfl, rfl⟩, hne⟩

/-! ### One call -/

/-- A row set to one of the same strategy leaves the strategies. -/
theorem strategyAt_setsRow {k : BucketRef} {m m' : MetadataRow}
    (hk : db.metadata.find? k = some m) (h : SetsRow db k m' db')
    (hs : m'.bucketStrategy = m.bucketStrategy) (k' : BucketRef) :
    strategyAt db' k' = strategyAt db k' := by
  unfold strategyAt
  rw [h.find?]
  by_cases e : k = k'
  · subst e; rw [if_pos rfl, hk, Option.map_some, Option.map_some, hs]
  · rw [if_neg e]

/-- A row that was looked up or inserted: the strategies change only if it was inserted. -/
theorem strategyAt_setsRowOrNew {b : BucketId} {m' : MetadataRow}
    (h : SetsRow db (refOf b) m' db')
    (hs : m'.bucketStrategy = (rowOrNew db b).bucketStrategy) :
    (db.metadata.find? (refOf b) ≠ none ∧ ∀ k, strategyAt db' k = strategyAt db k) ∨
      (db.metadata.find? (refOf b) = none ∧
        ∀ k, strategyAt db' k = if refOf b = k then some b.strategy else strategyAt db k) := by
  cases hk : db.metadata.find? (refOf b) with
  | some m =>
      have hrow : rowOrNew db b = m := by rw [rowOrNew, hk]; rfl
      exact .inl ⟨by simp, strategyAt_setsRow hk h (hrow ▸ hs)⟩
  | none =>
      have hrow : rowOrNew db b = .new b := by rw [rowOrNew, hk]; rfl
      refine .inr ⟨rfl, fun k => ?_⟩
      unfold strategyAt
      rw [h.find?]
      by_cases e : refOf b = k
      · rw [if_pos e, if_pos e, Option.map_some, hs, hrow]; rfl
      · rw [if_neg e, if_neg e]

/-- What one call does to the strategies: nothing, or it inserts the row of a bucket, and then it
clashes exactly when the table has another strategy. -/
theorem strategyAt_step {c : Call Env} (hs : Call.Step exec db c db') :
    (¬ Clashes db c.request ∧ ∀ k, strategyAt db' k = strategyAt db k) ∨
      ∃ b, strategyAt db (refOf b) = none ∧ (Clashes db c.request ↔ OtherStrategy db b) ∧
        ∀ k, strategyAt db' k = if refOf b = k then some b.strategy else strategyAt db k := by
  obtain ⟨env, q, r⟩ := c
  have heff := exec_effect env q db
  rw [show exec env q db = (r, db') from hs] at heff
  cases heff with
  | look ha hi _ =>
      refine .inl ⟨fun hc => ?_, fun _ => rfl⟩
      cases q with
      | beginArchive b =>
          -- a clashing `begin_archive` succeeds
          obtain ⟨x, hx⟩ := beginArchive_of_absent env hc.1 hc.2.1
          rw [show exec env (.beginArchive b) _ = (r, _) from hs] at hx
          rw [show r = .ok x from hx] at hi; cases hi
      | _ => exact hc
  | @append b r db' hall hp hm fresh hr =>
      rcases strategyAt_setsRowOrNew hm rfl with ⟨-, h⟩ | ⟨hk, h⟩
      · exact .inl ⟨id, h⟩
      · refine .inr ⟨b, by rw [strategyAt, hk]; rfl, ⟨False.elim, fun ho => ?_⟩, h⟩
        obtain ⟨m, hmem, ht, hne⟩ := otherStrategy_iff.mp ho
        exact hne (hall m hmem ht)
  | @beginArchive b db' hp hm hr =>
      rcases strategyAt_setsRowOrNew (b := b) hm rfl with ⟨hk, h⟩ | ⟨hk, h⟩
      · exact .inl ⟨fun hc => hk hc.1, h⟩
      · refine .inr ⟨b, by rw [strategyAt, hk]; rfl, ?_, h⟩
        rw [otherStrategy_iff]
        refine ⟨fun hc => hc.2.2, fun ho => ⟨hk, ?_, ho⟩⟩
        have hbounds := hm.check.1
        rw [rowOrNew, hk] at hbounds
        exact hbounds
  | claimArchive hk hp hm | claimCleanup hk hp hm | renew hk _ hm | deferArchive hk _ _ hm
  | deferCleanup hk _ _ hm | publish hk _ _ hm | deleteHot hk _ _ hm | abort hk _ _ hm =>
      exact .inl ⟨id, strategyAt_setsRow hk hm rfl⟩
  | snapshot => exact .inl ⟨id, fun _ => rfl⟩

/-- The strategy of a row is never changed, and no row is removed. -/
theorem strategyAt_mono {c : Call Env} (hs : Call.Step exec db c db') {k : BucketRef}
    {s : BucketStrategy} (h : strategyAt db k = some s) : strategyAt db' k = some s := by
  rcases strategyAt_step hs with ⟨-, hsame⟩ | ⟨b, hnone, -, hset⟩
  · rw [hsame, h]
  · rw [hset, if_neg (fun e => by rw [e, h] at hnone; cases hnone), h]

/-- From a state with one strategy per table, one call keeps it unless the call clashes. -/
theorem oneStrategy_step_iff {c : Call Env} (h : OneStrategy db) (hs : Call.Step exec db c db') :
    OneStrategy db' ↔ ¬ Clashes db c.request := by
  rcases strategyAt_step hs with ⟨hc, hsame⟩ | ⟨b, hnone, hiff, hset⟩
  · refine iff_of_true ?_ hc
    rw [oneStrategy_iff]
    intro k k' s s' hk h₁ h₂
    rw [hsame] at h₁ h₂
    exact oneStrategy_iff.mp h _ _ hk h₁ h₂
  · rw [hiff]
    constructor
    · rintro h' ⟨k, s, hk, hs', hne⟩
      refine hne (oneStrategy_iff.mp h' k (refOf b) hk
        (strategyAt_mono hs hs') ?_)
      rw [hset, if_pos rfl]
    · intro hno
      have hother : ∀ {k s}, k.1 = b.tableId → strategyAt db k = some s → s = b.strategy :=
        fun hk hs' => by_contra fun hne => hno ⟨_, _, hk, hs', hne⟩
      rw [oneStrategy_iff]
      intro k k' s s' hk h₁ h₂
      rw [hset] at h₁ h₂
      split at h₁ <;> split at h₂
      · exact Option.some.inj (h₁.symm.trans h₂)
      · rename_i e _; subst e
        rw [← Option.some.inj h₁]; exact (hother hk.symm h₂).symm
      · rename_i _ e; subst e
        rw [← Option.some.inj h₂]; exact hother hk h₁
      · exact oneStrategy_iff.mp h _ _ hk h₁ h₂

/-! ### Whole runs -/

/-- A table that has two strategies keeps them. -/
theorem not_oneStrategy_step {c : Call Env} (h : ¬ OneStrategy db) (hs : Call.Step exec db c db') :
    ¬ OneStrategy db' := by
  intro h'
  refine h (oneStrategy_iff.mpr fun k k' s s' hk h₁ h₂ => ?_)
  exact oneStrategy_iff.mp h' _ _ hk (strategyAt_mono hs h₁) (strategyAt_mono hs h₂)

/-- No call of the list, run from the empty tables, clashes where it is made. -/
def NoClash (calls : List (Call Env)) : Prop :=
  ∀ before c after db, calls = before ++ c :: after → Run (Call.Step exec) Db.empty before db →
    ¬ Clashes db c.request

theorem noClash_snoc {calls : List (Call Env)} {c : Call Env}
    (hr : Run (Call.Step exec) Db.empty calls db) :
    NoClash (calls ++ [c]) ↔ NoClash calls ∧ ¬ Clashes db c.request := by
  constructor
  · intro h
    refine ⟨fun before c' after db' he => ?_, h calls c [] db rfl hr⟩
    exact h before c' (after ++ [c]) db' (by rw [he]; simp)
  · rintro ⟨h, hc⟩ before c' after db' he hr'
    -- the last call is the new one, or the call was one of the old ones
    rcases List.eq_nil_or_concat after with rfl | ⟨after', x, rfl⟩
    · obtain ⟨rfl, rfl⟩ := List.append_inj' he rfl |>.imp id List.singleton_inj.mp
      exact Run.deterministic Call.step_deterministic hr hr' ▸ hc
    · have he' : calls ++ [c] = (before ++ c' :: after') ++ [x] := by rw [he]; simp
      exact h before c' after' db' (List.append_inj' he' rfl).1 hr'

/-- Exactness of `Clashes` over whole runs. -/
theorem oneStrategy_iff_noClash {calls : List (Call Env)}
    (hr : Run (Call.Step exec) Db.empty calls db) : OneStrategy db ↔ NoClash calls := by
  refine Run.rec_last (P := fun calls db => OneStrategy db ↔ NoClash calls) ?_ ?_ hr
  · refine iff_of_true (fun m hm => by cases hm) fun before c after db he => ?_
    cases before <;> cases he
  · intro calls db c db' hr ih hs
    rw [noClash_snoc hr, ← ih]
    by_cases h : OneStrategy db
    · rw [oneStrategy_step_iff h hs]; simp [h]
    · exact iff_of_false (not_oneStrategy_step h hs) fun hh => h hh.1

theorem append_not_mismatch {env : Env} {b : BucketId} {r : Record}
    (h : ¬ OtherStrategy db b) :
    (exec env (.append b r) db).1 ≠ .error .bucketStrategyMismatch := by
  intro he
  refine h (otherStrategy_iff.mpr (append_mismatch (r := r) ?_))
  unfold exec at he
  cases hb : append b r db with
  | error e =>
      rw [show body env (.append b r) db = .error e from hb] at he
      exact congrArg _ (Except.error.inj he)
  | ok p =>
      rw [show body env (.append b r) db = .ok p from hb] at he
      cases he

/-- A bucket that was appended to has a row with its strategy. -/
theorem strategyAt_of_appended {calls : List (Call Env)}
    (hr : Run (Call.Step exec) Db.empty calls db) :
    ∀ c ∈ calls, ∀ b r, c.appended = some (b, r) → strategyAt db (refOf b) = some b.strategy := by
  refine Run.rec_last (P := fun calls db => ∀ c ∈ calls, ∀ b r, c.appended = some (b, r) →
    strategyAt db (refOf b) = some b.strategy) (fun _ h => by cases h) ?_ hr
  intro calls db c db' _ ih hs c' hc' b r ha
  rcases List.mem_append.mp hc' with hc' | hc'
  · exact strategyAt_mono hs (ih c' hc' b r ha)
  obtain rfl := List.mem_singleton.mp hc'
  obtain ⟨env, q, reply⟩ := c'
  have heff := exec_effect env q db
  rw [show exec env q db = (reply, db') from hs] at heff
  cases heff with
  | look ha' => cases ha.symm.trans ha'
  | @append b r db' hall hp hm fresh hr =>
      cases ha
      rw [strategyAt, hm.find?, if_pos rfl, Option.map_some]
      -- the row was there, and then it passed the check, or it was inserted
      cases hk : db.metadata.find? (refOf b) with
      | none => rw [rowOrNew, hk]; rfl
      | some m =>
          obtain ⟨hmem, hkey⟩ := Table.find?_eq_some_iff.mp hk
          rw [rowOrNew, hk]
          exact congrArg some (hall m hmem (congrArg Prod.fst hkey))
  | claimArchive | claimCleanup | beginArchive | renew | deferArchive | deferCleanup | snapshot
  | publish | deleteHot | abort => cases ha

/-- **One strategy per table, exactly when no `begin_archive` clashes.**  After any calls from the
empty tables, all rows of a table have one strategy if and only if no call was a `begin_archive`
of a new bucket whose table had another strategy; and then an append with the strategy of an earlier
append to the table is never refused as a strategy mismatch. -/
theorem one_strategy_iff_no_clash {calls : List (Call Env)}
    (hr : Run (Call.Step exec) Db.empty calls db) :
    (OneStrategy db ↔ NoClash calls) ∧
      (NoClash calls → ∀ c ∈ calls, ∀ b r, c.appended = some (b, r) →
        ∀ (env : Env) (b' : BucketId) (r' : Record), b'.tableId = b.tableId →
          b'.strategy = b.strategy →
          (exec env (.append b' r') db).1 ≠ .error .bucketStrategyMismatch) := by
  refine ⟨oneStrategy_iff_noClash hr, fun hno c hc b r ha env b' r' ht hs => ?_⟩
  have hone := (oneStrategy_iff_noClash hr).mpr hno
  refine append_not_mismatch ?_
  rintro ⟨k, s, hk, hks, hne⟩
  have hsame : s = b.strategy := oneStrategy_iff.mp hone k (refOf b) (hk.trans ht) hks
    (strategyAt_of_appended hr c hc b r ha)
  exact hne (hsame.trans hs.symm)

namespace Sample

/-- The day bucket `2024-01-01` of the table of `Sample.bucket`. -/
def dayBucket : BucketId :=
  { Pulpitum.Sample.bucket with
    strategy := .calendarDayUtc
    key := ⟨"day:2024-01-01", by decide⟩
    endAt := DateTime.midnight (.ofFields 2024 1 2 (by decide)) (by decide) }

/-- The day bucket after it. -/
def nextDay : BucketId :=
  { dayBucket with
    key := ⟨"day:2024-01-02", by decide⟩
    start := dayBucket.endAt
    endAt := DateTime.midnight (.ofFields 2024 1 3 (by decide)) (by decide) }

end Sample

/-- Two days are appended to and a third call begins the archival of the first: no call clashes, and
the days can still be appended to. -/
theorem one_strategy_iff_no_clash_of_days :
    let first : StoreRequest := .append Sample.dayBucket Pulpitum.Sample.record
    let db₁ := (exec (Sample.env "a") first Db.empty).2
    let record' := { Pulpitum.Sample.record with eventTime := Sample.nextDay.start }
    let second : StoreRequest := .append Sample.nextDay record'
    let db₂ := (exec (Sample.env "b") second db₁).2
    let begin : StoreRequest := .beginArchive Sample.dayBucket
    let db₃ := (exec (Sample.env "c") begin db₂).2
    let calls := [Call.of exec (Sample.env "a") first Db.empty,
      Call.of exec (Sample.env "b") second db₁, Call.of exec (Sample.env "c") begin db₂]
    OneStrategy db₃ ∧ NoClash calls ∧
      (exec (Sample.env "d") (.append Sample.nextDay record') db₃).1 ≠
        .error .bucketStrategyMismatch := by
  intro first db₁ record' second db₂ begin db₃ calls
  have hr : Run (Call.Step exec) Db.empty calls db₃ :=
    .more (Call.step_of ..) (.more (Call.step_of ..) (.one (Call.step_of ..)))
  obtain ⟨hiff, happends⟩ := one_strategy_iff_no_clash hr
  have hone : OneStrategy db₃ := by decide
  have hno := hiff.mp hone
  exact ⟨hone, hno, happends hno _ (List.mem_cons_self ..)
    Sample.dayBucket Pulpitum.Sample.record rfl
    _ _ _ rfl rfl⟩

/-- **Two strategies in one table.**  A record is appended to a day bucket; `begin_archive` is
called on a year bucket of the same table; then the table has rows of both strategies, and the
append of another record to the day bucket is refused. -/
theorem begin_archive_mixes_strategies :
    let append : StoreRequest := .append Sample.dayBucket Pulpitum.Sample.record
    let db₁ := (exec (Sample.env "a") append Db.empty).2
    let begin : StoreRequest := .beginArchive Pulpitum.Sample.bucket
    let db₂ := (exec (Sample.env "b") begin db₁).2
    let calls := [Call.of exec (Sample.env "a") append Db.empty,
      Call.of exec (Sample.env "b") begin db₁]
    Run (Call.Step exec) Db.empty calls db₂ ∧ ¬ OneStrategy db₂ ∧
      (Call.of exec (Sample.env "a") append Db.empty).appended =
        some (Sample.dayBucket, Pulpitum.Sample.record) ∧
      (exec (Sample.env "c") (.append Sample.dayBucket
        { Pulpitum.Sample.record with sortKey := [2] }) db₂).1 =
          .error .bucketStrategyMismatch := by
  intro append db₁ begin db₂ calls
  refine ⟨.more (Call.step_of ..) (.one (Call.step_of ..)), by decide, rfl, rfl⟩

end Cockroach

end Pulpitum
