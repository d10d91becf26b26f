import Mathlib
import Pulpitum.Adapters.CockroachDurable
import Pulpitum.Adapters.CockroachTime
import Pulpitum.Application.DurableTable

/-!
# Adapters — Cockroach reads

`read_bucket` through the two tiers.  A hot bucket is filtered, ordered and cut by one SQL
statement, whose parameters the driver has truncated to microseconds; an archived one by Rust, on
the nanosecond values.  Both select a window of stored keys.

* `mem_sqlWindow`, `mem_exactWindow`: the window each tier selects.
* `tier_blind_iff`: **the two tiers return the same records** of a bucket, whatever it stores,
  exactly when the two windows agree inside the bucket.
-/

namespace Pulpitum
namespace Cockroach

/-! ### The windows -/

/-- The keys from a start on and after a cursor. -/
def lowerCut (start : ℤ) (after : Option (Window.Cut SortKey)) : Window.Cut SortKey :=
  match after with
  | none => Window.before start
  | some cut => max (Window.before start) cut

/-- The lower cut of the statement of `read_range`, with its truncated parameters. -/
def sqlLow (range : TimeRange) (after : Option Cursor) : Window.Cut SortKey :=
  lowerCut range.start.toSql (after.map fun c => Window.after c.eventTime.toSql c.sortKey)

/-- The lower cut of the filters of `read_bucket`. -/
def exactLow (range : TimeRange) (after : Option Cursor) : Window.Cut SortKey :=
  lowerCut range.start.ceilSql (after.map Cursor.cut)

/-- Inside the bucket, the truncated parameters select the window that the range and the cursor
select. -/
def Aligned (b : BucketId) (range : TimeRange) (after : Option Cursor) : Prop :=
  let low := max (sqlLow range after) (Window.before b.start.toSql)
  let up := min range.endAt.toSql b.endAt.toSql
  let low' := max (exactLow range after) (Window.before b.start.toSql)
  let up' := min range.endAt.ceilSql b.endAt.toSql
  (low = low' ∧ up = up') ∨ (Window.Empty low up ∧ Window.Empty low' up')

instance (b : BucketId) (range : TimeRange) (after : Option Cursor) :
    Decidable (Aligned b range after) := by
  unfold Aligned; infer_instance

variable {b : BucketId} {range : TimeRange} {after : Option Cursor} {row : RecordRow} {r : Record}

theorem lowerCut_lt {start m : ℤ} {cut : Option (Window.Cut SortKey)} {k : SortKey} :
    lowerCut start cut < Window.after m k ↔ start ≤ m ∧ ∀ x ∈ cut, x < Window.after m k := by
  cases cut with
  | none => simp [lowerCut, Window.before_lt_after]
  | some x => simp [lowerCut, Window.before_lt_after]

theorem mem_sqlWindow (range : TimeRange) (after : Option Cursor) (row : RecordRow) :
    (inSqlRange range row && afterSqlCursor after row) = true ↔
      Window.Mem (sqlLow range after) range.endAt.toSql row.eventTime row.sortKey := by
  simp only [Window.Mem, sqlLow, lowerCut_lt, inSqlRange, Bool.and_eq_true, decide_eq_true_eq]
  cases after with
  | none => simp [afterSqlCursor]
  | some c => simp [afterSqlCursor, Window.after_lt_after]; tauto

theorem decode_eq_some (h : row.decode = some r) :
    DateTime.fromSql row.eventTime = some r.eventTime ∧ r.sortKey = row.sortKey := by
  simp only [RecordRow.decode, Option.bind_eq_bind, Option.bind_eq_some_iff] at h
  obtain ⟨t, ht, h⟩ := h
  cases h
  exact ⟨ht, rfl⟩

theorem mem_exactWindow (h : row.decode = some r) :
    (range.contains r.eventTime ∧ isAfter after r) ↔
      Window.Mem (exactLow range after) range.endAt.ceilSql row.eventTime row.sortKey := by
  obtain ⟨ht, hk⟩ := decode_eq_some h
  simp only [Window.Mem, exactLow, lowerCut_lt, TimeRange.contains, isAfter, Record.clusteringKey,
    DateTime.le_iff_ceilSql_le ht, DateTime.lt_iff_lt_ceilSql ht, hk]
  cases after with
  | none => simp
  | some c => simp [Cursor.cut_lt_after ht]; tauto

theorem mem_bucketWindow (hb : b.Canonical) (h : row.decode = some r) :
    b.contains r.eventTime ↔
      Window.Mem (Window.before b.start.toSql) b.endAt.toSql row.eventTime row.sortKey := by
  obtain ⟨ht, -⟩ := decode_eq_some h
  obtain ⟨hs, he⟩ := hb.whole
  rw [BucketId.contains, Window.Mem, Window.before_lt_after, DateTime.le_iff_ceilSql_le ht,
    DateTime.lt_iff_lt_ceilSql ht, hs.toSql_eq.1, he.toSql_eq.1]

/-- Every byte string has a later one. -/
theorem exists_sortKey_gt (x : WithBot SortKey) : ∃ k : SortKey, x < k := by
  have happend : ∀ k : SortKey, k < k ++ [0] := by
    intro k
    induction k with
    | nil => exact List.nil_lt_cons _ _
    | cons a k ih => exact List.cons_lt_cons_iff.mpr (.inr ⟨rfl, ih⟩)
  cases x with
  | bot => exact ⟨[], WithBot.bot_lt_coe _⟩
  | coe k => exact ⟨k ++ [0], WithBot.coe_lt_coe.mpr (happend k)⟩

/-- **The windows agree in the bucket** exactly when they hold the same keys of it. -/
theorem aligned_iff :
    Aligned b range after ↔ ∀ m k, Window.Mem (Window.before b.start.toSql) b.endAt.toSql m k →
      (Window.Mem (sqlLow range after) range.endAt.toSql m k ↔
        Window.Mem (exactLow range after) range.endAt.ceilSql m k) := by
  rw [Aligned, ← Window.mem_iff_iff exists_sortKey_gt]
  simp only [Window.mem_inter]
  refine forall₂_congr fun m k => ?_
  tauto

/-! ### The two tiers -/

/-- The bucket is not archived. -/
def IsHot (db : Db) (b : BucketId) : Prop :=
  ∀ m, db.metadata.find? (refOf b) = some m → m.state ≠ .archived

/-- The bucket is archived under the key. -/
def IsArchived (db : Db) (b : BucketId) (key : String) : Prop :=
  ∃ m, db.metadata.find? (refOf b) = some m ∧ m.state = .archived ∧ m.archiveObjectKey = some key

/-- The records are those the table stores for the bucket, all inside its bounds. -/
structure Stores (db : Db) (b : BucketId) (rs : List Record) : Prop where
  decodes : ∃ rs', (rowsOf db (refOf b)).mapM RecordRow.decode = some rs' ∧ rs.Perm rs'
  bounded : ∀ r ∈ rs, b.contains r.eventTime
  length_lt : rs.length < 2 ^ 63

/-- What `read_bucket` returns over the database and an archive store. -/
def readVia (env : Env) (db : Db) (archive : (q : ArchiveRequest) → q.Reply) (b : BucketId)
    (range : TimeRange) (after : Option Cursor) (limit : ℕ) :
    Except DurableTableError (List Record) :=
  (readBucket b range after limit).eval (Effect.answer (fun q => (exec env q db).1) archive)

variable {env : Env} {db : Db} {limit : ℕ} {rs : List Record} {rows : List RecordRow}

/-- Rows that decode, decode one by one. -/
theorem exists_decoder (h : rows.mapM RecordRow.decode = some rs) :
    ∃ dec : RecordRow → Record, (∀ row ∈ rows, row.decode = some (dec row)) ∧
      rs = rows.map dec := by
  refine ⟨fun row => row.decode.getD Pulpitum.Sample.record, ?_⟩
  induction rows generalizing rs with
  | nil => cases h; exact ⟨fun _ => (absurd · List.not_mem_nil), rfl⟩
  | cons row rows ih =>
      simp only [List.mapM_cons, Option.bind_eq_bind, Option.bind_eq_some_iff] at h
      obtain ⟨r, hr, rs', hrs, h⟩ := h
      cases h
      obtain ⟨hall, rfl⟩ := ih hrs
      exact ⟨List.forall_mem_cons.mpr ⟨by simp [hr], hall⟩, by simp [hr]⟩

theorem decodeRows_eq {dec : RecordRow → Record} (h : ∀ row ∈ rows, row.decode = some (dec row)) :
    decodeRows rows = .ok (rows.map dec) := by
  have : rows.mapM RecordRow.decode = some (rows.map dec) := by
    induction rows with
    | nil => rfl
    | cons row rows ih =>
        obtain ⟨hr, hrs⟩ := List.forall_mem_cons.mp h
        simp [List.mapM_cons, hr, ih hrs]
  rw [decodeRows, this]

/-- A hot bucket is read by the statement. -/
theorem readRange_hot (hh : IsHot db b) {dec : RecordRow → Record}
    (hdec : ∀ row ∈ rowsOf db (refOf b), row.decode = some (dec row)) :
    (exec env (.readRange b range after limit) db).1 =
      .ok (.hot (((sortRows ((rowsOf db (refOf b)).filter fun r =>
        inSqlRange range r && afterSqlCursor after r)).take (sqlLimit limit)).map dec)) := by
  have hsub : ∀ row ∈ (sortRows ((rowsOf db (refOf b)).filter fun r =>
      inSqlRange range r && afterSqlCursor after r)).take (sqlLimit limit),
      row.decode = some (dec row) := fun row hrow =>
    hdec row (List.mem_of_mem_filter ((List.perm_insertionSort _ _).mem_iff.mp
      (List.mem_of_mem_take hrow)))
  cases hm : db.metadata.find? (refOf b) with
  | none =>
      simp only [exec, body, readRange, hm, ne_eq, reduceCtorEq, not_false_eq_true, decide_true,
        Bool.true_and, decodeRows_eq hsub]
      rfl
  | some m =>
      have hkey : m.archiveObjectKey = none := by
        rcases (Table.check_of_find? hm).2.1 with hi | hi | hi
        · exact hi.2.2.2.1
        · exact hi.2.2.2.1
        · exact absurd hi.1 (hh m hm)
      have hs := hh m hm
      simp only [exec, body, readRange, hm, hkey, ne_eq, hs, not_false_eq_true, decide_true,
        Bool.true_and, decodeRows_eq hsub]
      cases h : m.state with
      | hot => rfl
      | archiving => rfl
      | archived => exact absurd h hs

/-- An archived bucket is routed to its object. -/
theorem readRange_archived {key : String} (ha : IsArchived db b key) :
    (exec env (.readRange b range after limit) db).1 = .ok (.archive key) := by
  obtain ⟨m, hm, hs, hk⟩ := ha
  have hnone : (sortRows ((rowsOf db (refOf b)).filter fun r =>
      decide (RowState.archived ≠ .archived) && inSqlRange range r && afterSqlCursor after r)).take
        (sqlLimit limit) = [] := by
    simp [sortRows]
  simp only [exec, body, readRange, hm, hk, hs, hnone]
  rfl

/-- `read_bucket` returns what the statement returned, or what it keeps of the object. -/
theorem readVia_of_hot {archive : (q : ArchiveRequest) → q.Reply}
    (h : (exec env (.readRange b range after limit) db).1 = .ok (.hot rs)) :
    readVia env db archive b range after limit = .ok rs := by
  rw [readVia, readBucket_eq]
  simp only [Prog.eval, Pulpitum.Effect.answer, h]

theorem readVia_of_archive {archive : (q : ArchiveRequest) → q.Reply} {key : String}
    (h : (exec env (.readRange b range after limit) db).1 = .ok (.archive key))
    (hget : archive (.getBucket b key) = .ok rs) :
    readVia env db archive b range after limit = .ok (selectArchived range after limit rs) := by
  rw [readVia, readBucket_eq]
  simp only [Prog.eval, Pulpitum.Effect.answer, h, readArchived_eq, hget]

/-! ### Equal tiers -/

/-- Rows are in the order of the records they decode to. -/
theorem clusteringKey_le_iff {row' : RecordRow} {r' : Record} (h : row.decode = some r)
    (h' : row'.decode = some r') :
    r.clusteringKey ≤ r'.clusteringKey ↔
      toLex (row.eventTime, row.sortKey) ≤ toLex (row'.eventTime, row'.sortKey) := by
  obtain ⟨ht, hk⟩ := decode_eq_some h
  obtain ⟨ht', hk'⟩ := decode_eq_some h'
  rw [Record.clusteringKey, Record.clusteringKey, Prod.Lex.toLex_le_toLex,
    Prod.Lex.toLex_le_toLex, DateTime.lt_iff_of_fromSql ht ht', DateTime.eq_iff_of_fromSql ht ht',
    hk, hk']

theorem map_sortRows {dec : RecordRow → Record} (h : ∀ row ∈ rows, row.decode = some (dec row)) :
    (sortRows rows).map dec = sortByKey (rows.map dec) :=
  List.map_insertionSort _ _ dec rows fun a ha b hb =>
    (clusteringKey_le_iff (h a ha) (h b hb)).symm

/-- Rows of a bucket with equal keys are equal. -/
theorem eq_of_clusteringKey {k : BucketRef} {row' : RecordRow} {r' : Record}
    (hr : row ∈ rowsOf db k) (hr' : row' ∈ rowsOf db k) (h : row.decode = some r)
    (h' : row'.decode = some r') (he : r.clusteringKey = r'.clusteringKey) : r = r' := by
  obtain ⟨hin, href⟩ := List.mem_filter.mp hr
  obtain ⟨hin', href'⟩ := List.mem_filter.mp hr'
  have hlex := le_antisymm ((clusteringKey_le_iff h h').mp he.le)
    ((clusteringKey_le_iff h' h).mp he.ge)
  obtain ⟨ht, hk⟩ := Prod.mk.inj (toLex.injective hlex)
  have hkey : row.key = row'.key := by
    rw [RecordRow.key, RecordRow.key, of_decide_eq_true href, of_decide_eq_true href', ht, hk]
  have hrow : row = row' := Option.some.inj
    ((Table.find?_eq_some_iff.mpr ⟨hin, hkey⟩).symm.trans
      (Table.find?_eq_some_iff.mpr ⟨hin', rfl⟩))
  rw [hrow, h'] at h
  exact (Option.some.inj h).symm

/-- In aligned windows, the statement returns what the filters keep. -/
theorem readVia_of_aligned (hb : b.Canonical) (ha : Aligned b range after) (hs : Stores db b rs)
    (hh : IsHot db b) {archive : (q : ArchiveRequest) → q.Reply} :
    readVia env db archive b range after limit = .ok (selectArchived range after limit rs) := by
  obtain ⟨⟨rs', hrs', hperm⟩, hbound, hlen⟩ := hs
  obtain ⟨dec, hdec, rfl⟩ := exists_decoder hrs'
  rw [readVia_of_hot (readRange_hot hh hdec)]
  set rows := rowsOf db (refOf b) with hrows
  set sel : RecordRow → Bool := fun r => inSqlRange range r && afterSqlCursor after r with hsel
  set keep : Record → Bool := fun r =>
    decide (isAfter after r) && decide (range.contains r.eventTime)
    with hkeep
  -- the statement selects the rows whose records the filters keep
  have hfilter : (rows.filter sel).map dec = (rows.map dec).filter keep := by
    rw [List.filter_map]
    refine congrArg _ (List.filter_congr fun row hrow => ?_)
    have hd := hdec row hrow
    have hin := (mem_bucketWindow hb hd).mp
      (hbound _ (hperm.mem_iff.mpr (List.mem_map_of_mem hrow)))
    rw [Bool.eq_iff_iff, hsel, mem_sqlWindow, aligned_iff.mp ha _ _ hin, ← mem_exactWindow hd]
    simp [hkeep, and_comm]
  have hselect : selectArchived range after limit rs = (sortByKey (rs.filter keep)).take limit := by
    rw [selectArchived, List.filter_filter]
  have hsort : sortByKey (rs.filter keep) = sortByKey ((rows.map dec).filter keep) := by
    refine sortByKey_congr (hperm.filter _) fun a ha b hb he => ?_
    obtain ⟨x, hx, rfl⟩ := List.mem_map.mp (hperm.mem_iff.mp (List.mem_of_mem_filter ha))
    obtain ⟨y, hy, rfl⟩ := List.mem_map.mp (hperm.mem_iff.mp (List.mem_of_mem_filter hb))
    exact eq_of_clusteringKey hx hy (hdec x hx) (hdec y hy) he
  have hsub : ∀ row ∈ rows.filter sel, row.decode = some (dec row) :=
    fun row hrow => hdec row (List.mem_of_mem_filter hrow)
  rw [List.map_take, map_sortRows hsub, hfilter, hselect, hsort]
  -- the limit the statement is given is no less than the number of rows, or the limit itself
  have hle : (sortByKey ((rows.map dec).filter keep)).length < 2 ^ 63 := by
    rw [(sortByKey_perm _).length_eq]
    exact (List.length_filter_le _ _).trans_lt (hperm.length_eq ▸ hlen)
  rcases le_total limit (2 ^ 63 - 1) with hl | hl
  · rw [sqlLimit, min_eq_left hl]
  · rw [sqlLimit, min_eq_right hl, List.take_of_length_le (by omega),
      List.take_of_length_le (by omega)]

/-! ### Different tiers -/

/-- A database that stores one row, in a hot bucket. -/
def oneRow (b : BucketId) (hb : b.start.toSql < b.endAt.toSql) (row : RecordRow)
    (href : row.ref = refOf b) : Db where
  metadata :=
    { rows := [.new b]
      keys_nodup := List.nodup_singleton _
      checked := List.forall_mem_singleton.mpr
        ⟨hb, .inl ⟨rfl, rfl, rfl, rfl, rfl⟩, by simp [MetadataRow.new], by simp [MetadataRow.new]⟩ }
  records :=
    { rows := [row]
      keys_nodup := List.nodup_singleton _
      checked := fun _ _ => trivial }
  fk := List.forall_mem_singleton.mpr (by rw [href]; simp [Table.find?, refOf, MetadataRow.ref,
    MetadataRow.new])

/-- A database in which the bucket is archived and cleaned. -/
def archivedUnder (b : BucketId) (hb : b.start.toSql < b.endAt.toSql) (key : String) : Db where
  metadata :=
    { rows :=
        [{ MetadataRow.new b with
            state := .archived
            generation := 1
            archiveOwnerToken := some "owner"
            archiveObjectKey := some key
            hotDeleted := true }]
      keys_nodup := List.nodup_singleton _
      checked := List.forall_mem_singleton.mpr
        ⟨hb, .inr (.inr ⟨rfl, nofun, nofun⟩), by simp, by simp [MetadataRow.new]⟩ }
  records := .empty
  fk := fun _ h => absurd h List.not_mem_nil

/-- An archive store with one object. -/
def oneObject (rs : List Record) : (q : ArchiveRequest) → q.Reply
  | .getBucket .. => .ok rs
  | _ => .error (.other "read-only")

/-- The tiers, over a bucket that stores one given key. -/
theorem exists_tiers (hb : b.Canonical) (env : Env) (range : TimeRange) (after : Option Cursor)
    (hl : 1 ≤ limit) {m : ℤ} {k : SortKey}
    (hin : Window.Mem (Window.before b.start.toSql) b.endAt.toSql m k) :
    ∃ db db' key archive rs, Stores db b rs ∧ IsHot db b ∧ IsArchived db' b key ∧
      archive (.getBucket b key) = .ok rs ∧
      (readVia env db archive b range after limit = readVia env db' archive b range after limit →
        (Window.Mem (sqlLow range after) range.endAt.toSql m k ↔
          Window.Mem (exactLow range after) range.endAt.ceilSql m k)) := by
  obtain ⟨hs, he⟩ := hb.whole
  have hlt : b.start.toSql < b.endAt.toSql :=
    (DateTime.lt_iff_of_fromSql hs.fromSql_toSql he.fromSql_toSql).mp hb.bounds.2.2
  obtain ⟨t, ht⟩ := DateTime.exists_fromSql hs he (Window.before_lt_after.mp hin.1) hin.2.le
  let row : RecordRow := ⟨b.tableId, b.partitionKey, b.key, m, k, []⟩
  let r : Record := ⟨b.partitionKey, t, k, []⟩
  have hdec : row.decode = some r := by simp [row, r, RecordRow.decode, ht]
  have hrows : rowsOf (oneRow b hlt row rfl) (refOf b) = [row] := by
    simp [rowsOf, oneRow, row, RecordRow.ref, refOf]
  have hhot : IsHot (oneRow b hlt row rfl) b := by
    intro m' hm'
    obtain rfl := List.mem_singleton.mp (Table.find?_eq_some_iff.mp hm').1
    exact RowState.noConfusion
  have harch : IsArchived (archivedUnder b hlt "key") b "key" :=
    ⟨_, Table.find?_eq_some_iff.mpr ⟨List.mem_singleton_self _, rfl⟩, rfl, rfl⟩
  have hall : ∀ row' ∈ rowsOf (oneRow b hlt row rfl) (refOf b),
      row'.decode = some ((fun _ => r) row') := by
    rw [hrows]
    exact List.forall_mem_singleton.mpr hdec
  refine ⟨oneRow b hlt row rfl, archivedUnder b hlt "key", "key", oneObject [r], [r],
    ⟨⟨[r], by simp [hrows, hdec], .refl _⟩,
      List.forall_mem_singleton.mpr ((mem_bucketWindow hb hdec).mpr hin), by simp⟩,
    hhot, harch, rfl, fun h => ?_⟩
  rw [readVia_of_archive (readRange_archived harch) rfl, readVia_of_hot (readRange_hot hhot hall),
    hrows] at h
  -- each tier returns the one record, or nothing
  have hsql : ((sortRows ([row].filter fun r => inSqlRange range r && afterSqlCursor after r)).take
      (sqlLimit limit)).map (fun _ => r) ≠ [] ↔
        (inSqlRange range row && afterSqlCursor after row) = true := by
    have hlim : sqlLimit limit ≠ 0 := by unfold sqlLimit; omega
    by_cases hsel : (inSqlRange range row && afterSqlCursor after row) = true
    · simp [hsel, sortRows, hlim]
    · simp [hsel, sortRows]
  have hexact : selectArchived range after limit [r] ≠ [] ↔
      range.contains r.eventTime ∧ isAfter after r := by
    have hlim : limit ≠ 0 := by omega
    by_cases h₁ : range.contains r.eventTime <;> by_cases h₂ : isAfter after r <;>
      simp [selectArchived, sortByKey, h₁, h₂, hlim]
  rw [← mem_sqlWindow range after row, ← mem_exactWindow hdec, ← hsql, ← hexact, Except.ok.inj h]

/-- **Reads do not depend on the tier, exactly for aligned bounds.**  Over every set of rows that
the table stores for a bucket, `read_bucket` returns the same records from the hot rows and from an
archive object with the same records, if and only if the truncated parameters and the exact bounds
select the same window of the bucket. -/
theorem tier_blind_iff (hb : b.Canonical) (env : Env) (range : TimeRange) (after : Option Cursor)
    (hl : 1 ≤ limit) :
    (∀ (db db' : Db) (key : String) (archive : (q : ArchiveRequest) → q.Reply) (rs : List Record),
      Stores db b rs → IsHot db b → IsArchived db' b key → archive (.getBucket b key) = .ok rs →
      readVia env db archive b range after limit = readVia env db' archive b range after limit) ↔
    Aligned b range after := by
  constructor
  · intro h
    refine aligned_iff.mpr fun m k hin => ?_
    obtain ⟨db, db', key, archive, rs, hs, hh, ha, hget, himp⟩ :=
      exists_tiers hb env range after hl hin
    exact himp (h db db' key archive rs hs hh ha hget)
  · intro haligned db db' key archive rs hs hh ha hget
    rw [readVia_of_aligned hb haligned hs hh,
      readVia_of_archive (readRange_archived ha) hget]

namespace Sample

theorem bucket_canonical : Pulpitum.Sample.bucket.Canonical :=
  ⟨Pulpitum.Sample.record.eventTime, rfl⟩

/-- The year 2024. -/
def year : TimeRange := ⟨Pulpitum.Sample.bucket.start, Pulpitum.Sample.bucket.endAt⟩

/-- The year 2024 without its first 500 nanoseconds. -/
def lateYear : TimeRange where
  start :=
    { Pulpitum.Sample.bucket.start with
      frac := 500
      frac_lt := by decide
      leap_at := by decide }
  endAt := Pulpitum.Sample.bucket.endAt

end Sample

/-- Whole bounds are aligned, so a page of the year is the same from both tiers. -/
theorem tier_blind_iff_of_year :
    Pulpitum.Sample.bucket.Canonical ∧ Aligned Pulpitum.Sample.bucket Sample.year none ∧
    ∀ (db db' : Db) (key : String) (archive : (q : ArchiveRequest) → q.Reply) (rs : List Record),
      Stores db Pulpitum.Sample.bucket rs → IsHot db Pulpitum.Sample.bucket →
      IsArchived db' Pulpitum.Sample.bucket key →
      archive (.getBucket Pulpitum.Sample.bucket key) = .ok rs →
      readVia (Sample.env "a") db archive Pulpitum.Sample.bucket Sample.year none 1 =
        readVia (Sample.env "a") db' archive Pulpitum.Sample.bucket Sample.year none 1 :=
  ⟨Sample.bucket_canonical, by decide,
    (tier_blind_iff Sample.bucket_canonical (Sample.env "a") Sample.year none le_rfl).mpr
      (by decide)⟩

/-- A range that starts 500 nanoseconds after a stored record: the hot tier returns the record, the
archive does not. -/
theorem hot_read_starts_early :
    ∃ (db db' : Db) (key : String) (archive : (q : ArchiveRequest) → q.Reply) (rs : List Record),
      Stores db Pulpitum.Sample.bucket rs ∧ IsHot db Pulpitum.Sample.bucket ∧
      IsArchived db' Pulpitum.Sample.bucket key ∧
      archive (.getBucket Pulpitum.Sample.bucket key) = .ok rs ∧
      readVia (Sample.env "a") db archive Pulpitum.Sample.bucket Sample.lateYear none 1 ≠
        readVia (Sample.env "a") db' archive Pulpitum.Sample.bucket Sample.lateYear none 1 := by
  obtain ⟨db, db', key, archive, rs, hs, hh, ha, hget, himp⟩ :=
    exists_tiers Sample.bucket_canonical (Sample.env "a") Sample.lateYear none (le_refl 1)
      (m := Pulpitum.Sample.bucket.start.toSql) (k := [1]) (by decide)
  exact ⟨db, db', key, archive, rs, hs, hh, ha, hget, fun h => absurd (himp h) (by decide)⟩

end Cockroach
end Pulpitum
