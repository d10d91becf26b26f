import Mathlib
import Pulpitum.Adapters.InMemoryPaging
import Pulpitum.Integrations.RoutedScan

/-!
# Integrations — ScanDelivery

A SQL scan over a table to which records are appended and whose buckets are archived all the while.
The scan is one call of `query_page`, the first page of a client that pages through its query.

* `Scan.full_of_run`: a page that another follows is as long as the limit.
* `Scan.firstPage_of_run`: the first page holds the least of the records that were there before.
* `satisfied_iff_covers`: filters read with their SQL meaning select what the query covers.
* `scan_answers`: **a SQL scan answers its filters**: the rows that satisfy them, each once and in
  order, up to the limit, whichever tier their buckets are in.
-/

namespace Pulpitum

open Cutover (World)

namespace Scan

variable {S : Services} {R : Refinement S Coding.plain} {table : DurableTable} {query : Query}
  {buckets : List BucketId} {s₀ s : System S.State} {l : List Party} {scan : Scan}

/-! ### The first page -/

/-- No page is longer than the limit, and a page that another follows is as long. -/
structure Full (query : Query) (scan : Scan) : Prop where
  le : ∀ p ∈ scan.pages, p.length ≤ query.limit
  full : scan.stage ≠ .finished → ∀ p ∈ scan.pages, p.length = query.limit
  ended : scan.stage = .finished → scan.pages ≠ []

/-- Where no page arrives and the client is not done, nothing changes. -/
theorem Full.goes_on {scan' : Scan} (h : Full query scan) (hs : scan.stage ≠ .finished)
    (hs' : scan'.stage ≠ .finished) (hpages : scan'.pages = scan.pages) : Full query scan' :=
  ⟨hpages ▸ h.le, fun _ => hpages ▸ h.full hs, fun hdone => absurd hdone hs'⟩

theorem Full.turn {page : QueryPage} (h : Full query scan) (hs : scan.stage ≠ .finished)
    (hle : page.records.length ≤ query.limit)
    (hnext : page.next.isSome → page.records.length = query.limit) :
    Full query (scan.turn page) := by
  refine ⟨List.forall_mem_append.mpr ⟨h.le, List.forall_mem_singleton.mpr hle⟩, fun hstage => ?_,
    fun _ => List.append_ne_nil_of_right_ne_nil _ (List.cons_ne_nil _ _)⟩
  have hsome : page.next.isSome := by
    by_contra hnone
    exact hstage (if_neg hnone)
  exact List.forall_mem_append.mpr ⟨h.full hs, List.forall_mem_singleton.mpr (hnext hsome)⟩

/-- A page is cut off only at its limit. -/
theorem length_cutPage (limit : ℕ) (result : List Record) :
    (cutPage limit result).records.length ≤ limit ∧
      ((cutPage limit result).next.isSome → (cutPage limit result).records.length = limit) := by
  refine ⟨List.length_take_le .., fun hsome => ?_⟩
  by_cases hlong : limit < (sortByKey result).length
  · exact List.length_take_of_le hlong.le
  · rw [cutPage, if_neg hlong] at hsome
    cases hsome

/-- A page is returned without a read only for the limit zero. -/
theorem openPage_inl {page : QueryPage} (h : table.openPage query = some (.ok (.inl page))) :
    query.limit = 0 ∧ page = ⟨[], query.after⟩ := by
  unfold DurableTable.openPage at h
  split at h
  · cases h
  · split at h
    · cases h
      exact ⟨‹_›, rfl⟩
    · obtain ⟨bs, -, h⟩ := Option.bind_eq_some_iff.mp h
      cases h

theorem Full.call (h : Full query scan) (hs : scan.stage ≠ .finished) :
    Full query (scan.call table query) := by
  unfold Scan.call
  split
  · exact h.goes_on hs Stage.noConfusion rfl
  · exact h.goes_on hs Stage.noConfusion rfl
  · rename_i page hopen
    obtain ⟨hzero, rfl⟩ := openPage_inl hopen
    exact h.turn hs (Nat.zero_le _) fun _ => hzero.symm
  · exact h.goes_on hs Stage.noConfusion rfl

theorem Full.step {s s' : S.State} {scan' : Scan} (h : Full query scan)
    (hs : Step S table query s scan s' scan') : Full query scan' := by
  cases hs with
  | call => exact h.call Stage.noConfusion
  | serve | join | fail => exact h.goes_on Stage.noConfusion Stage.noConfusion rfl
  | finish =>
      obtain ⟨hle, hnext⟩ := length_cutPage query.limit _
      exact h.turn Stage.noConfusion hle hnext

theorem full_of_run {Good : BucketId → Prop}
    (h : Run (Move S Good table query) (s₀, .start) l (s, scan)) : Full query scan := by
  refine Run.rec_last (P := fun _ x => Full query x.2) ?_ ?_ h
  · exact ⟨List.forall_mem_nil _, fun _ => List.forall_mem_nil _, Stage.noConfusion⟩
  · rintro l x party x' - ih hmove
    cases hmove with
    | others => exact ih
    | client hs => exact ih.step hs

/-- A client that asks for no records is given one empty page. -/
theorem run_of_limit_zero {Good : BucketId → Prop} (hr : query.range.start < query.range.endAt)
    (hzero : query.limit = 0) (h : Run (Move S Good table query) (s₀, .start) l (s, scan)) :
    scan = .start ∧ l.count .client = 0 ∨ scan = ⟨[[]], none, .finished⟩ := by
  have hopen : table.openPage { query with after := none } = some (.ok (.inl ⟨[], none⟩)) := by
    unfold DurableTable.openPage
    rw [if_neg (not_le.mpr hr), if_pos hzero]
  refine Run.rec_last (P := fun l x => x.2 = .start ∧ l.count .client = 0 ∨
    x.2 = ⟨[[]], none, .finished⟩) (.inl ⟨rfl, rfl⟩) ?_ h
  rintro l ⟨s, scan⟩ party x' - ih hmove
  cases hmove with
  | others => exact ih.imp_left fun h => ⟨h.1, by simpa using h.2⟩
  | @client _ _ _ _ _ _ scan' hs =>
      rcases ih with ⟨rfl, -⟩ | rfl
      · cases hs
        refine .inr ?_
        simp only [Scan.call, hopen]
        rfl
      · cases hs

/-- What the first page holds, of what was there when it was asked for (`s₀`) and what is there now
(`s`). -/
structure FirstPage {σ : Type} (table : DurableTable) (query : Query) (s₀ s : System σ)
    (records : List Record) : Prop where
  increasing : records.Pairwise fun r r' => r.clusteringKey < r'.clusteringKey
  le : records.length ≤ query.limit
  returned : ∀ r ∈ records, query.range.contains r.eventTime ∧
    r.partitionKey = query.partitionKey ∧ ∃ a ∈ s.appenders, a.TookEffect ∧ a.record = r
  /-- What was left out comes after the page, and the page is full. -/
  complete : ∀ a ∈ s₀.appenders, a.TookEffect →
    table.definition.bucketFor a.record = some a.bucket →
    a.record.partitionKey = query.partitionKey → query.range.contains a.record.eventTime →
    a.record ∈ records ∨ records.length = query.limit ∧ query.limit < usizeMax ∧
      ∀ r ∈ records, r.clusteringKey < a.record.clusteringKey

/-- Everything wanted is in the pages of a client, or after them. -/
theorem Ok.wanted {base : BucketId → List Record} {w : World BucketId Record String}
    (hok : Ok False query buckets base w scan) {r : Record} (hr : Wanted query buckets base r) :
    r ∈ scan.out ∨
      scan.stage ≠ .finished ∧ ∀ r' ∈ scan.out, r'.clusteringKey < r.clusteringKey := by
  have hpages : PagesOk query buckets base scan.pages scan.after →
      r ∈ scan.out ∨ ∀ r' ∈ scan.out, r'.clusteringKey < r.clusteringKey := by
    intro h
    refine (h.scanned.complete r hr).imp_right fun hafter r' hr' => ?_
    obtain ⟨c, hc, hle⟩ := h.scanned.passed r' hr'
    exact hle.trans_lt (hafter c hc)
  have hstage := hok.stage
  obtain ⟨pages, after, stage⟩ := scan
  cases stage with
  | between => exact (hpages hstage).imp_right fun h => ⟨Stage.noConfusion, h⟩
  | reading => exact (hpages hstage.1).imp_right fun h => ⟨Stage.noConfusion, h⟩
  | finished => exact .inl (hstage.2.1 r hr)
  | failed => exact hstage.1.elim
  | panicked => exact hstage.elim

/-- **The first page of a run** of appends and archival that keeps keys fresh. -/
theorem firstPage_of_run {w₀ : World BucketId Record String} {records : List Record}
    (hR : R.ServesReads) (h₀ : Sound R s₀ w₀) (hr : query.range.start < query.range.endAt)
    (hlimit : query.limit ≤ usizeMax)
    (hb : table.definition.bucketsForRange query.partitionKey query.range = some buckets)
    (hrun : Run (Move S BucketId.Canonical table query) (s₀, .start) l (s, scan))
    (hf : Fresh table query s) (hpage : scan.pages = [records]) :
    FirstPage table query s₀ s records := by
  have hfull := full_of_run hrun
  have hmem : records ∈ scan.pages := hpage ▸ List.mem_singleton_self _
  obtain hzero | hl := Nat.eq_zero_or_pos query.limit
  · have hnil : records = [] := by
      obtain ⟨rfl, -⟩ | rfl := run_of_limit_zero hr hzero hrun
      · cases hpage
      · cases hpage
        rfl
    subst hnil
    exact ⟨.nil, Nat.zero_le _, List.forall_mem_nil _,
      fun _ _ _ _ _ _ => .inr ⟨hzero.symm, hzero ▸ by decide, List.forall_mem_nil _⟩⟩
  · obtain ⟨w, hsound, hok, -⟩ := ok_of_run hR h₀ hr hl hlimit hb hrun hf
    have hout : scan.out = records := by rw [out, hpage, List.flatten_singleton]
    refine ⟨hout ▸ hok.increasing, hfull.le records hmem, fun r hr => ?_,
      fun a ha heff hfile hpart hin => ?_⟩
    · obtain ⟨hin, b, hbmem, happ⟩ := hok.returned r (hout ▸ hr)
      obtain ⟨-, -, hpk, -⟩ := BucketId.forEventTimeWithStrategy_eq_some
        (TableDefinition.bucketForEventTime_of_mem hb hbmem)
      obtain ⟨a, ha, heff, -, hrec⟩ := mem_stored.mp ((hsound.applied b).mem_iff.mp happ)
      exact ⟨hin, (routed_of_sound hsound happ).1.trans hpk, a, ha, heff, hrec⟩
    · obtain ⟨b, hbmem, hroute⟩ := TableDefinition.mem_bucketsForRange hb hin
      rw [← hpart] at hroute
      obtain rfl : a.bucket = b := Option.some.inj (hfile.symm.trans hroute)
      have happ : a.record ∈ w₀.applied a.bucket :=
        (h₀.applied a.bucket).mem_iff.mpr (mem_stored.mpr ⟨a, ha, heff, rfl, rfl⟩)
      have hwanted : Wanted query buckets w₀.applied a.record := ⟨hin, a.bucket, hbmem, happ⟩
      have hnodup : records.Nodup := hout ▸ hok.increasing.imp fun hlt e => hlt.ne (congrArg _ e)
      refine (hout ▸ hok.wanted hwanted).imp_right fun h => ?_
      have hlen : records.length = query.limit := hfull.full h.1 records hmem
      refine ⟨hlen, ?_, h.2⟩
      -- the page and the record that was left out are different records, and they fit in memory
      have hleft : a.record ∉ records := fun hin' => (h.2 _ hin').false
      have hthere : ∀ x ∈ a.record :: records, ∃ b ∈ buckets, x ∈ w.applied b :=
        List.forall_mem_cons.mpr ⟨⟨a.bucket, hbmem, hok.kept a.bucket happ⟩,
          fun x hx => (hok.returned x (hout ▸ hx)).2⟩
      have hmore := length_le_appenders hsound (List.nodup_cons.mpr ⟨hleft, hnodup⟩) hthere
      rw [List.length_cons, hlen] at hmore
      exact hmore.trans hf.fits

/-- **A call of `query_page` returns**: it neither fails nor panics, and takes boundedly many
steps. -/
theorem returns_of_run {w₀ : World BucketId Record String} (hR : R.ServesReads)
    (h₀ : Sound R s₀ w₀) (hr : query.range.start < query.range.endAt)
    (hlimit : query.limit ≤ usizeMax)
    (hb : table.definition.bucketsForRange query.partitionKey query.range = some buckets)
    (hrun : Run (Move S BucketId.Canonical table query) (s₀, .start) l (s, scan))
    (hf : Fresh table query s) :
    (scan.stage ≠ .panicked ∧ ∀ e, scan.stage ≠ .failed e) ∧
      (scan.pages = [] → l.count .client ≤ 3 * buckets.length + 2 ∧
        ∃ x, Move S BucketId.Canonical table query (s, scan) .client x) := by
  obtain hzero | hl := Nat.eq_zero_or_pos query.limit
  · obtain ⟨rfl, hcount⟩ | rfl := run_of_limit_zero hr hzero hrun
    · exact ⟨⟨Stage.noConfusion, fun _ => Stage.noConfusion⟩,
        fun _ => ⟨by omega, _, .client .call⟩⟩
    · exact ⟨⟨Stage.noConfusion, fun _ => Stage.noConfusion⟩, fun hnil => by cases hnil⟩
  · obtain ⟨w, hsound, hok, hcount⟩ := ok_of_run hR h₀ hr hl hlimit hb hrun hf
    have hd := hok.delivers hR h₀ hsound hb hcount
    refine ⟨hd.served, fun hnil => ⟨?_, hd.progress fun hdone => ?_⟩⟩
    · have hopened : scan.opened ≤ 1 := by
        unfold opened
        rw [hnil]
        split <;> simp
      calc l.count .client ≤ scan.opened * (3 * buckets.length + 2) :=
            Nat.le_of_add_right_le hcount
        _ ≤ 1 * (3 * buckets.length + 2) := Nat.mul_le_mul_right _ hopened
        _ = 3 * buckets.length + 2 := Nat.one_mul _
    · exact (full_of_run hrun).ended hdone hnil

end Scan

namespace DataFusion
open DateTime (I64 fromTimestampNanos timestampNanosOpt)
open Text
open Arrow (RecordBatch pick chunks)

variable {τ : Type} {casts : τ → ScalarValue → Option ScalarValue} {table : DurableTable}
  {filters : List (Expr τ)} {r r' : Record} {row row' : TableRow}

/-! ### Filters and rows -/

/-- **Filters that are read with their SQL meaning select what the query covers.** -/
theorem satisfied_iff_covers {query : RoutedQuery}
    (hcol : table.definition.partitionKey ≠ "timestamp")
    (h : extractQuery table filters = .ok query)
    (hexact : ∀ f ∈ filters, f.Exact casts table.definition.partitionKey) (x : Row) :
    (∀ f ∈ filters, f.satisfied casts table.definition.partitionKey x = true) ↔ query.Covers x := by
  obtain ⟨⟨ks, text, lo, hi, htaken, hsel, rfl⟩, -⟩ := extractQuery_spec h
  rw [covers_range_iff, ← hsel.holds_iff]
  set col := table.definition.partitionKey
  set cs := filters.flatMap conjuncts with hcs
  have hsat : (∀ f ∈ filters, f.satisfied casts col x = true) ↔
      ∀ c ∈ cs, c.satisfied casts col x = true := by
    rw [hcs, List.forall_mem_flatMap]
    exact forall₂_congr fun f _ => satisfied_iff_conjuncts f
  -- each conjunct says of a row what it is taken for
  have heach : ∀ c ∈ cs, ∀ k, takenOf col c = some k →
      (c.satisfied casts col x = true ↔ k.Holds x) := by
    intro c hc k hk
    obtain ⟨f, hf, hcf⟩ := List.mem_flatMap.mp hc
    obtain ⟨m, hm, hagree⟩ := (exact_iff (isConjunct_of_mem f c hcf) hk).mp
      ((exact_iff_conjuncts f).mp (hexact f hf) c hcf)
    rw [satisfied_iff_meant hcol hk, hm]
    simp only [Option.mem_def, Option.some.injEq, exists_eq_left', holds_of_agrees hagree]
  rw [hsat]
  constructor
  · intro hall k hk
    have hmem : some k ∈ cs.map (takenOf col) := htaken ▸ List.mem_map_of_mem hk
    obtain ⟨c, hc, hck⟩ := List.mem_map.mp hmem
    exact (heach c hc k hck).mp (hall c hc)
  · intro hall c hc
    obtain ⟨k, hk⟩ := exists_taken htaken hc
    exact (heach c hc k hk).mpr (hall k (mem_of_taken htaken hc hk))

/-- The time of a row is that of its record, unless that is a leap second. -/
theorem fromTimestampNanos_row (h : tableRow r = some row) (hleap : ¬ r.eventTime.IsLeapSecond) :
    fromTimestampNanos row.timestamp = r.eventTime :=
  (DateTime.fromTimestampNanos_eq_iff (tableRow_eq_some_iff.mp h).2.1).mpr hleap

/-- Rows are in the order of their records. -/
theorem order_lt_iff (h : tableRow r = some row) (h' : tableRow r' = some row')
    (hleap : ¬ r.eventTime.IsLeapSecond) (hleap' : ¬ r'.eventTime.IsLeapSecond) :
    row.order < row'.order ↔ r.clusteringKey < r'.clusteringKey := by
  have ht := fromTimestampNanos_row h hleap
  have ht' := fromTimestampNanos_row h' hleap'
  have heq : row.timestamp.1 = row'.timestamp.1 ↔ r.eventTime = r'.eventTime := by
    rw [← ht, ← ht', le_antisymm_iff, le_antisymm_iff, DateTime.fromTimestampNanos_le_iff,
      DateTime.fromTimestampNanos_le_iff]
  simp only [TableRow.order, Record.clusteringKey, Prod.Lex.toLex_lt_toLex, heq,
    (tableRow_eq_some_iff.mp h).2.2.1, (tableRow_eq_some_iff.mp h').2.2.1]
  rw [← DateTime.fromTimestampNanos_lt_iff, ht, ht']

/-- What the query of a scan covers of the row of a record. -/
theorem covers_row_iff {partitionKey : PartitionKey} {start endAt : DateTime}
    (h : tableRow r = some row) (hleap : ¬ r.eventTime.IsLeapSecond) :
    RoutedQuery.Covers ⟨some partitionKey, some start, some endAt⟩ row.row ↔
      r.partitionKey = partitionKey ∧ TimeRange.contains ⟨start, endAt⟩ r.eventTime := by
  have ht := fromTimestampNanos_row h hleap
  simp only [RoutedQuery.Covers, TableRow.row, Option.mem_def, Option.some.injEq, exists_eq_left',
    ht, ← (tableRow_eq_some_iff.mp h).1, TimeRange.contains]
  exact and_congr_left' eq_comm

/-- A record that has its text and lies between two 64-bit timestamps is a row. -/
theorem exists_tableRow {text id : String} {lo hi : I64} (hp : r.partitionKey = utf8 text)
    (hs : r.sortKey = utf8 id) (hleap : ¬ r.eventTime.IsLeapSecond)
    (hin : TimeRange.contains ⟨fromTimestampNanos lo, fromTimestampNanos hi⟩ r.eventTime) :
    ∃ row, tableRow r = some row := by
  obtain ⟨hlo, hleaplo⟩ := DateTime.ofNanos_eq_some (DateTime.ofNanos_i64 lo)
  obtain ⟨hhi, hleaphi⟩ := DateTime.ofNanos_eq_some (DateTime.ofNanos_i64 hi)
  have h₁ : lo.1 ≤ r.eventTime.nanos := by
    rw [← hlo, ← not_lt, DateTime.nanos_lt_iff hleap hleaplo, not_lt]
    exact hin.1
  have h₂ : r.eventTime.nanos < hi.1 := by
    rw [← hhi, DateTime.nanos_lt_iff hleap hleaphi]
    exact hin.2
  have hrange : -2 ^ 63 ≤ r.eventTime.nanos ∧ r.eventTime.nanos < 2 ^ 63 :=
    ⟨lo.2.1.trans h₁, h₂.trans hi.2.2⟩
  exact ⟨⟨text, ⟨r.eventTime.nanos, hrange⟩, id, r.value⟩,
    tableRow_eq_some_iff.mpr ⟨hp, dif_pos hrange, hs, rfl⟩⟩

/-! ### Plans -/

/-- What a plan says about the filters it was made of. -/
theorem scan_eq_ok {projection : Option (List ℕ)} {limit : Option ℕ} {exec : RoutedScanExec}
    (h : scan table projection filters limit = .ok exec) :
    ∃ query, extractQuery table filters = .ok query ∧
      (∀ i ∈ exec.projection, i < (tableSchema table).length) ∧
      exec = ⟨table, tableSchema table, pick exec.projection (tableSchema table), exec.projection,
        query, limit⟩ := by
  obtain ⟨query, hquery, h⟩ := Fallible.ok_of_bind h
  rw [Fallible.mapError_eq_ok] at hquery
  refine ⟨query, hquery, ?_⟩
  dsimp only at h
  split at h
  · cases h
  · rename_i outputSchema hout
    cases h
    obtain ⟨hproj, hpick⟩ := Option.ite_none_right_eq_some.mp hout
    cases hpick
    exact ⟨hproj, rfl⟩

/-- Every 64-bit timestamp is before the last buckets. -/
theorem fromTimestampNanos_le_horizon (d : TableDefinition) (n : I64) :
    fromTimestampNanos n ≤ d.horizon := by
  obtain ⟨hn, -⟩ := DateTime.ofNanos_eq_some (DateTime.ofNanos_i64 n)
  have hbound := n.2.2
  have hday : 839693 ≤ d.bucketStrategy.horizon.dayNumber := by
    cases d.bucketStrategy <;> decide
  refine (DateTime.lt_midnight.mpr ?_).le
  rw [← Calendar.Date.dayNumber_lt_iff, DateTime.dayNumber_eq]
  have hfrac := (fromTimestampNanos n).frac_lt
  unfold DateTime.nanos at hn
  unfold DateTime.unixDay
  omega

/-! ### Whole scans -/

/-- The record can be returned by a scan as it is: its time is no leap second, its sort key is a
text, and neither its keys nor its value have two mebibytes. -/
structure Tabular (r : Record) : Prop where
  not_leap : ¬ r.eventTime.IsLeapSecond
  text : ∃ id, r.sortKey = utf8 id
  short : r.partitionKey.length < 2 ^ 21 ∧ r.sortKey.length < 2 ^ 21 ∧ r.value.length < 2 ^ 21

theorem batchFits_of_tabular {records c : List Record} (h : ∀ r ∈ records, Tabular r)
    (hc : c ∈ chunks batchSize records) : BatchFits c := by
  have hlen := (Arrow.length_of_mem_chunks (by decide) hc).2
  have hall : ∀ f : Record → List Byte, (∀ r, Tabular r → (f r).length < 2 ^ 21) →
      Arrow.Counts (c.map f) := by
    intro f hf
    refine Arrow.counts_of_length_le (m := 2 ^ 21 - 1) (n := batchSize) ?_ ?_ (by decide)
    · rwa [List.length_map]
    · intro v hv
      obtain ⟨r, hr, rfl⟩ := List.mem_map.mp hv
      exact Nat.le_sub_one_of_lt (hf r (h r (Arrow.mem_of_mem_chunks hc r hr)))
  exact ⟨hall _ fun r hr => hr.short.1, hall _ fun r hr => hr.short.2.1,
    hall _ fun r hr => hr.short.2.2⟩

/-- The rows answer the filters, of what was there when the scan began (`s₀`) and what is there
now (`s`). -/
structure Answers {σ : Type} (casts : τ → ScalarValue → Option ScalarValue) (table : DurableTable)
    (filters : List (Expr τ)) (limit : Option ℕ) (s₀ s : System σ) (rows : List TableRow) :
    Prop where
  /-- The rows satisfy the filters, and were appended. -/
  sound : ∀ row ∈ rows,
    (∀ f ∈ filters, f.satisfied casts table.definition.partitionKey row.row = true) ∧
      ∃ a ∈ s.appenders, a.TookEffect ∧ tableRow a.record = some row
  increasing : rows.Pairwise fun row row' => row.order < row'.order
  limited : ∀ n ∈ limit, rows.length ≤ n
  /-- A row that satisfies the filters and was there before is returned, or comes after the
  limit. -/
  complete : ∀ a ∈ s₀.appenders, a.TookEffect →
    table.definition.bucketFor a.record = some a.bucket → ∀ row, tableRow a.record = some row →
    (∀ f ∈ filters, f.satisfied casts table.definition.partitionKey row.row = true) →
    row ∈ rows ∨ rows.length ∈ limit ∧ ∀ row' ∈ rows, row'.order < row.order

section Answer

variable {σ : Type} {s₀ s : System σ} {records : List Record} {limit : Option ℕ} {text : String}
  {lo hi : I64}

/-- **The first page of the query of a plan answers the filters.** -/
theorem answers_of_firstPage (hcol : table.definition.partitionKey ≠ "timestamp")
    (hquery : extractQuery table filters =
      .ok ⟨some (utf8 text), some (fromTimestampNanos lo), some (fromTimestampNanos hi)⟩)
    (hexact : ∀ f ∈ filters, f.Exact casts table.definition.partitionKey)
    (h : Scan.FirstPage table ⟨utf8 text, ⟨fromTimestampNanos lo, fromTimestampNanos hi⟩, none,
      limit.getD usizeMax⟩ s₀ s records)
    (htab₀ : ∀ a ∈ s₀.appenders, a.TookEffect → Tabular a.record)
    (htab : ∀ a ∈ s.appenders, a.TookEffect → Tabular a.record) :
    (∀ r ∈ records, Tabular r) ∧
    ∃ rows, List.Forall₂ (fun r row => tableRow r = some row) records rows ∧
      Answers casts table filters limit s₀ s rows := by
  have hsat := satisfied_iff_covers hcol hquery hexact
  have htabular : ∀ r ∈ records, Tabular r := by
    intro r hr
    obtain ⟨-, -, a, ha, heff, rfl⟩ := h.returned r hr
    exact htab a ha heff
  have hrow : ∀ r ∈ records, ∃ row, tableRow r = some row := by
    intro r hr
    obtain ⟨hin, hpart, -⟩ := h.returned r hr
    obtain ⟨id, hid⟩ := (htabular r hr).text
    exact exists_tableRow hpart hid (htabular r hr).not_leap hin
  obtain ⟨rows, hrows⟩ := Fallible.exists_forall₂ hrow
  have hlen : records.length = rows.length := hrows.length_eq
  refine ⟨htabular, rows, hrows, ?_, ?_, fun n hn => ?_, fun a ha heff hfile row har hfilters => ?_⟩
  · intro row hmem
    rw [← Fallible.filterMap_of_forall₂ hrows] at hmem
    obtain ⟨r, hr, hrr⟩ := List.mem_filterMap.mp hmem
    obtain ⟨hin, hpart, a, ha, heff, rfl⟩ := h.returned r hr
    exact ⟨(hsat _).mpr ((covers_row_iff hrr (htab a ha heff).not_leap).mpr ⟨hpart, hin⟩),
      a, ha, heff, hrr⟩
  · rw [← Fallible.filterMap_of_forall₂ hrows, List.pairwise_filterMap]
    refine (List.Pairwise.and_mem.mp h.increasing).imp ?_
    rintro r r' ⟨hr, hr', hlt⟩ row hrr row' hrr'
    exact (order_lt_iff hrr hrr' (htabular r hr).not_leap (htabular r' hr').not_leap).mpr hlt
  · cases hn
    exact hlen ▸ h.le
  · have hleap := (htab₀ a ha heff).not_leap
    obtain ⟨hpart, hin⟩ := (covers_row_iff har hleap).mp ((hsat _).mp hfilters)
    rw [← Fallible.filterMap_of_forall₂ hrows]
    rcases h.complete a ha heff hfile hpart hin with hmem | ⟨hfull, hlt, hafter⟩
    · exact .inl (List.mem_filterMap.mpr ⟨_, hmem, har⟩)
    · refine .inr ⟨?_, fun row' hmem => ?_⟩
      · -- a scan without a limit leaves nothing out
        rw [Fallible.filterMap_of_forall₂ hrows, ← hlen]
        cases limit with
        | none => exact absurd hlt (lt_irrefl _)
        | some n => exact congrArg some hfull.symm
      · obtain ⟨r, hr, hrr⟩ := List.mem_filterMap.mp hmem
        exact (order_lt_iff hrr har (htabular r hr).not_leap hleap).mpr (hafter r hr)

end Answer

end DataFusion

namespace InMemory
open DataFusion Text
open Arrow (RecordBatch pick)

variable {τ : Type} {casts : τ → ScalarValue → Option ScalarValue} {table : DurableTable}
  {filters : List (Expr τ)}

/-- **A SQL scan answers its filters.**  Take a plan whose filters are read with their SQL meaning,
any state of the in-memory stores that appends and archival can reach, and any run that goes on from
it with fresh keys and records that a scan can return as they are.  Then the scan neither fails nor
panics and returns its page after boundedly many steps; its batches have the projected schema, and
list the rows that satisfy the filters and were there before, each once, in the order of timestamp
and `id`, up to the limit, with no row that does not satisfy them or was not appended. -/
theorem scan_answers {arrow : Arrow.Library} (harrow : arrow.Lawful)
    {projection : Option (List ℕ)} {limit : Option ℕ} {exec : RoutedScanExec}
    {s₀ : System services.State} (hcol : table.definition.partitionKey ≠ "timestamp")
    (hscan : DataFusion.scan table projection filters limit = .ok exec)
    (hexact : ∀ f ∈ filters, f.Exact casts table.definition.partitionKey)
    (hlimit : ∀ n ∈ limit, n ≤ usizeMax)
    (hreach : System.Reaches services BucketId.Canonical (.init (∅, fun _ => none)) s₀)
    (htab₀ : ∀ a ∈ s₀.appenders, a.TookEffect → Tabular a.record) :
    ∃ query buckets, exec.execute 0 = .ok query ∧
      table.definition.bucketsForRange query.partitionKey query.range = some buckets ∧
      ∀ {l : List Scan.Party} {s : System services.State} {scan : Scan},
        Run (Scan.Move services BucketId.Canonical exec.table query) (s₀, .start) l (s, scan) →
        Scan.Fresh table query s → (∀ a ∈ s.appenders, a.TookEffect → Tabular a.record) →
        (scan.stage ≠ .panicked ∧ ∀ e, scan.stage ≠ .failed e) ∧
        (scan.pages = [] → l.count .client ≤ 3 * buckets.length + 2 ∧
          ∃ x, Scan.Move services BucketId.Canonical exec.table query (s, scan) .client x) ∧
        ∀ records next, scan.pages = [records] → ∃ batches rows,
          exec.batches arrow (.ok ⟨records, next⟩) = pure batches ∧
          (∀ b ∈ batches, b.schema = exec.outputSchema) ∧
          batches.flatMap RecordBatch.rows =
            rows.map (fun row => pick exec.projection row.cells) ∧
          Answers casts table filters limit s₀ s rows := by
  obtain ⟨_, hquery, hproj, hexec⟩ := scan_eq_ok hscan
  obtain ⟨⟨ks, text, lo, hi, htaken, hsel, rfl⟩, -⟩ := extractQuery_spec hquery
  have hr : DateTime.fromTimestampNanos lo < DateTime.fromTimestampNanos hi :=
    DateTime.fromTimestampNanos_lt_iff.mpr hsel.lt
  have hmax : limit.getD usizeMax ≤ usizeMax := by
    cases limit with
    | none => exact le_rfl
    | some n => exact hlimit n rfl
  -- the range is routed, since it ends before the horizon
  have hrouted : (table.definition.bucketsForRange (utf8 text)
      ⟨DateTime.fromTimestampNanos lo, DateTime.fromTimestampNanos hi⟩).isSome :=
    (TableDefinition.bucketsForRange_isSome_iff hr).mpr
      (fromTimestampNanos_le_horizon table.definition hi)
  obtain ⟨buckets, hb⟩ := Option.isSome_iff_exists.mp hrouted
  obtain ⟨w₀, h₀⟩ := sound_of_reaches hreach
  have htable : exec.table = table := by rw [hexec]
  refine ⟨⟨utf8 text, ⟨DateTime.fromTimestampNanos lo, DateTime.fromTimestampNanos hi⟩, none,
    limit.getD usizeMax⟩, buckets, by rw [hexec]; rfl, hb, fun {l s scan} hrun hf htab => ?_⟩
  rw [htable] at hrun ⊢
  obtain ⟨hserved, hreturns⟩ := Scan.returns_of_run servesReads h₀ hr hmax hb hrun hf
  refine ⟨hserved, hreturns, fun records next hpage => ?_⟩
  have hfirst := Scan.firstPage_of_run servesReads h₀ hr hmax hb hrun hf hpage
  obtain ⟨htabular, rows, hrows, hanswers⟩ :=
    answers_of_firstPage hcol hquery hexact hfirst htab₀ htab
  obtain ⟨batches, hok⟩ := recordBatches_of_rows harrow
    (fun c hc => batchFits_of_tabular htabular hc) (Fallible.exists_of_forall₂ hrows) hproj
  obtain ⟨⟨rows', hrows', hcells⟩, hschema, -⟩ := rows_of_recordBatches harrow hproj hok
  obtain rfl : rows' = rows := by
    rw [← Fallible.filterMap_of_forall₂ hrows', Fallible.filterMap_of_forall₂ hrows]
  refine ⟨batches, rows', ?_, ?_, hcells, hanswers⟩
  · rw [hexec]
    exact hok
  · rw [hexec]
    exact hschema

namespace Sample
open DataFusion.Sample (instant)

/-- `partition_key = '\x07'`, `timestamp >= 2024-01-01` and `timestamp < 2025-01-01`. -/
def yearFilters : List (Expr Unit) :=
  [.binary .eq (.column "partition_key") (.literal (.utf8 (some "\x07"))),
    .binary .gtEq (.column "timestamp") (instant ⟨1704067200000000000, by decide⟩),
    .binary .lt (.column "timestamp") (instant ⟨1735689600000000000, by decide⟩)]

theorem yearFilters_exact :
    ∀ f ∈ yearFilters, f.Exact (fun _ v => some v)
      Pulpitum.Sample.table.definition.partitionKey := by
  simp only [yearFilters, List.forall_mem_cons]
  refine ⟨?_, ?_, ?_, List.forall_mem_nil _⟩
  all_goals
    intro c hc k hk
    cases hc
    cases hk
    exact ⟨_, rfl, rfl⟩

theorem tabular_record : Tabular Pulpitum.Sample.record :=
  ⟨by decide, ⟨"\x01", rfl⟩, by decide⟩

theorem tabular_nextRecord : Tabular Pulpitum.Sample.nextRecord :=
  ⟨by decide, ⟨"\x01", rfl⟩, by decide⟩

end Sample

/-- The filters of a year over two acknowledged records, the first of which is archived. -/
theorem scan_answers_of_cutover : ∃ exec query, ∃ s₀ : System services.State,
    System.Reaches services BucketId.Canonical (.init (∅, fun _ => none)) s₀ ∧
    DataFusion.scan Pulpitum.Sample.table (some [2, 3]) Sample.yearFilters none = .ok exec ∧
    exec.execute 0 = .ok query ∧
    (∃ t ∈ s₀.workers, ∃ o, t.phase = .finished (.archived (.ok o))) ∧
    s₀.appenders.map Appender.bucket = [Pulpitum.Sample.nextBucket, Pulpitum.Sample.bucket] ∧
    ∀ {l : List Scan.Party} {s : System services.State} {scan : Scan},
      Run (Scan.Move services BucketId.Canonical exec.table query) (s₀, .start) l (s, scan) →
      Scan.Fresh Pulpitum.Sample.table query s →
      (∀ a ∈ s.appenders, a.TookEffect → Tabular a.record) →
      ∀ records next, scan.pages = [records] → ∃ batches rows,
        exec.batches .reference (.ok ⟨records, next⟩) = pure batches ∧
        batches.flatMap RecordBatch.rows = rows.map (fun row => pick exec.projection row.cells) ∧
        Answers (fun _ v => some v) Pulpitum.Sample.table Sample.yearFilters none s₀ s rows := by
  obtain ⟨t, ht, hrun⟩ := Sample.reaches_archived
  have hreach := hrun.trans (System.reaches_append Pulpitum.Sample.routes_nextRecord
    (Sample.serve_answer _ _))
  obtain ⟨exec, hscan⟩ : ∃ exec,
      DataFusion.scan Pulpitum.Sample.table (some [2, 3]) Sample.yearFilters none = .ok exec :=
    ⟨_, rfl⟩
  obtain ⟨query, buckets, hquery, -, hall⟩ := scan_answers Arrow.Library.reference_lawful
    (by decide) hscan Sample.yearFilters_exact (by simp) hreach
    (List.forall_mem_cons.mpr ⟨fun _ => Sample.tabular_nextRecord,
      List.forall_mem_singleton.mpr fun _ => Sample.tabular_record⟩)
  refine ⟨exec, query, _, hreach, hscan, hquery, ⟨t, List.mem_cons_self .., ht⟩, rfl,
    fun hrun hf htab records next hpage => ?_⟩
  obtain ⟨batches, rows, hok, -, hcells, hanswers⟩ := (hall hrun hf htab).2.2 records next hpage
  exact ⟨batches, rows, hok, hcells, hanswers⟩

end InMemory

end Pulpitum
