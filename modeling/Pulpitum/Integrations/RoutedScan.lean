import Mathlib
import Pulpitum.Support.Arrow
import Pulpitum.Integrations.DataFusion

/-!
# Integrations — RoutedScan

`PulpitumTableProvider::scan`, the plan node it makes and the Arrow batches that node returns.
The records of one `query_page` are encoded in batches of 1024; a key that is no text or a time
outside 64-bit nanoseconds fails the scan, and a batch with more than `i32::MAX` bytes in a column
panics.

* `recordBatch_of_rows`, `recordBatch_inv`: one batch.
* `recordBatches_exact`: **the batches are the records**, in order and row by row, and exactly the
  records that are rows of the table are encoded.
-/

namespace Pulpitum.DataFusion
open DateTime (I64 timestampNanosOpt)
open Text Fallible
open Arrow (Schema Field Column RecordBatch Cell Counts pick chunks)
open Utf8 (fromUtf8 fromUtf8_eq_some_iff)

/-- `DataFusionError`. -/
inductive DataFusionError where
  | plan (e : PlanError)
  | execution (message : String)
  | internal (message : String)

/-- `BATCH_SIZE`. -/
def batchSize : ℕ := 1024

/-- The schema of `PulpitumTableProvider::new`. -/
def tableSchema (table : DurableTable) : Schema :=
  [⟨table.definition.partitionKey, .utf8, false⟩,
    ⟨"timestamp", .timestamp .nanosecond (some "UTC"), false⟩,
    ⟨"id", .utf8, false⟩,
    ⟨"value", .binary, false⟩]

/-- `RoutedScanExec`. -/
structure RoutedScanExec where
  table : DurableTable
  sourceSchema : Schema
  outputSchema : Schema
  projection : List ℕ
  query : RoutedQuery
  limit : Option ℕ

variable {τ : Type}

/-- `scan`. -/
def scan (table : DurableTable) (projection : Option (List ℕ)) (filters : List (Expr τ))
    (limit : Option ℕ) : Except DataFusionError RoutedScanExec := do
  let query ← (extractQuery table filters).mapError fun e => .plan (planningError e)
  let projection := projection.getD (List.range (tableSchema table).length)
  match (tableSchema table).project projection with
  | none => .error (.plan ⟨"DataFusion scan has an invalid projection"⟩)
  | some outputSchema => .ok ⟨table, tableSchema table, outputSchema, projection, query, limit⟩

/-- The part of `execute` before `query_page` is called. -/
def RoutedScanExec.execute (exec : RoutedScanExec) (partition : ℕ) :
    Except DataFusionError Query :=
  if partition ≠ 0 then .error (.execution "Pulpitum routed scan partition is unavailable")
  else
    match exec.query.partitionKey, exec.query.start, exec.query.endAt with
    | some partitionKey, some start, some endAt =>
        .ok ⟨partitionKey, ⟨start, endAt⟩, none, exec.limit.getD usizeMax⟩
    | _, _, _ => .error (.internal "Pulpitum routed scan was not validated")

/-! ### Batches -/

section

variable (arrow : Arrow.Library)

/-- The part of `record_batches` for one chunk. -/
def recordBatch (sourceSchema : Schema) (projection : List ℕ) (records : List Record) :
    Attempt DataFusionError RecordBatch := do
  let partitionKeys ← .orFail
    (.execution "Pulpitum partition key is not valid UTF-8 for the SQL adapter")
    (records.mapM fun r => fromUtf8 r.partitionKey)
  let partitionKey ← .orPanic (arrow.stringArray partitionKeys)
  let timestamps ← .orFail (.execution "Pulpitum timestamp is outside Arrow nanosecond range")
    (records.mapM fun r => timestampNanosOpt r.eventTime)
  let timestamp := arrow.timestampNanosecondArray timestamps "UTC"
  let sortKeys ← .orFail (.execution "Pulpitum sort key is not valid UTF-8 for the SQL adapter")
    (records.mapM fun r => fromUtf8 r.sortKey)
  let id ← .orPanic (arrow.stringArray sortKeys)
  let value ← .orPanic (arrow.binaryArray (records.map Record.value))
  .orFail (.execution "Pulpitum could not build an Arrow batch")
    ((arrow.tryNew sourceSchema [partitionKey, timestamp, id, value]).bind fun batch =>
      arrow.project batch projection)

/-- `record_batches`. -/
def recordBatches (records : List Record) (sourceSchema : Schema) (projection : List ℕ) :
    Attempt DataFusionError (List RecordBatch) :=
  (chunks batchSize records).mapM (recordBatch arrow sourceSchema projection)

/-- The part of `execute` after `query_page` has returned. -/
def RoutedScanExec.batches (exec : RoutedScanExec) :
    Except DurableTableError QueryPage → Attempt DataFusionError (List RecordBatch)
  | .error _ => throw (.execution "Pulpitum routed read failed")
  | .ok page => recordBatches arrow page.records exec.sourceSchema exec.projection

end

/-! ### Rows -/

/-- A row of the table, by its columns. -/
structure TableRow where
  partitionText : String
  timestamp : I64
  id : String
  value : List Byte
deriving DecidableEq

namespace TableRow

/-- What filters are about. -/
def row (r : TableRow) : Row := ⟨r.partitionText, r.timestamp⟩

/-- The columns of the schema, as functions of the row. -/
def columns : List (TableRow → Option Cell) :=
  [fun r => some (.text r.partitionText), fun r => some (.nanos r.timestamp),
    fun r => some (.text r.id), fun r => some (.bytes r.value)]

/-- The values of a row, one for each column. -/
def cells (r : TableRow) : List (Option Cell) := columns.map (· r)

/-- What `ORDER BY timestamp ASC, id ASC` orders by. -/
def order (r : TableRow) : ℤ ×ₗ List Byte := toLex (r.timestamp.1, utf8 r.id)

end TableRow

/-- The row of a record, if it is one. -/
def tableRow (r : Record) : Option TableRow := do
  let partitionText ← fromUtf8 r.partitionKey
  let timestamp ← timestampNanosOpt r.eventTime
  let id ← fromUtf8 r.sortKey
  return ⟨partitionText, timestamp, id, r.value⟩

theorem tableRow_eq_some_iff {r : Record} {row : TableRow} :
    tableRow r = some row ↔ r.partitionKey = utf8 row.partitionText ∧
      timestampNanosOpt r.eventTime = some row.timestamp ∧ r.sortKey = utf8 row.id ∧
      r.value = row.value := by
  simp only [tableRow, Option.bind_eq_bind, Option.bind_eq_some_iff, fromUtf8_eq_some_iff,
    Option.pure_def, Option.some.injEq]
  constructor
  · rintro ⟨text, hp, n, ht, id, hs, rfl⟩
    exact ⟨hp, ht, hs, rfl⟩
  · rintro ⟨hp, ht, hs, hv⟩
    obtain ⟨text, n, id, value⟩ := row
    exact ⟨text, hp, n, ht, id, hs, by rw [hv]⟩

/-- The offsets of a batch count the bytes of each of its columns. -/
def BatchFits (records : List Record) : Prop :=
  Counts (records.map Record.partitionKey) ∧ Counts (records.map Record.sortKey) ∧
    Counts (records.map Record.value)

section Batch

variable {arrow : Arrow.Library} {table : DurableTable} {projection : List ℕ}
  {records : List Record} {rows : List TableRow} {batch : RecordBatch}

/-- A column read from records that are rows. -/
theorem mapM_of_rows {α : Type} {f : Record → Option α} {g : TableRow → α}
    (h : List.Forall₂ (fun r row => tableRow r = some row) records rows)
    (hfg : ∀ r row, tableRow r = some row → f r = some (g row)) :
    records.mapM f = some (rows.map g) :=
  mapM_eq_some_iff.mpr (List.forall₂_map_right_iff.mpr (h.imp hfg))

theorem map_of_rows {α : Type} {f : Record → α} {g : TableRow → α}
    (h : List.Forall₂ (fun r row => tableRow r = some row) records rows)
    (hfg : ∀ r row, tableRow r = some row → f r = g row) : records.map f = rows.map g := by
  refine List.forall₂_eq_eq_eq ▸ ?_
  exact List.forall₂_map_left_iff.mpr (List.forall₂_map_right_iff.mpr (h.imp hfg))

/-- The columns of the rows fit the schema of the table. -/
theorem fits_tableSchema (harrow : arrow.Lawful) (table : DurableTable)
    {partitionKey id value : Column}
    (hp : arrow.stringArray (rows.map TableRow.partitionText) = some partitionKey)
    (hi : arrow.stringArray (rows.map TableRow.id) = some id)
    (hv : arrow.binaryArray (rows.map TableRow.value) = some value) :
    List.Forall₂ (Arrow.Fits rows.length) (tableSchema table)
      [partitionKey, arrow.timestampNanosecondArray (rows.map TableRow.timestamp) "UTC", id,
        value] ∧
    [partitionKey, arrow.timestampNanosecondArray (rows.map TableRow.timestamp) "UTC", id,
      value].map Column.values = TableRow.columns.map fun f => rows.map f := by
  obtain ⟨-, rfl⟩ := harrow.stringArray.mp hp
  obtain ⟨-, rfl⟩ := harrow.stringArray.mp hi
  obtain ⟨-, rfl⟩ := harrow.binaryArray.mp hv
  rw [harrow.timestampNanosecondArray]
  constructor
  · simp [tableSchema, Arrow.Fits, Column.ofCells]
  · simp [TableRow.columns, Column.ofCells, Function.comp_def]

/-- **One batch**: records that are rows are encoded as these rows. -/
theorem recordBatch_of_rows (harrow : arrow.Lawful)
    (h : List.Forall₂ (fun r row => tableRow r = some row) records rows)
    (hfits : BatchFits records) (hproj : ∀ i ∈ projection, i < (tableSchema table).length) :
    ∃ batch, recordBatch arrow (tableSchema table) projection records = pure batch ∧
      batch.schema = pick projection (tableSchema table) ∧
      batch.rows = rows.map fun row => pick projection row.cells := by
  have hkeys : records.map Record.partitionKey = (rows.map TableRow.partitionText).map utf8 := by
    rw [List.map_map]
    exact map_of_rows h fun r row hr => (tableRow_eq_some_iff.mp hr).1
  have hids : records.map Record.sortKey = (rows.map TableRow.id).map utf8 := by
    rw [List.map_map]
    exact map_of_rows h fun r row hr => (tableRow_eq_some_iff.mp hr).2.2.1
  have hvalues : records.map Record.value = rows.map TableRow.value :=
    map_of_rows h fun r row hr => (tableRow_eq_some_iff.mp hr).2.2.2
  obtain ⟨hp, hs, hv⟩ := hfits
  rw [hkeys] at hp
  rw [hids] at hs
  rw [hvalues] at hv
  have hkey := harrow.stringArray.mpr ⟨hp, rfl⟩
  have hid := harrow.stringArray.mpr ⟨hs, rfl⟩
  have hvalue := harrow.binaryArray.mpr ⟨hv, rfl⟩
  obtain ⟨hfit, hcols⟩ := fits_tableSchema harrow table hkey hid hvalue
  obtain ⟨whole, hnew, hwhole, hcolumns, hn⟩ := harrow.tryNew (List.cons_ne_nil _ _) hfit
  have hlen : (tableSchema table).length = whole.columns.length := by
    rw [← hwhole, RecordBatch.schema, List.length_map]
  rw [hlen] at hproj
  obtain ⟨batch, hproject, hschema, hrows⟩ := harrow.project hproj
  refine ⟨batch, ?_, ?_, ?_⟩
  · simp only [recordBatch, Attempt.bind_eq_pure_iff, Attempt.orFail_eq_pure_iff,
      Attempt.orPanic_eq_pure_iff, hvalues]
    refine ⟨_, mapM_of_rows (g := TableRow.partitionText) h ?_, _, hkey,
      _, mapM_of_rows (g := TableRow.timestamp) h ?_,
      _, mapM_of_rows (g := TableRow.id) h ?_, _, hid, _, hvalue, ?_⟩
    · exact fun r row hr => fromUtf8_eq_some_iff.mpr (tableRow_eq_some_iff.mp hr).1
    · exact fun r row hr => (tableRow_eq_some_iff.mp hr).2.1
    · exact fun r row hr => fromUtf8_eq_some_iff.mpr (tableRow_eq_some_iff.mp hr).2.2.1
    · rw [hnew]
      exact hproject
  · rw [hschema, hwhole]
  · rw [← hcolumns] at hcols
    rw [hrows, RecordBatch.rows_of_columns hn hcols, List.map_map]
    rfl

/-- A chunk whose columns were read has rows only, and fits. -/
theorem rows_of_arrays (harrow : arrow.Lawful) {texts ids : List String} {nanos : List I64}
    {partitionKey id value : Column}
    (hp : records.mapM (fun r => fromUtf8 r.partitionKey) = some texts)
    (hpfit : arrow.stringArray texts = some partitionKey)
    (ht : records.mapM (fun r => timestampNanosOpt r.eventTime) = some nanos)
    (hs : records.mapM (fun r => fromUtf8 r.sortKey) = some ids)
    (hsfit : arrow.stringArray ids = some id)
    (hvfit : arrow.binaryArray (records.map Record.value) = some value) :
    BatchFits records ∧ ∃ rows, List.Forall₂ (fun r row => tableRow r = some row) records rows := by
  simp only [mapM_eq_some_iff, fromUtf8_eq_some_iff] at hp ht hs
  have hkeys : records.map Record.partitionKey = texts.map utf8 := by
    refine List.forall₂_eq_eq_eq ▸ ?_
    exact List.forall₂_map_left_iff.mpr (List.forall₂_map_right_iff.mpr hp)
  have hids : records.map Record.sortKey = ids.map utf8 := by
    refine List.forall₂_eq_eq_eq ▸ ?_
    exact List.forall₂_map_left_iff.mpr (List.forall₂_map_right_iff.mpr hs)
  refine ⟨⟨?_, ?_, (harrow.binaryArray.mp hvfit).1⟩, ?_⟩
  · rw [hkeys]
    exact (harrow.stringArray.mp hpfit).1
  · rw [hids]
    exact (harrow.stringArray.mp hsfit).1
  · clear hkeys hids hpfit hsfit hvfit
    induction hp generalizing nanos ids with
    | nil => exact ⟨[], .nil⟩
    | @cons r text records texts hr _ ih =>
        obtain ⟨n, nanos, hn, ht', rfl⟩ := List.forall₂_cons_left_iff.mp ht
        obtain ⟨id, ids, hi, hs', rfl⟩ := List.forall₂_cons_left_iff.mp hs
        obtain ⟨rows, hrows⟩ := ih ht' hs'
        exact ⟨⟨text, n, id, r.value⟩ :: rows,
          .cons (tableRow_eq_some_iff.mpr ⟨hr, hn, hi, rfl⟩) hrows⟩

/-- A chunk that was encoded has rows only, and fits. -/
theorem recordBatch_inv (harrow : arrow.Lawful) {sourceSchema : Schema}
    (h : recordBatch arrow sourceSchema projection records = pure batch) :
    BatchFits records ∧ ∃ rows, List.Forall₂ (fun r row => tableRow r = some row) records rows := by
  simp only [recordBatch, Attempt.bind_eq_pure_iff, Attempt.orFail_eq_pure_iff,
    Attempt.orPanic_eq_pure_iff] at h
  obtain ⟨texts, hp, _, hpfit, nanos, ht, ids, hs, _, hsfit, _, hvfit, -⟩ := h
  exact rows_of_arrays harrow hp hpfit ht hs hsfit hvfit

/-- The batch lists the rows of the records. -/
structure Encodes (table : DurableTable) (projection : List ℕ) (records : List Record)
    (rows : List TableRow) (batch : RecordBatch) : Prop where
  each : List.Forall₂ (fun r row => tableRow r = some row) records rows
  schema : batch.schema = pick projection (tableSchema table)
  cells : batch.rows = rows.map fun row => pick projection row.cells

theorem Encodes.numRows (h : Encodes table projection records rows batch) :
    batch.numRows = records.length := by
  rw [← batch.length_rows, h.cells, List.length_map, h.each.length_eq]

theorem encodes_of_pure (harrow : arrow.Lawful)
    (hproj : ∀ i ∈ projection, i < (tableSchema table).length)
    (h : recordBatch arrow (tableSchema table) projection records = pure batch) :
    ∃ rows, Encodes table projection records rows batch := by
  obtain ⟨hfits, rows, hrows⟩ := recordBatch_inv harrow h
  obtain ⟨batch', hok, hschema, hcells⟩ := recordBatch_of_rows harrow hrows hfits hproj
  obtain rfl := Attempt.pure_inj.mp (hok.symm.trans h)
  exact ⟨rows, hrows, hschema, hcells⟩

/-- The rows of chunks, one after the other, are the rows of the list. -/
theorem rows_of_chunks {chunks : List (List Record)} {batches : List RecordBatch}
    (h : List.Forall₂ (fun c b => ∃ rows, Encodes table projection c rows b) chunks batches) :
    (∃ rows, List.Forall₂ (fun r row => tableRow r = some row) chunks.flatten rows ∧
      batches.flatMap RecordBatch.rows = rows.map fun row => pick projection row.cells) ∧
    (∀ b ∈ batches, b.schema = pick projection (tableSchema table)) ∧
    batches.map RecordBatch.numRows = chunks.map List.length := by
  induction h with
  | nil => exact ⟨⟨[], .nil, rfl⟩, List.forall_mem_nil _, rfl⟩
  | cons hb _ ih =>
      obtain ⟨rows, hb⟩ := hb
      obtain ⟨⟨rest, hrest, hbatches⟩, hschema, hsizes⟩ := ih
      refine ⟨⟨rows ++ rest, List.rel_append hb.each hrest, ?_⟩,
        List.forall_mem_cons.mpr ⟨hb.schema, hschema⟩, ?_⟩
      · rw [List.flatMap_cons, hb.cells, hbatches, List.map_append]
      · rw [List.map_cons, List.map_cons, hb.numRows, hsizes]

/-- Encoding fails at a record that has no text or no timestamp for one of the columns. -/
theorem recordBatch_throws (harrow : arrow.Lawful) {e : DataFusionError}
    (hproj : ∀ i ∈ projection, i < (tableSchema table).length)
    (h : recordBatch arrow (tableSchema table) projection records = throw e) :
    ∃ r ∈ records,
      fromUtf8 r.partitionKey = none ∧
        e = .execution "Pulpitum partition key is not valid UTF-8 for the SQL adapter" ∨
      timestampNanosOpt r.eventTime = none ∧
        e = .execution "Pulpitum timestamp is outside Arrow nanosecond range" ∨
      fromUtf8 r.sortKey = none ∧
        e = .execution "Pulpitum sort key is not valid UTF-8 for the SQL adapter" := by
  unfold recordBatch at h
  obtain h | ⟨texts, hp, h⟩ := Attempt.throws_of_bind h
  · obtain ⟨rfl, hnone⟩ := Attempt.orFail_eq_throw h
    obtain ⟨r, hr, hnone⟩ := exists_none_of_mapM hnone
    exact ⟨r, hr, .inl ⟨hnone, rfl⟩⟩
  obtain h | ⟨partitionKey, hpfit, h⟩ := Attempt.throws_of_bind h
  · exact absurd h Attempt.orPanic_ne_throw
  obtain h | ⟨nanos, ht, h⟩ := Attempt.throws_of_bind h
  · obtain ⟨rfl, hnone⟩ := Attempt.orFail_eq_throw h
    obtain ⟨r, hr, hnone⟩ := exists_none_of_mapM hnone
    exact ⟨r, hr, .inr (.inl ⟨hnone, rfl⟩)⟩
  obtain h | ⟨ids, hs, h⟩ := Attempt.throws_of_bind h
  · obtain ⟨rfl, hnone⟩ := Attempt.orFail_eq_throw h
    obtain ⟨r, hr, hnone⟩ := exists_none_of_mapM hnone
    exact ⟨r, hr, .inr (.inr ⟨hnone, rfl⟩)⟩
  obtain h | ⟨id, hsfit, h⟩ := Attempt.throws_of_bind h
  · exact absurd h Attempt.orPanic_ne_throw
  obtain h | ⟨value, hvfit, h⟩ := Attempt.throws_of_bind h
  · exact absurd h Attempt.orPanic_ne_throw
  -- all columns were read, so that the batch is made
  rw [Attempt.orFail_eq_pure_iff] at hp ht hs
  rw [Attempt.orPanic_eq_pure_iff] at hpfit hsfit hvfit
  obtain ⟨hfits, rows, hrows⟩ := rows_of_arrays harrow hp hpfit ht hs hsfit hvfit
  obtain ⟨batch, hok, -⟩ := recordBatch_of_rows harrow hrows hfits hproj
  simp only [recordBatch, hp, hpfit, ht, hs, hsfit, hvfit, Attempt.orFail, Attempt.orPanic,
    pure_bind] at hok
  cases (hok.symm.trans h)

/-- Records that are rows are encoded, if each batch fits. -/
theorem recordBatches_of_rows (harrow : arrow.Lawful)
    (hfits : ∀ c ∈ chunks batchSize records, BatchFits c)
    (hrows : ∀ r ∈ records, ∃ row, tableRow r = some row)
    (hproj : ∀ i ∈ projection, i < (tableSchema table).length) :
    ∃ batches, recordBatches arrow records (tableSchema table) projection = pure batches := by
  have heach : ∀ c ∈ chunks batchSize records, ∃ b,
      recordBatch arrow (tableSchema table) projection c = pure b := by
    intro c hc
    obtain ⟨rows, hc'⟩ := exists_forall₂ fun r hr => hrows r (Arrow.mem_of_mem_chunks hc r hr)
    obtain ⟨b, hb, -⟩ := recordBatch_of_rows harrow hc' (hfits c hc) hproj
    exact ⟨b, hb⟩
  obtain ⟨batches, h⟩ := exists_forall₂ heach
  exact ⟨batches, Attempt.mapM_eq_pure_iff.mpr h⟩

/-- **What batches say**: they list the rows of the records. -/
theorem rows_of_recordBatches (harrow : arrow.Lawful) {batches : List RecordBatch}
    (hproj : ∀ i ∈ projection, i < (tableSchema table).length)
    (h : recordBatches arrow records (tableSchema table) projection = pure batches) :
    (∃ rows, List.Forall₂ (fun r row => tableRow r = some row) records rows ∧
      batches.flatMap RecordBatch.rows = rows.map fun row => pick projection row.cells) ∧
    (∀ b ∈ batches, b.schema = pick projection (tableSchema table)) ∧
    batches.map RecordBatch.numRows = (chunks batchSize records).map List.length := by
  have hall := Attempt.mapM_eq_pure_iff.mp h
  have hchunks := rows_of_chunks (hall.imp fun c b hb => encodes_of_pure harrow hproj hb)
  rwa [Arrow.chunks_flatten] at hchunks

/-- **The batches of a scan are its records.**  The records are encoded if and only if each of them
is a row of the table and each batch of 1024 fits in its columns; the batches then are of the
projected schema, full but for the last, and list the rows in order.  A scan that fails names a
column that a record has no value for. -/
theorem recordBatches_exact (harrow : arrow.Lawful)
    (hproj : ∀ i ∈ projection, i < (tableSchema table).length) :
    ((∃ batches, recordBatches arrow records (tableSchema table) projection = pure batches) ↔
      (∀ c ∈ chunks batchSize records, BatchFits c) ∧ ∀ r ∈ records, ∃ row, tableRow r = some row) ∧
    (∀ batches, recordBatches arrow records (tableSchema table) projection = pure batches →
      (∃ rows, List.Forall₂ (fun r row => tableRow r = some row) records rows ∧
        batches.flatMap RecordBatch.rows = rows.map fun row => pick projection row.cells) ∧
      (∀ b ∈ batches, b.schema = pick projection (tableSchema table) ∧ 0 < b.numRows ∧
        b.numRows ≤ batchSize) ∧
      ∀ b ∈ batches.dropLast, b.numRows = batchSize) ∧
    ∀ e, recordBatches arrow records (tableSchema table) projection = throw e → ∃ r ∈ records,
      fromUtf8 r.partitionKey = none ∧
        e = .execution "Pulpitum partition key is not valid UTF-8 for the SQL adapter" ∨
      timestampNanosOpt r.eventTime = none ∧
        e = .execution "Pulpitum timestamp is outside Arrow nanosecond range" ∨
      fromUtf8 r.sortKey = none ∧
        e = .execution "Pulpitum sort key is not valid UTF-8 for the SQL adapter" := by
  have hsize : 0 < batchSize := by decide
  refine ⟨⟨?_, fun h => recordBatches_of_rows harrow h.1 h.2 hproj⟩,
    fun batches h => ?_, fun e h => ?_⟩
  · rintro ⟨batches, h⟩
    have hall := Attempt.mapM_eq_pure_iff.mp h
    refine ⟨fun c hc => ?_, ?_⟩
    · obtain ⟨b, hb⟩ := exists_of_forall₂ hall c hc
      exact (recordBatch_inv harrow hb).1
    · obtain ⟨⟨rows, hrows, -⟩, -⟩ := rows_of_recordBatches harrow hproj h
      exact exists_of_forall₂ hrows
  · obtain ⟨hrows, hschema, hsizes⟩ := rows_of_recordBatches harrow hproj h
    refine ⟨hrows, fun b hb => ⟨hschema b hb, ?_⟩, fun b hb => ?_⟩
    · have hmem := List.mem_map_of_mem (f := RecordBatch.numRows) hb
      rw [hsizes] at hmem
      obtain ⟨c, hc, hlen⟩ := List.mem_map.mp hmem
      exact hlen ▸ Arrow.length_of_mem_chunks hsize hc
    · have hmem := List.mem_map_of_mem (f := RecordBatch.numRows) hb
      rw [List.map_dropLast, hsizes, ← List.map_dropLast] at hmem
      obtain ⟨c, hc, hlen⟩ := List.mem_map.mp hmem
      exact hlen ▸ Arrow.length_of_mem_dropLast hsize hc
  · obtain ⟨c, hc, hthrow⟩ := Attempt.throws_of_mapM h
    obtain ⟨r, hr, hcause⟩ := recordBatch_throws harrow hproj hthrow
    exact ⟨r, Arrow.mem_of_mem_chunks hc r hr, hcause⟩

end Batch

/-- One record, of which two columns are asked for. -/
theorem recordBatches_exact_of_record :
    ∃ batches rows,
      recordBatches .reference [Pulpitum.Sample.record] (tableSchema Pulpitum.Sample.table)
        [2, 3] = pure batches ∧
      List.Forall₂ (fun r row => tableRow r = some row) [Pulpitum.Sample.record] rows ∧
      batches.flatMap RecordBatch.rows = rows.map fun row => pick [2, 3] row.cells := by
  have hproj : ∀ i ∈ [2, 3], i < (tableSchema Pulpitum.Sample.table).length := by decide
  have hrow : ∃ row, tableRow Pulpitum.Sample.record = some row :=
    ⟨⟨"\x07", ⟨1704067200000000000, by decide⟩, "\x01", [42]⟩,
      tableRow_eq_some_iff.mpr ⟨rfl, by decide, rfl, rfl⟩⟩
  have hfits : ∀ c ∈ chunks batchSize [Pulpitum.Sample.record], BatchFits c := by
    intro c hc
    rw [Arrow.chunks_cons, List.drop_nil, Arrow.chunks_nil, List.mem_singleton] at hc
    subst hc
    exact ⟨by decide, by decide, by decide⟩
  obtain ⟨hiff, hbatches, -⟩ := recordBatches_exact Arrow.Library.reference_lawful hproj
  obtain ⟨batches, hok⟩ := hiff.mpr ⟨hfits, List.forall_mem_singleton.mpr hrow⟩
  obtain ⟨⟨rows, hrows, hcells⟩, -⟩ := hbatches batches hok
  exact ⟨batches, rows, hok, hrows, hcells⟩

end Pulpitum.DataFusion
