import Mathlib
import Pulpitum.Integrations.RoutedScan
import Pulpitum.Sidecar.Gateway

/-!
# Sidecar — RoundTrip

From the INSERT to the rows of a SELECT: the record that a statement is parsed into, the Arrow
batches it is returned in, the fields these are encoded as, and what a client reads them as.

* `Inserted.texts`: the keys of a record that was inserted are texts.
* `ReadBy`: what the encoder is relied on for.  A time is sent in microseconds.
* `encodeRows_of_rows`: the fields of the rows of the table.
* `rows_return_iff`: **what was inserted is returned**, field by field, unless its time is a leap
  second or between two microseconds.
-/

namespace Pulpitum
namespace Sidecar
open Fallible
open Text (Byte utf8)
open DateTime (I64 fromTimestampNanos timestampNanosOpt)
open Arrow (RecordBatch Cell DataType Schema pick chunks)
open DataFusion (TableRow tableRow tableSchema recordBatches batchSize BatchFits)

variable {server : PulpitumPgWireServer} {r : Record}

/-! ### Records -/

/-- Some INSERT is parsed into the record. -/
def PulpitumPgWireServer.Inserted (server : PulpitumPgWireServer) (r : Record) : Prop :=
  ∃ statement portal, server.insertRecord statement portal = .ok r

theorem texts_of_readRecord {values : Values} {string : Expr → Except Stop String}
    {timestamp : Expr → Except Stop DateTime} {bytea : Expr → Except Stop (List Byte)}
    (h : readRecord values string timestamp bytea = .ok r) :
    ∃ channel id, r.partitionKey = utf8 channel ∧ r.sortKey = utf8 id := by
  obtain ⟨channel, -, h⟩ := ok_of_bind h
  obtain ⟨time, -, h⟩ := ok_of_bind h
  obtain ⟨id, -, h⟩ := ok_of_bind h
  obtain ⟨value, -, h⟩ := ok_of_bind h
  cases h
  exact ⟨channel, id, rfl, rfl⟩

/-- The keys of a record that was inserted are texts. -/
theorem PulpitumPgWireServer.Inserted.texts (h : server.Inserted r) :
    ∃ channel id, r.partitionKey = utf8 channel ∧ r.sortKey = utf8 id := by
  obtain ⟨statement, portal, h⟩ := h
  cases portal with
  | none =>
      obtain ⟨values, -, h⟩ := ok_of_bind h
      exact texts_of_readRecord h
  | some portal =>
      obtain ⟨values, -, h⟩ := ok_of_bind h
      obtain ⟨types, -, h⟩ := ok_of_bind h
      obtain ⟨-, -, h⟩ := ok_of_bind h
      exact texts_of_readRecord h

/-! ### Reading -/

section

variable (encoder : RowEncoder) (decode : FieldInfo → WireField → Option FieldValue)

/-- A client that decodes fields with `decode` reads texts and bytes as they are, and the
microseconds of times. -/
structure ReadBy (fields : List FieldInfo) : Prop where
  text : ∀ {i : ℕ} {field : FieldInfo} (s : String), fields[i]? = some field →
    field.datatype = .text → ∃ x, encoder.encodeField fields i (.text s) = .ok x ∧
      decode field x = some (.text s)
  bytea : ∀ {i : ℕ} {field : FieldInfo} (b : List Byte), fields[i]? = some field →
    field.datatype = .bytea → ∃ x, encoder.encodeField fields i (.bytea b) = .ok x ∧
      decode field x = some (.bytea b)
  timestamptz : ∀ {i : ℕ} {field : FieldInfo} (n : I64), fields[i]? = some field →
    field.datatype = .timestamptz → ∃ x t,
      encoder.encodeField fields i (.timestamptz (fromTimestampNanos n)) = .ok x ∧
      decode field x = some (.timestamptz t) ∧ t.Whole ∧
      ((fromTimestampNanos n).Whole → t = fromTimestampNanos n)

/-- What a client may read for a value of the table. -/
inductive ReadAs : Option Cell → FieldValue → Prop where
  | text (s : String) : ReadAs (some (.text s)) (.text s)
  | bytes (b : List Byte) : ReadAs (some (.bytes b)) (.bytea b)
  | nanos {n : I64} {t : DateTime} (hwhole : t.Whole)
      (hsame : (fromTimestampNanos n).Whole → t = fromTimestampNanos n) :
      ReadAs (some (.nanos n)) (.timestamptz t)

/-- What a client reads a row as. -/
def readRow (fields : List FieldInfo) (row : DataRow) : List (Option FieldValue) :=
  List.zipWith decode fields row

/-- The row is one that a client may read for the values. -/
def Shows (fields : List FieldInfo) (cells : List (Option Cell)) (row : DataRow) : Prop :=
  ∃ values, List.Forall₂ ReadAs cells values ∧ readRow decode fields row = values.map some

end

/-! ### Rows -/

section Rows

variable {encoder : RowEncoder} {decode : FieldInfo → WireField → Option FieldValue}
  {fields : List FieldInfo}

/-- The columns of the table are described, in whichever formats. -/
theorem fieldsFromSchema_table (table : DurableTable) (projection : List ℕ) (format : Format) :
    ∃ fields, fieldsFromSchema (pick projection (tableSchema table)) format = .ok fields := by
  have htypes : ∀ field ∈ tableSchema table, ∃ t, pgType field.dataType = .ok t := by
    simp only [tableSchema, List.forall_mem_cons]
    exact ⟨⟨_, rfl⟩, ⟨_, rfl⟩, ⟨_, rfl⟩, ⟨_, rfl⟩, List.forall_mem_nil _⟩
  have heach : ∀ entry ∈ (pick projection (tableSchema table)).zipIdx,
      ∃ info, fieldInfo format entry = .ok info := by
    intro entry hentry
    have hmem := Arrow.mem_of_mem_pick (List.fst_mem_of_mem_zipIdx hentry)
    obtain ⟨t, ht⟩ := htypes entry.1 hmem
    exact ⟨_, bind_of_ok ht rfl⟩
  obtain ⟨fields, hall⟩ := exists_forall₂ heach
  exact ⟨fields, mapM_eq_ok_of_forall₂ hall⟩

/-- A column is described by the field at its index. -/
theorem field_of_fieldsFromSchema {schema : Schema} {format : Format}
    (h : fieldsFromSchema schema format = .ok fields) {j : ℕ} {column : Arrow.Field}
    (hj : schema[j]? = some column) :
    ∃ field, fields[j]? = some field ∧ pgType column.dataType = .ok field.datatype := by
  have hall := forall₂_of_mapM_eq_ok h
  have hlt : j < schema.length := (List.getElem?_eq_some_iff.mp hj).1
  have hlt' : j < fields.length := by rwa [← hall.length_eq, List.length_zipIdx]
  have hfield := hall.get (by rwa [List.length_zipIdx]) hlt'
  obtain ⟨datatype, hpg, hfield⟩ := ok_of_bind hfield
  refine ⟨fields[j], List.getElem?_eq_getElem hlt', ?_⟩
  have hcolumn : schema[j] = column := (List.getElem?_eq_some_iff.mp hj).2
  simp only [List.get_eq_getElem, List.getElem_zipIdx, hcolumn] at hpg hfield
  rw [hpg, ← Except.ok.inj hfield]

/-- A value of the table is encoded as something that is read as it. -/
theorem encodeField_readAs (hread : ReadBy encoder decode fields) {j : ℕ} {field : FieldInfo}
    (hfield : fields[j]? = some field) {dataType : DataType} {cell : Cell}
    (htype : pgType dataType = .ok field.datatype) (hvalue : dataType.Holds cell)
    (hcell : ∀ printed, cell ≠ .other printed) :
    ∃ x v, encodeField encoder fields j dataType (some cell) = .ok x ∧
      decode field x = some v ∧ ReadAs (some cell) v := by
  cases cell with
  | text s =>
      have hcases : dataType = .utf8 ∨ dataType = .largeUtf8 := by
        unfold DataType.Holds at hvalue
        split at hvalue <;> simp_all
      rcases hcases with rfl | rfl
      · obtain ⟨x, hx, hv⟩ := hread.text s hfield (Except.ok.inj htype).symm
        exact ⟨x, _, hx, hv, .text s⟩
      · obtain ⟨x, hx, hv⟩ := hread.text s hfield (Except.ok.inj htype).symm
        exact ⟨x, _, hx, hv, .text s⟩
  | bytes b =>
      have hcases : dataType = .binary ∨ dataType = .largeBinary := by
        unfold DataType.Holds at hvalue
        split at hvalue <;> simp_all
      rcases hcases with rfl | rfl
      · obtain ⟨x, hx, hv⟩ := hread.bytea b hfield (Except.ok.inj htype).symm
        exact ⟨x, _, hx, hv, .bytes b⟩
      · obtain ⟨x, hx, hv⟩ := hread.bytea b hfield (Except.ok.inj htype).symm
        exact ⟨x, _, hx, hv, .bytes b⟩
  | nanos n =>
      have hcases : ∃ zone, dataType = .timestamp .nanosecond zone := by
        unfold DataType.Holds at hvalue
        split at hvalue <;> simp_all
      obtain ⟨zone, rfl⟩ := hcases
      obtain ⟨x, t, hx, hv, hwhole, hsame⟩ := hread.timestamptz n hfield (Except.ok.inj htype).symm
      exact ⟨x, _, hx, hv, .nanos hwhole hsame⟩
  | other printed => exact absurd rfl (hcell printed)

/-- Fields that are read one by one are read as a row. -/
theorem readRow_of_each {γ : Type} {entries : List γ} {k : ℕ}
    {pairs : List (WireField × FieldValue)}
    (h : List.Forall₂ (fun (q : γ × ℕ) p => ∃ field, fields[q.2]? = some field ∧
      decode field p.1 = some p.2) (entries.zipIdx k) pairs) :
    List.zipWith decode (fields.drop k) (pairs.map Prod.fst) =
      (pairs.map Prod.snd).map some := by
  induction entries generalizing k pairs with
  | nil =>
      cases h
      simp
  | cons entry entries ih =>
      rw [List.zipIdx_cons] at h
      obtain ⟨pair, pairs, ⟨field, hfield, hdecode⟩, hrest, rfl⟩ := List.forall₂_cons_left_iff.mp h
      obtain ⟨hlt, hget⟩ := List.getElem?_eq_some_iff.mp hfield
      rw [List.drop_eq_getElem_cons hlt, List.map_cons, List.map_cons, List.zipWith_cons_cons,
        ih hrest, hget, hdecode]
      rfl

/-- **One row of a batch** is encoded as something that is read as its values. -/
theorem encodeRow_shows (hread : ReadBy encoder decode fields) {format : Format}
    {batch : RecordBatch} (hfields : fieldsFromSchema batch.schema format = .ok fields) {i : ℕ}
    (hvalues : ∀ cell ∈ batch.row i, ∃ c, cell = some c ∧ ∀ printed, c ≠ .other printed) :
    ∃ row, encodeRow encoder fields batch i = .ok row ∧ Shows decode fields (batch.row i) row := by
  have heach : ∀ q ∈ batch.columns.zipIdx, ∃ p : WireField × FieldValue,
      encodeField encoder fields q.2 q.1.2.dataType q.1.2.values[i]?.join = .ok p.1 ∧
      (∃ field, fields[q.2]? = some field ∧ decode field p.1 = some p.2) ∧
      ReadAs q.1.2.values[i]?.join p.2 := by
    rintro ⟨column, j⟩ hq
    have hcolumn : batch.columns[j]? = some column := List.mem_zipIdx_iff_getElem?.mp hq
    have hmem := List.mem_of_getElem? hcolumn
    obtain ⟨field, hfield, htype⟩ := @field_of_fieldsFromSchema _ _ _ hfields j column.1 (by
      rw [RecordBatch.schema, List.getElem?_map, hcolumn]
      rfl)
    obtain ⟨c, hc, hother⟩ := hvalues _ (List.mem_map_of_mem hmem)
    rw [← (batch.fit column hmem).1] at htype
    dsimp only at hc ⊢
    have hholds : column.2.dataType.Holds c :=
      column.2.typed _ (List.mem_of_getElem? (Option.join_eq_some_iff.mp hc)) c rfl
    obtain ⟨x, v, hx, hv, has⟩ := encodeField_readAs hread hfield htype hholds hother
    rw [hc]
    exact ⟨(x, v), hx, ⟨field, hfield, hv⟩, has⟩
  obtain ⟨pairs, hall⟩ := exists_forall₂ heach
  refine ⟨pairs.map Prod.fst, mapM_eq_ok_of_forall₂ (List.forall₂_map_right_iff.mpr
    (hall.imp fun _ _ h => h.1)), pairs.map Prod.snd, ?_, ?_⟩
  · have hcells : batch.row i = batch.columns.zipIdx.map fun q => q.1.2.values[i]?.join := by
      have hfst := congrArg (List.map fun p : Arrow.Field × Arrow.Column => p.2.values[i]?.join)
        (List.zipIdx_map_fst 0 batch.columns)
      rw [List.map_map] at hfst
      exact hfst.symm
    rw [hcells]
    exact List.forall₂_map_left_iff.mpr
      (List.forall₂_map_right_iff.mpr (hall.imp fun _ _ h => h.2.2))
  · exact readRow_of_each (k := 0) (hall.imp fun _ _ h => h.2.1)

/-- **The rows of the table are encoded** as something that is read as their values. -/
theorem encodeRows_of_rows {table : DurableTable} {projection : List ℕ} {format : Format}
    (hread : ReadBy encoder decode fields)
    (hfields : fieldsFromSchema (pick projection (tableSchema table)) format = .ok fields)
    {batches : List RecordBatch} {rows : List TableRow}
    (hschema : ∀ batch ∈ batches, batch.schema = pick projection (tableSchema table))
    (hrows : batches.flatMap RecordBatch.rows = rows.map fun row => pick projection row.cells) :
    ∃ encoded, encodeRows encoder fields batches = .ok encoded ∧
      List.Forall₂ (fun row x => Shows decode fields (pick projection row.cells) x)
        rows encoded := by
  have hcells : ∀ row : TableRow, ∀ cell ∈ pick projection row.cells, ∃ c, cell = some c ∧
      ∀ printed, c ≠ .other printed := by
    intro row cell hcell
    have hmem := Arrow.mem_of_mem_pick hcell
    simp only [TableRow.cells, TableRow.columns, List.map_cons, List.map_nil, List.mem_cons,
      List.not_mem_nil, or_false] at hmem
    rcases hmem with rfl | rfl | rfl | rfl <;> exact ⟨_, rfl, by simp⟩
  suffices h : ∃ pages, batches.mapM (fun batch =>
      (List.range batch.numRows).mapM (encodeRow encoder fields batch)) = .ok pages ∧
        List.Forall₂ (fun row x => Shows decode fields (pick projection row.cells) x) rows
          pages.flatten by
    obtain ⟨pages, hpages, hflat⟩ := h
    exact ⟨_, bind_of_ok hpages rfl, hflat⟩
  induction batches generalizing rows with
  | nil =>
      obtain rfl := List.map_eq_nil_iff.mp hrows.symm
      exact ⟨[], rfl, .nil⟩
  | cons batch batches ih =>
      obtain ⟨hbatch, hbatches⟩ := List.forall_mem_cons.mp hschema
      rw [List.flatMap_cons] at hrows
      obtain ⟨rows₁, rows₂, rfl, h₁, h₂⟩ := List.map_eq_append_iff.mp hrows.symm
      obtain ⟨pages, hpages, hflat⟩ := ih hbatches h₂.symm
      -- the rows of this batch
      have heach : ∀ j ∈ List.range batch.numRows, ∃ x, encodeRow encoder fields batch j = .ok x ∧
          Shows decode fields (batch.row j) x := by
        intro j hj
        refine encodeRow_shows hread (hbatch ▸ hfields) fun cell hcell => ?_
        have hmem : batch.row j ∈ rows₁.map fun row => pick projection row.cells :=
          h₁ ▸ List.mem_map_of_mem hj
        obtain ⟨row, -, hrow⟩ := List.mem_map.mp hmem
        exact hcells row cell (hrow ▸ hcell)
      obtain ⟨page, hpage⟩ := exists_forall₂ heach
      have hshown : List.Forall₂ (fun row x => Shows decode fields (pick projection row.cells) x)
          rows₁ page := by
        have hmapped : List.Forall₂ (Shows decode fields) ((List.range batch.numRows).map batch.row)
            page := List.forall₂_map_left_iff.mpr (hpage.imp fun _ _ h => h.2)
        rw [show (List.range batch.numRows).map batch.row = _ from h₁.symm] at hmapped
        exact List.forall₂_map_left_iff.mp hmapped
      refine ⟨page :: pages, ?_, ?_⟩
      · rw [List.mapM_cons, mapM_eq_ok_of_forall₂ (hpage.imp fun _ _ h => h.1), ok_bind, hpages]
        rfl
      · rw [List.flatten_cons]
        exact List.rel_append hshown hflat

/-! ### There and back -/

/-- The values that the record was inserted with. -/
def insertedValues (r : Record) (channel id : String) : List FieldValue :=
  [.text channel, .timestamptz r.eventTime, .text id, .bytea r.value]

/-- A client reads the row as the fields of the record, as it was inserted. -/
def Returns (decode : FieldInfo → WireField → Option FieldValue) (fields : List FieldInfo)
    (projection : List ℕ) (r : Record) (row : DataRow) : Prop :=
  ∃ channel id, r.partitionKey = utf8 channel ∧ r.sortKey = utf8 id ∧
    readRow decode fields row = (pick projection (insertedValues r channel id)).map some

/-- A row returns its record if the time is not asked for, or is a whole microsecond. -/
theorem row_returns_iff {projection : List ℕ} {row : TableRow} {x : DataRow}
    (h : tableRow r = some row) (hx : Shows decode fields (pick projection row.cells) x) :
    Returns decode fields projection r x ↔ (1 ∈ projection → r.eventTime.Whole) := by
  obtain ⟨hp, ht, hs, hv⟩ := DataFusion.tableRow_eq_some_iff.mp h
  obtain ⟨values, hvalues, hrow⟩ := hx
  have hleap := DateTime.fromTimestampNanos_eq_iff ht
  constructor
  · rintro ⟨channel, id, -, -, hreturned⟩ hmem
    obtain rfl : values = pick projection (insertedValues r channel id) :=
      List.map_injective_iff.mpr (Option.some_injective _) (hrow.symm.trans hreturned)
    have htime := Arrow.rel_of_forall₂_pick (by rfl) hvalues 1 hmem _ _ rfl rfl
    cases htime with
    | nanos hwhole _ => exact hwhole
  · intro hwhole
    refine ⟨row.partitionText, row.id, hp, hs, ?_⟩
    rw [hrow]
    refine congrArg _ (Arrow.eq_pick_of_forall₂ (by rfl) hvalues fun i hi a b b' ha hb hread => ?_)
    -- only the time may be read as another one
    rcases i with _ | _ | _ | _ | i
    · cases ha
      cases hb
      cases hread
      rfl
    · cases ha
      cases hb
      cases hread with
      | nanos _ hsame =>
          have htime : fromTimestampNanos row.timestamp = r.eventTime := hleap.mpr (hwhole hi).1
          rw [htime] at hsame
          rw [hsame (hwhole hi)]
    · cases ha
      cases hb
      cases hread
      rfl
    · cases ha
      cases hb
      cases hread
      rw [hv]
    · cases ha

end Rows

/-- **What was inserted is returned.**  Records that INSERTs were parsed into, and whose times
nanoseconds count, are encoded as rows, in formats that the client reads; it reads each row as the
fields its record was inserted with, in the order of the projection, if and only if the times are
not asked for or all of them are whole microseconds and no leap seconds. -/
theorem rows_return_iff {arrow : Arrow.Library} (harrow : arrow.Lawful) {encoder : RowEncoder}
    {decode : FieldInfo → WireField → Option FieldValue} {table : DurableTable}
    {projection : List ℕ} {records : List Record} {format : Format}
    (hread : ∀ fields, fieldsFromSchema (pick projection (tableSchema table)) format = .ok fields →
      ReadBy encoder decode fields)
    (hproj : ∀ i ∈ projection, i < (tableSchema table).length)
    (hinserted : ∀ r ∈ records, server.Inserted r)
    (htimes : ∀ r ∈ records, (timestampNanosOpt r.eventTime).isSome)
    (hfits : ∀ c ∈ chunks batchSize records, BatchFits c) :
    ∃ batches fields rows,
      recordBatches arrow records (tableSchema table) projection = pure batches ∧
      fieldsFromSchema (pick projection (tableSchema table)) format = .ok fields ∧
      encodeRows encoder fields batches = .ok rows ∧
      (List.Forall₂ (Returns decode fields projection) records rows ↔
        (1 ∈ projection → ∀ r ∈ records, r.eventTime.Whole)) := by
  have htable : ∀ r ∈ records, ∃ row, tableRow r = some row := by
    intro r hr
    obtain ⟨channel, id, hp, hs⟩ := (hinserted r hr).texts
    obtain ⟨n, hn⟩ := Option.isSome_iff_exists.mp (htimes r hr)
    exact ⟨⟨channel, n, id, r.value⟩, DataFusion.tableRow_eq_some_iff.mpr ⟨hp, hn, hs, rfl⟩⟩
  obtain ⟨batches, hbatches⟩ := DataFusion.recordBatches_of_rows harrow hfits htable hproj
  obtain ⟨⟨rows, hrows, hcells⟩, hschema, -⟩ :=
    DataFusion.rows_of_recordBatches harrow hproj hbatches
  obtain ⟨fields, hfields⟩ := fieldsFromSchema_table table projection format
  obtain ⟨encoded, hencoded, hshown⟩ :=
    encodeRows_of_rows (hread fields hfields) hfields hschema hcells
  refine ⟨batches, fields, encoded, hbatches, hfields, hencoded, ?_⟩
  clear hbatches hcells hinserted htimes hfits htable hschema hencoded
  induction hrows generalizing encoded with
  | nil =>
      cases hshown
      simp
  | cons hrow _ ih =>
      obtain ⟨x, encoded, hx, hrest, rfl⟩ := List.forall₂_cons_left_iff.mp hshown
      rw [List.forall₂_cons, ih encoded hrest, row_returns_iff hrow hx, List.forall_mem_cons]
      exact forall_and.symm

namespace Sample
open Utf8 (fromUtf8 fromUtf8_utf8)
open Pulpitum.Sample (newYear table)

theorem inserted_record : gateway.Inserted record := by
  obtain ⟨values, hok, hvalues⟩ := (inserts_insertOf literalSql rfl).values
  exact ⟨literalSql, none, bind_of_ok hok (written_literalRow.readLiteral hvalues)⟩

/-- The number of the bytes, the highest first. -/
def ofBeBytes (bytes : List Byte) : ℕ := bytes.foldl (fun n b => n * 256 + b.val) 0

theorem ofBeBytes_beBytes (k n : ℕ) : ofBeBytes (beBytes k n) = n % 256 ^ k := by
  induction k generalizing n with
  | zero => simp [beBytes, ofBeBytes, Nat.mod_one]
  | succ k ih =>
      have hlast : ofBeBytes (beBytes (k + 1) n) =
          ofBeBytes (beBytes k (n / 256)) * 256 + n % 256 := by
        simp [beBytes, ofBeBytes, Fin.ofNat]
      rw [hlast, ih, pow_succ', Nat.mod_mul]
      ring

/-- The `i64` of the bytes. -/
def ofInt8Bytes (bytes : List Byte) : ℤ :=
  if ofBeBytes bytes < 2 ^ 63 then ofBeBytes bytes else ofBeBytes bytes - 2 ^ 64

theorem ofInt8Bytes_int8Bytes {m : ℤ} (h₁ : -2 ^ 63 ≤ m) (h₂ : m < 2 ^ 63) :
    ofInt8Bytes (int8Bytes m) = m := by
  have hbytes : ofBeBytes (int8Bytes m) = (m % 2 ^ 64).toNat := by
    rw [int8Bytes, ofBeBytes_beBytes]
    refine Nat.mod_eq_of_lt ?_
    omega
  rw [ofInt8Bytes, hbytes]
  split <;> omega

/-- What the encoder encodes, read in binary. -/
def decode (field : FieldInfo) (x : WireField) : Option FieldValue :=
  match field.datatype, x with
  | _, none => some .null
  | .text, some b => (fromUtf8 b).map .text
  | .bytea, some b => some (.bytea b)
  | .timestamptz, some b => (DateTime.fromSql (ofInt8Bytes b)).map .timestamptz
  | _, some _ => none

/-- The microseconds of a time of 64-bit nanoseconds are an `i64`, and those of a time. -/
theorem exists_fromSql_toSql (n : I64) :
    (-2 ^ 63 ≤ (fromTimestampNanos n).toSql ∧ (fromTimestampNanos n).toSql < 2 ^ 63) ∧
      ∃ t, DateTime.fromSql (fromTimestampNanos n).toSql = some t := by
  obtain ⟨hn, -⟩ := DateTime.ofNanos_eq_some (DateTime.ofNanos_i64 n)
  obtain ⟨n, hlo, hhi⟩ := n
  have hsql : (fromTimestampNanos ⟨n, hlo, hhi⟩).toSql.natAbs =
      (n - DateTime.sqlEpoch).natAbs / 1000 := by
    rw [DateTime.toSql, hn, Int.natAbs_tdiv]
    rfl
  have hepoch : DateTime.sqlEpoch = 946684800000000000 := by decide
  have hfirst : (newYear 1600 (by decide)).toSql = -12622780800000000 := by decide
  have hlast : (newYear 2400 (by decide)).toSql = 12622780800000000 := by decide
  have hwhole : ∀ y h, (newYear y h).Whole := fun _ _ => DateTime.whole_midnight
  refine ⟨by omega, DateTime.exists_fromSql (hwhole 1600 (by decide)) (hwhole 2400 (by decide))
    ?_ ?_⟩
  · omega
  · omega

/-- Fields in binary are read back. -/
theorem readBy_binary {fields : List FieldInfo} (h : ∀ field ∈ fields, field.format = .binary) :
    ReadBy encoder decode fields where
  text {i field} s hi htype := by
    obtain ⟨name, datatype, format⟩ := field
    obtain rfl : format = .binary := h _ (List.mem_of_getElem? hi)
    obtain rfl : datatype = .text := htype
    refine ⟨some (utf8 s), by simp only [encoder, hi], ?_⟩
    exact congrArg (Option.map FieldValue.text) (fromUtf8_utf8 s)
  bytea {i field} b hi htype := by
    obtain ⟨name, datatype, format⟩ := field
    obtain rfl : format = .binary := h _ (List.mem_of_getElem? hi)
    obtain rfl : datatype = .bytea := htype
    exact ⟨some b, by simp only [encoder, hi], rfl⟩
  timestamptz {i field} n hi htype := by
    obtain ⟨name, datatype, format⟩ := field
    obtain rfl : format = .binary := h _ (List.mem_of_getElem? hi)
    obtain rfl : datatype = .timestamptz := htype
    obtain ⟨⟨hlo, hhi⟩, t, ht⟩ := exists_fromSql_toSql n
    refine ⟨some (int8Bytes (fromTimestampNanos n).toSql), t, by simp only [encoder, hi], ?_,
      DateTime.whole_of_fromSql ht, fun hwhole => ?_⟩
    · have hread := (congrArg DateTime.fromSql (ofInt8Bytes_int8Bytes hlo hhi)).trans ht
      exact congrArg (Option.map FieldValue.timestamptz) hread
    · exact Option.some.inj (ht.symm.trans hwhole.fromSql_toSql)

end Sample

/-- One record, of which the time and the value are asked for, in binary. -/
theorem rows_return_of_record :
    ∃ batches fields rows,
      recordBatches .reference [Sample.record] (tableSchema Pulpitum.Sample.table) [3, 1] =
        pure batches ∧
      encodeRows Sample.encoder fields batches = .ok rows ∧
      List.Forall₂ (Returns Sample.decode fields [3, 1]) [Sample.record] rows := by
  have hfits : ∀ c ∈ chunks batchSize [Sample.record], BatchFits c := by
    intro c hc
    rw [Arrow.chunks_cons, List.drop_nil, Arrow.chunks_nil, List.mem_singleton] at hc
    subst hc
    exact ⟨by decide, by decide, by decide⟩
  have hread : ∀ fields, fieldsFromSchema (pick [3, 1] (tableSchema Pulpitum.Sample.table))
      (fun _ => .binary) = .ok fields → ReadBy Sample.encoder Sample.decode fields := by
    intro fields hfields
    refine Sample.readBy_binary ?_
    cases hfields
    decide
  obtain ⟨batches, fields, rows, hbatches, -, hrows, hiff⟩ := rows_return_iff
    Arrow.Library.reference_lawful hread (by decide)
    (List.forall_mem_singleton.mpr Sample.inserted_record)
    (List.forall_mem_singleton.mpr (by decide)) hfits
  exact ⟨batches, fields, rows, hbatches, hrows,
    hiff.mpr fun _ => List.forall_mem_singleton.mpr (by decide)⟩

end Sidecar
end Pulpitum
