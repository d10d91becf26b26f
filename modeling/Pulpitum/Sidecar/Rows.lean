import Mathlib
import Pulpitum.Support.Arrow
import Pulpitum.Adapters.CockroachTime
import Pulpitum.Sidecar.Statements

/-!
# Sidecar — Rows

What a client gets for the batches of a read: `fields_from_schema` describes their columns, and
`encode_rows` gives their values, one by one, to the encoder of the wire format, which is a
parameter.

* `fieldsFromSchema_format`: the fields do not depend on the formats but for them.
* `takes_of_encodeRows`: **rows are of the fields that were described.**
-/

namespace Pulpitum
namespace Sidecar
open Fallible
open Text (Byte)
open DateTime (fromTimestampNanos)
open Arrow (Schema DataType RecordBatch Cell)

/-! ### Fields -/

/-- `FieldFormat`. -/
inductive FieldFormat where
  | text
  | binary
deriving DecidableEq

/-- `Format`, by its `format_for`. -/
abbrev Format := ℕ → FieldFormat

/-- `Format::UnifiedText`. -/
def Format.unifiedText : Format := fun _ => .text

/-- `Type`, as far as results have it. -/
inductive ResultType where
  | text
  | bytea
  | timestamptz
  | bool
  | int2
  | int4
  | int8
  | numeric
  | float4
  | float8
deriving DecidableEq

/-- `FieldInfo`. -/
structure FieldInfo where
  name : String
  datatype : ResultType
  format : FieldFormat
deriving DecidableEq

/-- `pg_type`. -/
def pgType : DataType → Except Stop ResultType
  | .utf8 | .largeUtf8 => .ok .text
  | .binary | .largeBinary => .ok .bytea
  | .timestamp _ _ => .ok .timestamptz
  | .boolean => .ok .bool
  | .int8 | .int16 => .ok .int2
  | .int32 => .ok .int4
  | .int64 => .ok .int8
  | .uint8 | .uint16 | .uint32 => .ok .int8
  | .uint64 => .ok .numeric
  | .float16 | .float32 => .ok .float4
  | .float64 => .ok .float8
  | .other _ => .error (queryError "query result contains an unsupported data type")

/-- One field of `fields_from_schema`. -/
def fieldInfo (format : Format) (entry : Arrow.Field × ℕ) : Except Stop FieldInfo := do
  let datatype ← pgType entry.1.dataType
  return ⟨entry.1.name, datatype, format entry.2⟩

/-- `fields_from_schema`. -/
def fieldsFromSchema (schema : Schema) (format : Format) : Except Stop (List FieldInfo) :=
  schema.zipIdx.mapM (fieldInfo format)

/-- What a client is told about a field besides its format. -/
def FieldInfo.described (field : FieldInfo) : String × ResultType := (field.name, field.datatype)

/-- The fields of a schema do not depend on the format but for it. -/
theorem fieldsFromSchema_format {format : Format} (format' : Format) {fields : List FieldInfo}
    {schema : Schema} (h : fieldsFromSchema schema format = .ok fields) :
    ∃ fields', fieldsFromSchema schema format' = .ok fields' ∧
      fields'.map FieldInfo.described = fields.map FieldInfo.described := by
  have hall := forall₂_of_mapM_eq_ok h
  unfold fieldsFromSchema
  generalize schema.zipIdx = entries at hall
  clear h
  induction hall with
  | nil => exact ⟨[], rfl, rfl⟩
  | @cons entry info entries infos hinfo _ ih =>
      obtain ⟨infos', hinfos', hsame⟩ := ih
      obtain ⟨datatype, hpg, hinfo⟩ := ok_of_bind hinfo
      cases hinfo
      refine ⟨⟨entry.1.name, datatype, format' entry.2⟩ :: infos', ?_, ?_⟩
      · have hfirst : fieldInfo format' entry = .ok ⟨entry.1.name, datatype, format' entry.2⟩ :=
          bind_of_ok hpg rfl
        rw [List.mapM_cons, hfirst, ok_bind, hinfos']
        rfl
      · rw [List.map_cons, List.map_cons, hsame]
        rfl

/-! ### Rows -/

/-- What the encoder of a row is given for a field. -/
inductive FieldValue where
  | null
  | text (s : String)
  | bytea (b : List Byte)
  | timestamptz (t : DateTime)
deriving DecidableEq

/-- A field of a row, in bytes; `none` is NULL. -/
abbrev WireField := Option (List Byte)

abbrev DataRow := List WireField

/-- `DataRowEncoder` of pgwire: `encode_field` for the value at an index of a row of the fields. -/
structure RowEncoder where
  encodeField : List FieldInfo → ℕ → FieldValue → Except Stop WireField

/-- The error of `encode_rows`. -/
def notEncoded : Stop := queryError "query result could not be encoded"

section

variable (encoder : RowEncoder) (fields : List FieldInfo)

/-- A value of a type without an encoding of its own, which is printed, for a field in text. -/
def encodePrinted (index : ℕ) (printed : Option String) : Except Stop WireField :=
  match fields[index]? with
  | none => .error .panicked
  | some field =>
      if field.format = .text then
        match printed with
        | some value => encoder.encodeField fields index (.text value)
        | none => .error notEncoded
      else .error notEncoded

/-- The part of `encode_rows` for a field.  A value that is none of its column's type is one that
`downcast_ref` fails on. -/
def encodeField (index : ℕ) : DataType → Option Cell → Except Stop WireField
  | _, none => encoder.encodeField fields index .null
  | .utf8, some (.text s) | .largeUtf8, some (.text s) =>
      encoder.encodeField fields index (.text s)
  | .binary, some (.bytes b) | .largeBinary, some (.bytes b) =>
      encoder.encodeField fields index (.bytea b)
  | .timestamp .nanosecond _, some (.nanos n) =>
      encoder.encodeField fields index (.timestamptz (fromTimestampNanos n))
  | _, some (.other printed) => encodePrinted encoder fields index printed
  | _, some _ => .error notEncoded

/-- The part of `encode_rows` for a row. -/
def encodeRow (batch : RecordBatch) (row : ℕ) : Except Stop DataRow :=
  batch.columns.zipIdx.mapM fun p =>
    encodeField encoder fields p.2 p.1.2.dataType p.1.2.values[row]?.join

/-- `encode_rows`. -/
def encodeRows (batches : List RecordBatch) : Except Stop (List DataRow) := do
  let rows ← batches.mapM fun batch =>
    (List.range batch.numRows).mapM (encodeRow encoder fields batch)
  return rows.flatten

/-! ### What is described and what is returned -/

/-- The field of a row is the encoding of NULL, of a value of the type that is described, or, in
text, of the printed form of a value whose Arrow type is described as that type. -/
inductive Takes (entry : FieldInfo × ℕ) (x : WireField) : Prop where
  | null (h : encoder.encodeField fields entry.2 .null = .ok x)
  | text {s : String} (htype : entry.1.datatype = .text)
      (h : encoder.encodeField fields entry.2 (.text s) = .ok x)
  | bytea {b : List Byte} (htype : entry.1.datatype = .bytea)
      (h : encoder.encodeField fields entry.2 (.bytea b) = .ok x)
  | timestamptz {t : DateTime} (htype : entry.1.datatype = .timestamptz)
      (h : encoder.encodeField fields entry.2 (.timestamptz t) = .ok x)
  | printed {dataType : DataType} {s : String} (hvalue : dataType.Holds (.other (some s)))
      (htype : pgType dataType = .ok entry.1.datatype) (hformat : entry.1.format = .text)
      (h : encoder.encodeField fields entry.2 (.text s) = .ok x)

end

section Takes

variable {encoder : RowEncoder} {all : List FieldInfo}

/-- The encoding of a value is one of the type of its field. -/
theorem takes_of_encodeField {entry : FieldInfo × ℕ} {dataType : DataType} {cell : Option Cell}
    {x : WireField} (hfield : pgType dataType = .ok entry.1.datatype)
    (hentry : all[entry.2]? = some entry.1) (htyped : ∀ c ∈ cell, dataType.Holds c)
    (h : encodeField encoder all entry.2 dataType cell = .ok x) : Takes encoder all entry x := by
  unfold encodeField at h
  split at h
  · exact .null h
  · exact .text (Except.ok.inj hfield).symm h
  · exact .text (Except.ok.inj hfield).symm h
  · exact .bytea (Except.ok.inj hfield).symm h
  · exact .bytea (Except.ok.inj hfield).symm h
  · exact .timestamptz (Except.ok.inj hfield).symm h
  · rename_i printed
    unfold encodePrinted at h
    rw [hentry] at h
    dsimp only at h
    split at h
    · rename_i htext
      cases printed with
      | none => cases h
      | some s => exact .printed (htyped _ rfl) hfield htext h
    · cases h
  · cases h

/-- A row is encoded in the order of its fields. -/
theorem takes_of_encodeRow {format : Format} {i : ℕ} :
    ∀ {columns : List (Arrow.Field × Arrow.Column)} {schema : Schema} {k : ℕ}
      {fields : List FieldInfo} {row : DataRow},
      (schema.zipIdx k).mapM (fieldInfo format) = .ok fields →
      columns.map (fun p => p.2.dataType) = schema.map Arrow.Field.dataType →
      (columns.zipIdx k).mapM (fun p =>
        encodeField encoder all p.2 p.1.2.dataType p.1.2.values[i]?.join) = .ok row →
      (∀ j, j < fields.length → all[k + j]? = fields[j]?) →
      List.Forall₂ (Takes encoder all) (fields.zipIdx k) row := by
  intro columns
  induction columns with
  | nil =>
      intro schema k fields row hfields htypes hrow _
      cases schema with
      | nil =>
          cases hfields
          cases hrow
          exact .nil
      | cons field schema => cases htypes
  | cons column columns ih =>
      intro schema k fields row hfields htypes hrow hall
      cases schema with
      | nil => cases htypes
      | cons field schema =>
          rw [List.zipIdx_cons, List.mapM_cons] at hfields hrow
          obtain ⟨info, hinfo, hfields⟩ := ok_of_bind hfields
          obtain ⟨infos, hinfos, hfields⟩ := ok_of_bind hfields
          obtain ⟨value, hvalue, hrow⟩ := ok_of_bind hrow
          obtain ⟨values, hvalues, hrow⟩ := ok_of_bind hrow
          cases hfields
          cases hrow
          obtain ⟨htype, htypes⟩ := List.cons.inj htypes
          obtain ⟨datatype, hpg, hinfo⟩ := ok_of_bind hinfo
          cases hinfo
          have hfirst := hall 0 (Nat.zero_lt_succ _)
          have htyped : ∀ c ∈ column.2.values[i]?.join, column.2.dataType.Holds c := by
            intro c hc
            exact column.2.typed _ (List.mem_of_getElem? (Option.join_eq_some_iff.mp hc)) c rfl
          dsimp only at htype hvalue
          rw [List.zipIdx_cons]
          refine .cons (takes_of_encodeField (htype ▸ hpg) hfirst htyped hvalue)
            (ih hinfos htypes hvalues fun j hj => ?_)
          have hnext := hall (j + 1) (Nat.succ_lt_succ hj)
          rwa [List.getElem?_cons_succ, ← Nat.add_assoc, Nat.add_right_comm] at hnext

/-- **Rows are of the fields that were described.** -/
theorem takes_of_encodeRows {schema : Schema} {format : Format} {fields : List FieldInfo}
    {batches : List RecordBatch} {rows : List DataRow}
    (hfields : fieldsFromSchema schema format = .ok fields)
    (hbatches : ∀ batch ∈ batches,
      batch.schema.map Arrow.Field.dataType = schema.map Arrow.Field.dataType)
    (h : encodeRows encoder fields batches = .ok rows) :
    ∀ row ∈ rows, List.Forall₂ (Takes encoder fields) fields.zipIdx row := by
  obtain ⟨pages, hpages, h⟩ := ok_of_bind h
  cases h
  intro row hrow
  obtain ⟨page, hpage, hrow⟩ := List.mem_flatten.mp hrow
  obtain ⟨batch, hbatch, henc⟩ := mem_of_mapM_eq_ok hpages page hpage
  obtain ⟨i, -, hi⟩ := mem_of_mapM_eq_ok henc row hrow
  have htypes : batch.columns.map (fun p => p.2.dataType) = schema.map Arrow.Field.dataType := by
    rw [← hbatches batch hbatch, RecordBatch.schema, List.map_map]
    exact List.map_congr_left fun p hp => (batch.fit p hp).1
  exact takes_of_encodeRow hfields htypes hi fun j _ => by rw [Nat.zero_add]

end Takes

namespace Sample
open Text (utf8 hexEncode)

/-- The last `k` bytes of a number, the highest first. -/
def beBytes : ℕ → ℕ → List Byte
  | 0, _ => []
  | k + 1, n => beBytes k (n / 256) ++ [Fin.ofNat 256 n]

/-- The eight bytes of an `i64`. -/
def int8Bytes (m : ℤ) : List Byte := beBytes 8 (m % 2 ^ 64).toNat

/-- The encoder, but for times in text: texts as they are, bytes in hexadecimal or as they are, and
a time by its microseconds since 2000. -/
def encoder : RowEncoder where
  encodeField fields index value :=
    match fields[index]?, value with
    | none, _ => .error .panicked
    | some _, .null => .ok none
    | some _, .text s => .ok (some (utf8 s))
    | some ⟨_, _, .text⟩, .bytea b => .ok (some (utf8 ("\\x" ++ hexEncode b)))
    | some ⟨_, _, .binary⟩, .bytea b => .ok (some b)
    | some ⟨_, _, .text⟩, .timestamptz _ => .error notEncoded
    | some ⟨_, _, .binary⟩, .timestamptz t => .ok (some (int8Bytes t.toSql))

end Sample

end Sidecar
end Pulpitum
