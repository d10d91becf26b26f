import Mathlib
import Pulpitum.Support.Fallible
import Pulpitum.Support.Utf8

/-!
# Support — Arrow

Batches of rows stored by column.  A column holds values of its type, with `none` for null; the
columns of a batch are as long as each other and fit the fields of its schema.

* `chunks_flatten`, `length_of_mem_chunks`, `length_of_mem_dropLast`: a list cut into pieces of
  one length, and a shorter last one.
* `RecordBatch.rows_of_columns`: a batch made of columns has the rows the columns were made of.
* `Library`: the functions that make columns and batches, and what they are relied on for;
  `Library.reference_lawful`: it can be relied on.
-/

namespace Arrow
open Text (Byte utf8)
open Fallible

/-! ### Pieces of a list -/

section Chunks

variable {α : Type*}

/-- `chunks`: the list in pieces of `n` entries, the last one possibly shorter. -/
def chunks (n : ℕ) : List α → List (List α)
  | [] => []
  | a :: l => (a :: l.take (n - 1)) :: chunks n (l.drop (n - 1))
termination_by l => l.length

theorem chunks_nil (n : ℕ) : chunks n ([] : List α) = [] := by
  rw [chunks]

theorem chunks_cons (n : ℕ) (a : α) (l : List α) :
    chunks n (a :: l) = (a :: l.take (n - 1)) :: chunks n (l.drop (n - 1)) := by
  rw [chunks]

@[simp]
theorem chunks_flatten (n : ℕ) (l : List α) : (chunks n l).flatten = l := by
  induction l using chunks.induct n with
  | case1 => rw [chunks_nil, List.flatten_nil]
  | case2 a l ih =>
      rw [chunks_cons, List.flatten_cons, ih, List.cons_append, List.take_append_drop]

theorem length_of_mem_chunks {n : ℕ} (hn : 0 < n) {l c : List α} (h : c ∈ chunks n l) :
    0 < c.length ∧ c.length ≤ n := by
  induction l using chunks.induct n with
  | case1 =>
      rw [chunks_nil] at h
      exact absurd h List.not_mem_nil
  | case2 a l ih =>
      rw [chunks_cons] at h
      rcases List.mem_cons.mp h with rfl | h
      · simp only [List.length_cons, List.length_take]
        omega
      · exact ih h

/-- Only the last piece is shorter. -/
theorem length_of_mem_dropLast {n : ℕ} (hn : 0 < n) {l c : List α}
    (h : c ∈ (chunks n l).dropLast) : c.length = n := by
  induction l using chunks.induct n with
  | case1 =>
      rw [chunks_nil] at h
      exact absurd h List.not_mem_nil
  | case2 a l ih =>
      rw [chunks_cons] at h
      cases hrest : l.drop (n - 1) with
      | nil =>
          rw [hrest, chunks_nil] at h
          exact absurd h List.not_mem_nil
      | cons b l' =>
          have hlong : n - 1 < l.length := by
            have := congrArg List.length hrest
            rw [List.length_drop, List.length_cons] at this
            omega
          rw [List.dropLast_cons_of_ne_nil (by rw [hrest, chunks_cons]; exact List.cons_ne_nil _ _)]
            at h
          rcases List.mem_cons.mp h with rfl | h
          · simp only [List.length_cons, List.length_take]
            omega
          · exact ih h

theorem mem_of_mem_chunks {n : ℕ} {l c : List α} (h : c ∈ chunks n l) : ∀ a ∈ c, a ∈ l := by
  intro a ha
  rw [← chunks_flatten n l]
  exact List.mem_flatten_of_mem h ha

end Chunks

/-! ### Types and columns -/

/-- `TimeUnit`. -/
inductive TimeUnit where
  | second
  | millisecond
  | microsecond
  | nanosecond
deriving DecidableEq

/-- `DataType`. -/
inductive DataType where
  | boolean
  | int8
  | int16
  | int32
  | int64
  | uint8
  | uint16
  | uint32
  | uint64
  | float16
  | float32
  | float64
  | utf8
  | largeUtf8
  | binary
  | largeBinary
  | timestamp (unit : TimeUnit) (zone : Option String)
  | other (name : String)
deriving DecidableEq

/-- `Field`. -/
structure Field where
  name : String
  dataType : DataType
  nullable : Bool
deriving DecidableEq

abbrev Schema := List Field

/-- An `i64`. -/
abbrev Int64 := {n : ℤ // -2 ^ 63 ≤ n ∧ n < 2 ^ 63}

/-- A value that is not null. -/
inductive Cell where
  | text (s : String)
  | bytes (b : List Byte)
  | nanos (n : Int64)
  /-- A value of any other type, by what it prints as, if it prints. -/
  | other (printed : Option String)
deriving DecidableEq

/-- The value is one of the type. -/
def DataType.Holds : DataType → Cell → Prop
  | .utf8, c | .largeUtf8, c => ∃ s, c = .text s
  | .binary, c | .largeBinary, c => ∃ b, c = .bytes b
  | .timestamp .nanosecond _, c => ∃ n, c = .nanos n
  | _, c => ∃ printed, c = .other printed

/-- An array: its type, and its values. -/
structure Column where
  dataType : DataType
  values : List (Option Cell)
  typed : ∀ v ∈ values, ∀ c ∈ v, dataType.Holds c

theorem typed_of_cells {dataType : DataType} {cells : List Cell}
    (h : ∀ c ∈ cells, dataType.Holds c) : ∀ v ∈ cells.map some, ∀ c ∈ v, dataType.Holds c := by
  intro v hv c hc
  obtain ⟨c', hc', rfl⟩ := List.mem_map.mp hv
  cases hc
  exact h c hc'

/-- A column without nulls. -/
def Column.ofCells (dataType : DataType) (cells : List Cell)
    (h : ∀ c ∈ cells, dataType.Holds c) : Column :=
  ⟨dataType, cells.map some, typed_of_cells h⟩

theorem holds_text (values : List String) :
    ∀ c ∈ values.map Cell.text, DataType.utf8.Holds c := by
  intro c hc
  obtain ⟨s, -, rfl⟩ := List.mem_map.mp hc
  exact ⟨s, rfl⟩

theorem holds_bytes (values : List (List Byte)) :
    ∀ c ∈ values.map Cell.bytes, DataType.binary.Holds c := by
  intro c hc
  obtain ⟨b, -, rfl⟩ := List.mem_map.mp hc
  exact ⟨b, rfl⟩

theorem holds_nanos (zone : Option String) (values : List Int64) :
    ∀ c ∈ values.map Cell.nanos, (DataType.timestamp .nanosecond zone).Holds c := by
  intro c hc
  obtain ⟨n, -, rfl⟩ := List.mem_map.mp hc
  exact ⟨n, rfl⟩

/-- `i32::MAX`: the bytes that the offsets of an array can count. -/
def maxOffset : ℕ := 2 ^ 31 - 1

/-- The bytes of all values together can be counted. -/
def Counts (values : List (List Byte)) : Prop := (values.map List.length).sum ≤ maxOffset

instance : DecidablePred Counts := fun values => by unfold Counts; infer_instance

/-- `StringArray::from_iter_values`, which panics if the offsets overflow. -/
def stringArray (values : List String) : Option Column :=
  if Counts (values.map utf8) then
    some (.ofCells .utf8 (values.map .text) (holds_text values))
  else none

/-- `BinaryArray::from_iter_values`, which panics if the offsets overflow. -/
def binaryArray (values : List (List Byte)) : Option Column :=
  if Counts values then some (.ofCells .binary (values.map .bytes) (holds_bytes values)) else none

/-- `TimestampNanosecondArray::from_iter_values` and `with_timezone`. -/
def timestampNanosecondArray (values : List Int64) (zone : String) : Column :=
  .ofCells (.timestamp .nanosecond (some zone)) (values.map .nanos) (holds_nanos _ values)

/-- Values that are short enough are counted. -/
theorem counts_of_length_le {values : List (List Byte)} {m n : ℕ} (hn : values.length ≤ n)
    (hm : ∀ v ∈ values, v.length ≤ m) (h : n * m ≤ maxOffset) : Counts values := by
  have hsum : (values.map List.length).sum ≤ values.length * m := by
    have hle := List.sum_le_card_nsmul (values.map List.length) m (by
      intro k hk
      obtain ⟨v, hv, rfl⟩ := List.mem_map.mp hk
      exact hm v hv)
    rwa [List.length_map, smul_eq_mul] at hle
  exact hsum.trans ((Nat.mul_le_mul_right m hn).trans h)

/-! ### Batches -/

/-- The entries at the indices that have one. -/
def pick {α : Type*} (indices : List ℕ) (l : List α) : List α := indices.filterMap (l[·]?)

theorem pick_map {α β : Type*} (indices : List ℕ) (f : α → β) (l : List α) :
    pick indices (l.map f) = (pick indices l).map f := by
  simp only [pick, List.getElem?_map, List.map_filterMap]

/-- What is related to the entries at the indices is determined by what is related to each. -/
theorem eq_pick_of_forall₂ {α β : Type*} {R : α → β → Prop} {l : List α} {l' : List β}
    (hlength : l.length = l'.length) {indices : List ℕ} {bs : List β}
    (h : List.Forall₂ R (pick indices l) bs)
    (hR : ∀ i ∈ indices, ∀ a b b', l[i]? = some a → l'[i]? = some b' → R a b → b = b') :
    bs = pick indices l' := by
  induction indices generalizing bs with
  | nil =>
      cases h
      rfl
  | cons i indices ih =>
      obtain ⟨hi, hrest⟩ := List.forall_mem_cons.mp hR
      simp only [pick, List.filterMap_cons] at h ih ⊢
      by_cases hlt : i < l.length
      · have hlt' : i < l'.length := hlength ▸ hlt
        rw [List.getElem?_eq_getElem hlt] at h
        rw [List.getElem?_eq_getElem hlt']
        obtain ⟨b, bs, hab, hbs, rfl⟩ := List.forall₂_cons_left_iff.mp h
        rw [hi _ b _ (List.getElem?_eq_getElem hlt) (List.getElem?_eq_getElem hlt') hab]
        exact congrArg _ (ih hbs hrest)
      · rw [List.getElem?_eq_none (not_lt.mp hlt)] at h
        rw [List.getElem?_eq_none (hlength ▸ not_lt.mp hlt)]
        exact ih h hrest

/-- Picked entries are related one by one. -/
theorem rel_of_forall₂_pick {α β : Type*} {R : α → β → Prop} {l : List α} {l' : List β}
    (hlength : l.length = l'.length) {indices : List ℕ}
    (h : List.Forall₂ R (pick indices l) (pick indices l')) :
    ∀ i ∈ indices, ∀ a b, l[i]? = some a → l'[i]? = some b → R a b := by
  induction indices with
  | nil => exact fun i hi => absurd hi List.not_mem_nil
  | cons i indices ih =>
      simp only [pick, List.filterMap_cons] at h ih
      by_cases hlt : i < l.length
      · have hlt' : i < l'.length := hlength ▸ hlt
        rw [List.getElem?_eq_getElem hlt, List.getElem?_eq_getElem hlt'] at h
        obtain ⟨hfirst, hrest⟩ := List.forall₂_cons.mp h
        refine List.forall_mem_cons.mpr ⟨fun a b ha hb => ?_, ih hrest⟩
        rw [List.getElem?_eq_getElem hlt] at ha
        rw [List.getElem?_eq_getElem hlt'] at hb
        exact Option.some.inj ha ▸ Option.some.inj hb ▸ hfirst
      · rw [List.getElem?_eq_none (not_lt.mp hlt),
          List.getElem?_eq_none (hlength ▸ not_lt.mp hlt)] at h
        refine List.forall_mem_cons.mpr ⟨fun a b ha _ => ?_, ih h⟩
        rw [List.getElem?_eq_none (not_lt.mp hlt)] at ha
        cases ha

theorem mem_of_mem_pick {α : Type*} {indices : List ℕ} {l : List α} {a : α}
    (h : a ∈ pick indices l) : a ∈ l := by
  obtain ⟨i, -, hi⟩ := List.mem_filterMap.mp h
  exact List.mem_of_getElem? hi

/-- `Schema::project`. -/
def Schema.project (schema : Schema) (indices : List ℕ) : Option Schema :=
  if ∀ i ∈ indices, i < schema.length then some (pick indices schema) else none

/-- The column has the type of the field, `n` values, and a null only if the field allows it. -/
def Fits (n : ℕ) (field : Field) (column : Column) : Prop :=
  column.dataType = field.dataType ∧ column.values.length = n ∧
    (field.nullable = true ∨ none ∉ column.values)

instance (n : ℕ) (field : Field) (column : Column) : Decidable (Fits n field column) := by
  unfold Fits; infer_instance

/-- `RecordBatch`. -/
structure RecordBatch where
  columns : List (Field × Column)
  numRows : ℕ
  fit : ∀ p ∈ columns, Fits numRows p.1 p.2

namespace RecordBatch

/-- `schema`. -/
def schema (batch : RecordBatch) : Schema := batch.columns.map Prod.fst

/-- The values of one row. -/
def row (batch : RecordBatch) (i : ℕ) : List (Option Cell) :=
  batch.columns.map fun p => p.2.values[i]?.join

def rows (batch : RecordBatch) : List (List (Option Cell)) :=
  (List.range batch.numRows).map batch.row

/-- `try_new`: a batch has a column, and its columns fit the schema and each other. -/
def tryNew (schema : Schema) : List Column → Option RecordBatch
  | [] => none
  | first :: rest =>
      if h : schema.length = (first :: rest).length ∧
          ∀ p ∈ schema.zip (first :: rest), Fits first.values.length p.1 p.2 then
        some ⟨schema.zip (first :: rest), first.values.length, h.2⟩
      else none

theorem fit_pick (batch : RecordBatch) (indices : List ℕ) :
    ∀ p ∈ pick indices batch.columns, Fits batch.numRows p.1 p.2 :=
  fun p hp => batch.fit p (mem_of_mem_pick hp)

/-- `project`; a batch without columns keeps its number of rows. -/
def project (batch : RecordBatch) (indices : List ℕ) : Option RecordBatch :=
  if ∀ i ∈ indices, i < batch.columns.length then
    some ⟨pick indices batch.columns, batch.numRows, batch.fit_pick indices⟩
  else none

@[simp]
theorem length_rows (batch : RecordBatch) : batch.rows.length = batch.numRows := by
  simp [rows]

theorem tryNew_of_fits {schema : Schema} {columns : List Column} {n : ℕ}
    (hne : columns ≠ []) (h : List.Forall₂ (Fits n) schema columns) :
    ∃ batch, tryNew schema columns = some batch ∧ batch.schema = schema ∧
      batch.columns.map Prod.snd = columns ∧ batch.numRows = n := by
  obtain ⟨hlen, hzip⟩ := List.forall₂_iff_zip.mp h
  cases h with
  | nil => exact absurd rfl hne
  | @cons field first fields rest hfirst hrest =>
      obtain rfl : first.values.length = n := hfirst.2.1
      exact ⟨_, dif_pos ⟨hlen, fun p hp => hzip hp⟩, List.map_fst_zip hlen.le,
        List.map_snd_zip hlen.ge, rfl⟩

/-- **Projecting a batch projects its rows.** -/
theorem project_of_lt {batch : RecordBatch} {indices : List ℕ}
    (h : ∀ i ∈ indices, i < batch.columns.length) :
    ∃ batch', batch.project indices = some batch' ∧ batch'.schema = pick indices batch.schema ∧
      batch'.rows = batch.rows.map (pick indices) := by
  refine ⟨_, if_pos h, (pick_map ..).symm, ?_⟩
  simp only [rows, List.map_map]
  exact List.map_congr_left fun i _ => (pick_map ..).symm

/-- **The rows of a batch** whose columns list what the functions `fs` make of the entries of a
list. -/
theorem rows_of_columns {α : Type*} {batch : RecordBatch} {xs : List α}
    {fs : List (α → Option Cell)} (hn : batch.numRows = xs.length)
    (h : (batch.columns.map Prod.snd).map Column.values = fs.map fun f => xs.map f) :
    batch.rows = xs.map fun x => fs.map (· x) := by
  have hrow : ∀ i (hi : i < xs.length), batch.row i = fs.map (· xs[i]) := by
    intro i hi
    have hcols := congrArg (List.map fun values : List (Option Cell) => values[i]?.join) h
    rw [List.map_map, List.map_map, List.map_map] at hcols
    refine hcols.trans (List.map_congr_left fun f _ => ?_)
    simp [hi]
  refine List.ext_getElem (by simp [hn]) fun i hi hi' => ?_
  have hi'' : i < xs.length := by simpa using hi'
  simp [rows, hrow i hi'']

end RecordBatch

/-! ### The library -/

/-- The functions that make columns and batches. -/
structure Library where
  /-- `StringArray::from_iter_values`; `none` is a panic. -/
  stringArray : List String → Option Column
  /-- `BinaryArray::from_iter_values`; `none` is a panic. -/
  binaryArray : List (List Byte) → Option Column
  /-- `TimestampNanosecondArray::from_iter_values` and `with_timezone`. -/
  timestampNanosecondArray : List Int64 → String → Column
  /-- `RecordBatch::try_new`. -/
  tryNew : Schema → List Column → Option RecordBatch
  /-- `RecordBatch::project`. -/
  project : RecordBatch → List ℕ → Option RecordBatch

/-- What the library is relied on for: arrays list their values if offsets of 32 bits count their
bytes, columns that fit the schema make a batch, and a batch is projected to indices in range. -/
structure Library.Lawful (lib : Library) : Prop where
  stringArray : ∀ {values : List String} {column : Column}, lib.stringArray values = some column ↔
    Counts (values.map utf8) ∧ column = .ofCells .utf8 (values.map .text) (holds_text values)
  binaryArray : ∀ {values : List (List Byte)} {column : Column},
    lib.binaryArray values = some column ↔
      Counts values ∧ column = .ofCells .binary (values.map .bytes) (holds_bytes values)
  timestampNanosecondArray : ∀ (values : List Int64) (zone : String),
    lib.timestampNanosecondArray values zone =
      .ofCells (.timestamp .nanosecond (some zone)) (values.map .nanos) (holds_nanos _ values)
  tryNew : ∀ {schema : Schema} {columns : List Column} {n : ℕ}, columns ≠ [] →
    List.Forall₂ (Fits n) schema columns → ∃ batch, lib.tryNew schema columns = some batch ∧
      batch.schema = schema ∧ batch.columns.map Prod.snd = columns ∧ batch.numRows = n
  project : ∀ {batch : RecordBatch} {indices : List ℕ},
    (∀ i ∈ indices, i < batch.columns.length) → ∃ batch', lib.project batch indices = some batch' ∧
      batch'.schema = pick indices batch.schema ∧ batch'.rows = batch.rows.map (pick indices)

/-- The functions of this file. -/
def Library.reference : Library where
  stringArray := Arrow.stringArray
  binaryArray := Arrow.binaryArray
  timestampNanosecondArray := Arrow.timestampNanosecondArray
  tryNew := RecordBatch.tryNew
  project := RecordBatch.project

theorem Library.reference_lawful : Library.reference.Lawful where
  stringArray := by
    intro values column
    rw [eq_comm (a := column)]
    exact Option.ite_none_right_eq_some.trans (and_congr_right fun _ => Option.some_inj)
  binaryArray := by
    intro values column
    rw [eq_comm (a := column)]
    exact Option.ite_none_right_eq_some.trans (and_congr_right fun _ => Option.some_inj)
  timestampNanosecondArray _ _ := rfl
  tryNew := RecordBatch.tryNew_of_fits
  project := RecordBatch.project_of_lt

end Arrow
