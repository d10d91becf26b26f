import Mathlib
import Pulpitum.Support.Fallible
import Pulpitum.Support.Text
import Pulpitum.Support.Radix
import Pulpitum.Domain.Model
import Pulpitum.Sidecar.Statements
import Pulpitum.Sidecar.Literals

/-!
# Sidecar — Binding

INSERTs with parameters.  The types are found in one pass over the columns and the values are
fetched in another, by the indices of the placeholders.

* `insertParameterTypes_spec`, `exists_insertParameterTypes`: the types of the parameters.
* `parseBoundInsert_congr`: **only the parameters of the statement are read.**
* `parseBoundInsert_agrees`: **a bound INSERT and a literal one give the same record.**
-/

namespace Pulpitum
namespace Sidecar
open Fallible Text Radix

/-! ### Placeholders -/

/-- `parse::<usize>()`, without 0. -/
def parsePositive (text : List Char) : Option ℕ := do
  let index ← fromStrRadix 10 (2 ^ 64) text
  if 0 < index.val then some index.val else none

/-- The number after the dollar sign. -/
def placeholderNumber (name : String) : Option ℕ :=
  (['$'].isPrefixOf? name.toList).bind parsePositive

/-- `placeholder_index`. -/
def placeholderIndex : Expr → Except Stop (Option ℕ)
  | .value (.placeholder name) =>
      match placeholderNumber name with
      | some index => .ok (some index)
      | none => .error (queryError "SQL parameters must use positional $n placeholders")
  | _ => .ok none

/-! ### The types of the parameters -/

/-- The columns of the table, each with the type of its parameter. -/
inductive Column where
  | channelId
  | timestamp
  | id
  | value
deriving DecidableEq

namespace Column

def name : Column → String
  | channelId => "channel_id"
  | timestamp => "timestamp"
  | id => "id"
  | value => "value"

def parameterType : Column → PgType
  | channelId => .text
  | timestamp => .timestamptz
  | id => .text
  | value => .bytea

/-- The columns in the order in which they are looked at. -/
def all : List Column := [channelId, timestamp, id, value]

instance : Fintype Column where
  elems := {channelId, timestamp, id, value}
  complete c := by cases c <;> decide

/-- The index of the placeholder that stands for the column, if one does. -/
def index (values : Values) (c : Column) : Except Stop (Option ℕ) :=
  column values c.name >>= placeholderIndex

end Column

/-- The types of the indices seen so far. -/
abbrev Types := Finmap fun _ : ℕ => PgType

/-- The type of one more index. -/
def addType (types : Types) (parameterType : PgType) : Option ℕ → Except Stop Types
  | none => .ok types
  | some index => do
      ensure (∀ existing ∈ types.lookup index, existing = parameterType)
        (queryError "a parameter cannot be used for different column types")
      return types.insert index parameterType

/-- One round of the loop over the columns. -/
def insertType (values : Values) (types : Types) (c : Column) : Except Stop Types :=
  c.index values >>= addType types c.parameterType

/-- The types of the indices, each of them removed when it is asked for. -/
def takeTypes : List ℕ → Types → Except Stop (List PgType)
  | [], _ => .ok []
  | index :: indices, types =>
      match types.lookup index with
      | some parameterType => do
          let rest ← takeTypes indices (types.erase index)
          return parameterType :: rest
      | none => .error (queryError "SQL parameters must be consecutively numbered")

/-- `insert_parameter_types`. -/
def insertParameterTypes (values : Values) : Except Stop (List PgType) := do
  let types ← Column.all.foldlM (insertType values) ∅
  let highest := types.keys.sup id
  takeTypes (List.range' 1 highest) types

/-! ### The values of the parameters -/

/-- `Portal`: the number of its parameters, and what they are decoded to as `TEXT`, as
`TIMESTAMPTZ` (in UTC) and as `BYTEA`, from index 0. -/
structure Portal where
  parameterLen : ℕ
  text : ℕ → Except Stop (Option String)
  timestamptz : ℕ → Except Stop (Option DateTime)
  bytea : ℕ → Except Stop (Option (List Byte))

/-- `validate_parameter_count`. -/
def validateParameterCount (portal : Portal) (expected : ℕ) : Except Stop Unit :=
  ensure (portal.parameterLen = expected)
    (queryError "SQL bind parameter count does not match the statement")

/-- `required_parameter`. -/
def requiredParameter {α : Type} : Option α → Except Stop α
  | some value => .ok value
  | none => .error (queryError "SQL bind parameters cannot be NULL")

/-- The parameter of the placeholder, or the literal. -/
def boundValue {α : Type} (literal : Expr → Except Stop α)
    (parameter : ℕ → Except Stop (Option α)) (expression : Expr) : Except Stop α := do
  match ← placeholderIndex expression with
  | some index => parameter (index - 1) >>= requiredParameter
  | none => literal expression

/-- `string_value`. -/
def stringValue (expression : Expr) (portal : Portal) : Except Stop String :=
  boundValue stringLiteral portal.text expression

/-- `timestamp_value`. -/
def timestampValue (parseRfc3339 : String → Option DateTime) (expression : Expr)
    (portal : Portal) : Except Stop DateTime :=
  boundValue (timestampLiteral parseRfc3339) portal.timestamptz expression

/-- `bytea_value`. -/
def byteaValue (expression : Expr) (portal : Portal) : Except Stop (List Byte) :=
  boundValue byteaLiteral portal.bytea expression

/-- `parse_bound_insert`. -/
def parseBoundInsert (parse : SqlParser) (parseRfc3339 : String → Option DateTime)
    (statement expectedTable : String) (portal : Portal) : Except Stop Record := do
  let values ← parseInsertValues parse statement expectedTable
  let parameterTypes ← insertParameterTypes values
  validateParameterCount portal parameterTypes.length
  readRecord values (stringValue · portal) (timestampValue parseRfc3339 · portal)
    (byteaValue · portal)

/-! ### Which types are found -/

section Types

variable {values : Values} {types types' : Types} {cs : List Column} {ts : List PgType}

theorem addType_eq_ok_iff {t : PgType} {i : ℕ} :
    addType types t (some i) = .ok types' ↔
      (∀ existing ∈ types.lookup i, existing = t) ∧ types' = types.insert i t := by
  constructor
  · intro h
    obtain ⟨_, hsame, h⟩ := ok_of_bind h
    cases h
    exact ⟨ensure_eq_ok.mp hsame, rfl⟩
  · rintro ⟨hsame, rfl⟩
    exact bind_of_ok (ensure_of hsame) rfl

/-- The map holds the types of the indices of these columns. -/
structure Typed (values : Values) (cs : List Column) (types : Types) : Prop where
  read : ∀ c ∈ cs, ∃ o, c.index values = .ok o
  lookup : ∀ i t, types.lookup i = some t ↔
    ∃ c ∈ cs, c.index values = .ok (some i) ∧ c.parameterType = t

theorem Typed.nil : Typed values [] ∅ where
  read _ h := absurd h List.not_mem_nil
  lookup i t := by simp

theorem Typed.snoc {c : Column} {o : Option ℕ} (h : Typed values cs types)
    (ho : c.index values = .ok o) (hadd : addType types c.parameterType o = .ok types') :
    Typed values (cs ++ [c]) types' := by
  refine ⟨fun c' hc' => ?_, fun i t => ?_⟩
  · rcases List.mem_append.mp hc' with hc' | hc'
    · exact h.read c' hc'
    · rw [List.mem_singleton.mp hc']
      exact ⟨o, ho⟩
  · have hsplit : (∃ c' ∈ cs ++ [c], c'.index values = .ok (some i) ∧ c'.parameterType = t) ↔
        types.lookup i = some t ∨ (o = some i ∧ c.parameterType = t) := by
      rw [h.lookup]
      simp [or_and_right, exists_or, ho]
    rw [hsplit]
    cases o with
    | none =>
        cases hadd
        simp
    | some j =>
        obtain ⟨hsame, rfl⟩ := addType_eq_ok_iff.mp hadd
        by_cases hij : i = j
        · subst hij
          rw [Finmap.lookup_insert]
          constructor
          · exact fun ht => .inr ⟨rfl, Option.some.inj ht⟩
          · rintro (ht | ⟨-, rfl⟩)
            · rw [hsame t ht]
            · rfl
        · rw [Finmap.lookup_insert_of_ne _ hij]
          simp [show j ≠ i from fun h => hij h.symm]

theorem typed_of_foldlM (h : cs.foldlM (insertType values) ∅ = .ok types) :
    Typed values cs types := by
  induction cs using List.reverseRecOn generalizing types with
  | nil =>
      cases h
      exact .nil
  | append_singleton cs c ih =>
      rw [List.foldlM_append] at h
      obtain ⟨types₁, h₁, h⟩ := ok_of_bind h
      obtain ⟨types₂, h₂, h⟩ := ok_of_bind h
      cases h
      obtain ⟨o, ho, hadd⟩ := ok_of_bind h₂
      exact (ih h₁).snoc ho hadd

/-- The loop ends if every index can be read and no index has two types. -/
theorem exists_foldlM (hread : ∀ c ∈ cs, ∃ o, c.index values = .ok o)
    (hsame : ∀ c ∈ cs, ∀ c' ∈ cs, ∀ i, c.index values = .ok (some i) →
      c'.index values = .ok (some i) → c.parameterType = c'.parameterType) :
    ∃ types, cs.foldlM (insertType values) ∅ = .ok types := by
  induction cs using List.reverseRecOn with
  | nil => exact ⟨∅, rfl⟩
  | append_singleton cs c ih =>
      have hsub : ∀ c' ∈ cs, c' ∈ cs ++ [c] := fun c' hc' => List.mem_append_left _ hc'
      have hlast : c ∈ cs ++ [c] := List.mem_append_right _ (List.mem_singleton_self c)
      obtain ⟨types, htypes⟩ := ih (fun c' hc' => hread c' (hsub c' hc'))
        fun c₁ h₁ c₂ h₂ => hsame c₁ (hsub c₁ h₁) c₂ (hsub c₂ h₂)
      obtain ⟨o, ho⟩ := hread c hlast
      have hadd : ∃ types', addType types c.parameterType o = .ok types' := by
        cases o with
        | none => exact ⟨types, rfl⟩
        | some i =>
            refine ⟨_, addType_eq_ok_iff.mpr ⟨fun t ht => ?_, rfl⟩⟩
            obtain ⟨c', hc', hi, rfl⟩ := ((typed_of_foldlM htypes).lookup i t).mp ht
            exact hsame c' (hsub c' hc') c hlast i hi ho
      obtain ⟨types', hadd⟩ := hadd
      refine ⟨types', ?_⟩
      rw [List.foldlM_append]
      refine bind_of_ok htypes (bind_of_ok ?_ rfl)
      exact bind_of_ok ho hadd

/-- Each index has its type. -/
theorem takeTypes_eq_ok_iff {l : List ℕ} (h : l.Nodup) :
    takeTypes l types = .ok ts ↔ l.map types.lookup = ts.map some := by
  induction l generalizing types ts with
  | nil => cases ts <;> simp [takeTypes]
  | cons i l ih =>
      obtain ⟨hi, hl⟩ := List.nodup_cons.mp h
      have herase : l.map (types.erase i).lookup = l.map types.lookup := by
        refine List.map_congr_left fun j hj => Finmap.lookup_erase_ne ?_
        rintro rfl
        exact hi hj
      rw [takeTypes, List.map_cons]
      cases hlookup : types.lookup i with
      | none => cases ts <;> simp
      | some t =>
          constructor
          · intro hok
            obtain ⟨rest, hrest, hok⟩ := ok_of_bind hok
            cases hok
            rw [← herase, (ih hl).mp hrest, List.map_cons]
          · intro hmap
            cases ts with
            | nil => cases hmap
            | cons t' rest =>
                rw [List.map_cons, List.cons.injEq, ← herase] at hmap
                cases hmap.1
                exact bind_of_ok ((ih hl).mpr hmap.2) rfl

theorem pos_of_parsePositive {text : List Char} {i : ℕ} (h : parsePositive text = some i) :
    0 < i := by
  obtain ⟨index, -, hpos⟩ := Option.bind_eq_some_iff.mp h
  split at hpos
  case isTrue hpos' =>
    cases hpos
    exact hpos'
  case isFalse => cases hpos

/-- Digits are read as the number they denote, from 1 up to the bound. -/
theorem parsePositive_of_isDigit {digits : List Char} (hne : digits ≠ [])
    (hdigits : ∀ c ∈ digits, c.isDigit) :
    parsePositive digits =
      if 0 < Nat.ofDigitChars 10 digits 0 ∧ Nat.ofDigitChars 10 digits 0 < 2 ^ 64 then
        some (Nat.ofDigitChars 10 digits 0)
      else none := by
  have hparse : parsePositive digits = ((fromStrRadix 10 (2 ^ 64) digits).map Fin.val).bind
      fun n => if 0 < n then some n else none := by
    rw [parsePositive, Option.bind_map]
    rfl
  rw [hparse, fromStrRadix_of_isDigit _ hne hdigits]
  by_cases hlt : Nat.ofDigitChars 10 digits 0 < 2 ^ 64
  · rw [if_pos hlt, Option.bind_some]
    by_cases hpos : 0 < Nat.ofDigitChars 10 digits 0
    · rw [if_pos hpos, if_pos ⟨hpos, hlt⟩]
    · rw [if_neg hpos, if_neg fun h => hpos h.1]
  · rw [if_neg hlt, if_neg fun h => hlt h.2]
    rfl

theorem pos_of_placeholderIndex {e : Expr} {i : ℕ} (h : placeholderIndex e = .ok (some i)) :
    0 < i := by
  unfold placeholderIndex at h
  split at h
  case h_2 => cases h
  case h_1 name =>
    cases hnumber : placeholderNumber name with
    | none => rw [hnumber] at h; cases h
    | some j =>
        rw [hnumber] at h
        cases h
        obtain ⟨digits, -, hindex⟩ := Option.bind_eq_some_iff.mp hnumber
        exact pos_of_parsePositive hindex

/-- The types are those of the columns, and they are as many as there are indices. -/
structure Numbered (values : Values) (ts : List PgType) : Prop where
  read : ∀ c : Column, ∃ o, c.index values = .ok o
  indices : ∀ i, (∃ c : Column, c.index values = .ok (some i)) ↔ 1 ≤ i ∧ i ≤ ts.length
  types : ∀ (c : Column) i, c.index values = .ok (some i) → ts[i - 1]? = some c.parameterType

theorem Column.mem_all (c : Column) : c ∈ Column.all := by cases c <;> decide

theorem insertParameterTypes_spec (h : insertParameterTypes values = .ok ts) :
    Numbered values ts := by
  obtain ⟨types, hfold, htake⟩ := ok_of_bind h
  have htyped := typed_of_foldlM hfold
  have hmap := (takeTypes_eq_ok_iff List.nodup_range').mp htake
  have hlength : types.keys.sup id = ts.length := by simpa using congrArg List.length hmap
  have hget : ∀ i, 1 ≤ i → i ≤ ts.length → ∃ t, ts[i - 1]? = some t ∧ types.lookup i = some t := by
    intro i h₁ h₂
    have hlt : i - 1 < ts.length := by omega
    have hi : 1 + 1 * (i - 1) = i := by omega
    have hat := congrArg (·[i - 1]?) hmap
    simp only [List.getElem?_map, List.getElem?_range' (hlength ▸ hlt), Option.map_some, hi,
      List.getElem?_eq_getElem hlt, Option.some.injEq] at hat
    exact ⟨_, List.getElem?_eq_getElem hlt, hat⟩
  have hbounds : ∀ (c : Column) i, c.index values = .ok (some i) → 1 ≤ i ∧ i ≤ ts.length := by
    intro c i hc
    obtain ⟨e, -, hi⟩ := ok_of_bind hc
    have hlookup := (htyped.lookup i _).mpr ⟨c, c.mem_all, hc, rfl⟩
    have hkey : i ∈ types.keys := Finmap.mem_keys.mpr (Finmap.mem_of_lookup_eq_some hlookup)
    exact ⟨pos_of_placeholderIndex hi, hlength ▸ Finset.le_sup (f := id) hkey⟩
  refine ⟨fun c => htyped.read c c.mem_all, fun i => ⟨?_, ?_⟩, fun c i hc => ?_⟩
  · rintro ⟨c, hc⟩
    exact hbounds c i hc
  · rintro ⟨h₁, h₂⟩
    obtain ⟨t, -, ht⟩ := hget i h₁ h₂
    obtain ⟨c, -, hc, -⟩ := (htyped.lookup i t).mp ht
    exact ⟨c, hc⟩
  · obtain ⟨h₁, h₂⟩ := hbounds c i hc
    obtain ⟨t, hts, ht⟩ := hget i h₁ h₂
    rw [(htyped.lookup i _).mpr ⟨c, c.mem_all, hc, rfl⟩] at ht
    rw [hts, ht]

theorem exists_insertParameterTypes {n : ℕ} (hread : ∀ c : Column, ∃ o, c.index values = .ok o)
    (hindices : ∀ i, (∃ c : Column, c.index values = .ok (some i)) ↔ 1 ≤ i ∧ i ≤ n)
    (hsame : ∀ (c c' : Column) i, c.index values = .ok (some i) → c'.index values = .ok (some i) →
      c.parameterType = c'.parameterType) :
    ∃ ts, insertParameterTypes values = .ok ts := by
  obtain ⟨types, hfold⟩ := exists_foldlM (fun c (_ : c ∈ Column.all) => hread c)
    fun c _ c' _ => hsame c c'
  have htyped := typed_of_foldlM hfold
  have hsup : types.keys.sup id ≤ n := by
    refine Finset.sup_le fun i hi => ?_
    obtain ⟨t, ht⟩ := Finmap.mem_iff.mp (Finmap.mem_keys.mp hi)
    obtain ⟨c, -, hc, -⟩ := (htyped.lookup i t).mp ht
    exact ((hindices i).mp ⟨c, hc⟩).2
  have hfound : ∀ i ∈ List.range' 1 (types.keys.sup id), ∃ t, types.lookup i = some t := by
    intro i hi
    obtain ⟨h₁, h₂⟩ := List.mem_range'_1.mp hi
    obtain ⟨c, hc⟩ := (hindices i).mpr ⟨h₁, by omega⟩
    exact ⟨_, (htyped.lookup i _).mpr ⟨c, c.mem_all, hc, rfl⟩⟩
  refine ⟨(List.range' 1 (types.keys.sup id)).map fun i => (types.lookup i).getD .text,
    bind_of_ok hfold ((takeTypes_eq_ok_iff List.nodup_range').mpr ?_)⟩
  rw [List.map_map]
  refine List.map_congr_left fun i hi => ?_
  obtain ⟨t, ht⟩ := hfound i hi
  simp [ht]

end Types

/-! ### Which parameters are read -/

/-- Both portals have the same parameter at `i`. -/
def Portal.SameAt (portal portal' : Portal) (i : ℕ) : Prop :=
  portal.text i = portal'.text i ∧ portal.timestamptz i = portal'.timestamptz i ∧
    portal.bytea i = portal'.bytea i

theorem boundValue_congr {α : Type} {literal : Expr → Except Stop α}
    {parameter parameter' : ℕ → Except Stop (Option α)} {e : Expr}
    (h : ∀ i, placeholderIndex e = .ok (some i) → parameter (i - 1) = parameter' (i - 1)) :
    boundValue literal parameter e = boundValue literal parameter' e := by
  unfold boundValue
  cases hindex : placeholderIndex e with
  | error => rfl
  | ok o =>
      cases o with
      | none => rfl
      | some i =>
          simp only [ok_bind]
          rw [h i hindex]

theorem column_bind_congr {α : Type} {values : Values} {name : String}
    {f g : Expr → Except Stop α} (h : ∀ e, column values name = .ok e → f e = g e) :
    (column values name >>= f) = (column values name >>= g) := by
  cases hcolumn : column values name with
  | error => rfl
  | ok e => exact h e hcolumn

theorem readRecord_congr {values : Values} {string string' : Expr → Except Stop String}
    {timestamp timestamp' : Expr → Except Stop DateTime}
    {bytea bytea' : Expr → Except Stop (List Byte)}
    (h₁ : ∀ e, column values "channel_id" = .ok e → string e = string' e)
    (h₂ : ∀ e, column values "timestamp" = .ok e → timestamp e = timestamp' e)
    (h₃ : ∀ e, column values "id" = .ok e → string e = string' e)
    (h₄ : ∀ e, column values "value" = .ok e → bytea e = bytea' e) :
    readRecord values string timestamp bytea = readRecord values string' timestamp' bytea' := by
  rw [readRecord, readRecord, column_bind_congr h₁, column_bind_congr h₂, column_bind_congr h₃,
    column_bind_congr h₄]

/-- **Only the parameters of the statement are read.** -/
theorem parseBoundInsert_congr {parse : SqlParser} {parseRfc3339 : String → Option DateTime}
    {statement expectedTable : String} {values : Values} {portal portal' : Portal}
    (hvalues : parseInsertValues parse statement expectedTable = .ok values)
    (hlen : portal.parameterLen = portal'.parameterLen)
    (hsame : ∀ ts, insertParameterTypes values = .ok ts →
      ∀ i < ts.length, portal.SameAt portal' i) :
    parseBoundInsert parse parseRfc3339 statement expectedTable portal =
      parseBoundInsert parse parseRfc3339 statement expectedTable portal' := by
  unfold parseBoundInsert validateParameterCount
  rw [hvalues, ok_bind, ok_bind, hlen]
  cases htypes : insertParameterTypes values with
  | error => rfl
  | ok ts =>
      have hread : ∀ (c : Column) e, column values c.name = .ok e →
          ∀ i, placeholderIndex e = .ok (some i) → portal.SameAt portal' (i - 1) := by
        intro c e hcolumn i hi
        obtain ⟨h₁, h₂⟩ := ((insertParameterTypes_spec htypes).indices i).mp
          ⟨c, bind_of_ok hcolumn hi⟩
        exact hsame ts htypes (i - 1) (by omega)
      rw [ok_bind, ok_bind]
      refine congrArg _ (funext fun _ => readRecord_congr ?_ ?_ ?_ ?_)
      · exact fun e he => boundValue_congr fun i hi => (hread .channelId e he i hi).1
      · exact fun e he => boundValue_congr fun i hi => (hread .timestamp e he i hi).2.1
      · exact fun e he => boundValue_congr fun i hi => (hread .id e he i hi).1
      · exact fun e he => boundValue_congr fun i hi => (hread .value e he i hi).2.2

/-! ### Records written into statements -/

/-- A placeholder with the index `i`, in decimal digits. -/
def IsPlaceholder (i : ℕ) (e : Expr) : Prop :=
  ∃ digits : List Char, e = .value (.placeholder (String.ofList ('$' :: digits))) ∧ digits ≠ [] ∧
    (∀ c ∈ digits, c.isDigit) ∧ Nat.ofDigitChars 10 digits 0 = i

/-- The literal of a field of the record.  Keys are texts, the time is a text that is read as it,
and the value is written in hexadecimal. -/
def IsLiteral (parseRfc3339 : String → Option DateTime) (r : Record) : Column → Expr → Prop
  | .channelId, e => ∃ quoting text, e = textLiteral quoting text ∧ utf8 text = r.partitionKey
  | .timestamp, e => ∃ precision zone quoting text, (zone = .tz ∨ zone = .withTimeZone) ∧
      e = .typedString (.timestamp precision zone) (.text quoting text) ∧
      parseRfc3339 text = some r.eventTime
  | .id, e => ∃ quoting text, e = textLiteral quoting text ∧ utf8 text = r.sortKey
  | .value, e => ∃ quoting,
      e = textLiteral quoting (String.ofList (hexMarker ++ hexDigits r.value))

/-- The row of a record: a column has the placeholder with the index that it uses, or the literal
of its field if it uses none. -/
def Written (parseRfc3339 : String → Option DateTime) (r : Record) (use : Column → Option ℕ)
    (row : Column → Expr) : Prop :=
  ∀ c, (∀ i, use c = some i → IsPlaceholder i (row c)) ∧
    (use c = none → IsLiteral parseRfc3339 r c (row c))

/-- The parameters have the values of the fields. -/
structure Binds (portal : Portal) (use : Column → Option ℕ) (r : Record) : Prop where
  channelId : ∀ i, use .channelId = some i →
    ∃ text, portal.text (i - 1) = .ok (some text) ∧ utf8 text = r.partitionKey
  timestamp : ∀ i, use .timestamp = some i → portal.timestamptz (i - 1) = .ok (some r.eventTime)
  id : ∀ i, use .id = some i → ∃ text, portal.text (i - 1) = .ok (some text) ∧ utf8 text = r.sortKey
  value : ∀ i, use .value = some i → portal.bytea (i - 1) = .ok (some r.value)

/-- The statement is an INSERT of the row, with the columns in any order. -/
def Inserts (parse : SqlParser) (statement expectedTable : String) (row : Column → Expr) : Prop :=
  ∃ insert, parse statement = some [.insert insert] ∧ insert.Shaped expectedTable ∧
    ∀ entry ∈ insert.entries, ∀ c : Column, columnOf entry = c.name → entry.2 = row c

/-- The columns of the row, as they are found. -/
theorem Inserts.values {parse : SqlParser} {statement expectedTable : String}
    {row : Column → Expr} (h : Inserts parse statement expectedTable row) :
    ∃ values, parseInsertValues parse statement expectedTable = .ok values ∧
      ∀ c : Column, column values c.name = .ok (row c) := by
  obtain ⟨insert, hparse, hshaped, hrow⟩ := h
  refine ⟨_, parseInsertValues_eq_ok_iff.mpr ⟨insert, hparse, hshaped, rfl⟩, fun c => ?_⟩
  have hname : c.name ∈ messagesColumns := by cases c <;> decide
  obtain ⟨entry, hentry, hc⟩ := List.mem_map.mp (hshaped.perm.mem_iff.mpr hname)
  have hlookup := (lookup_rowValues insert.entries ∅ hshaped.nodup).1 entry hentry
  rw [column, ← hc, hlookup, hrow entry hentry c hc]

theorem placeholderIndex_of_isPlaceholder {i : ℕ} {e : Expr} (h : IsPlaceholder i e) :
    placeholderIndex e = if 0 < i ∧ i < 2 ^ 64 then .ok (some i)
      else .error (queryError "SQL parameters must use positional $n placeholders") := by
  obtain ⟨digits, rfl, hne, hdigits, rfl⟩ := h
  have hstrip : ['$'].isPrefixOf? ('$' :: digits) = some digits :=
    List.isPrefixOf?_eq_some_iff_append_eq.mpr rfl
  rw [placeholderIndex, placeholderNumber, String.toList_ofList, hstrip, Option.bind_some,
    parsePositive_of_isDigit hne hdigits]
  by_cases hi : 0 < Nat.ofDigitChars 10 digits 0 ∧ Nat.ofDigitChars 10 digits 0 < 2 ^ 64
  · rw [if_pos hi, if_pos hi]
  · rw [if_neg hi, if_neg hi]

theorem placeholderIndex_of_isLiteral {parseRfc3339 : String → Option DateTime} {r : Record}
    {c : Column} {e : Expr} (h : IsLiteral parseRfc3339 r c e) : placeholderIndex e = .ok none := by
  cases c with
  | channelId => obtain ⟨_, _, rfl, -⟩ := h; rfl
  | timestamp => obtain ⟨_, _, _, _, -, rfl, -⟩ := h; rfl
  | id => obtain ⟨_, _, rfl, -⟩ := h; rfl
  | value => obtain ⟨_, rfl⟩ := h; rfl

section Agreement

variable {parseRfc3339 : String → Option DateTime} {r : Record} {use : Column → Option ℕ}
  {row : Column → Expr} {values : Values}

/-- The index of a column is the one that it uses, if that is an index. -/
theorem Written.index (h : Written parseRfc3339 r use row)
    (hvalues : ∀ c : Column, column values c.name = .ok (row c)) (c : Column) :
    (∀ o, c.index values = .ok o → o = use c) ∧
      ((∀ i, use c = some i → 0 < i ∧ i < 2 ^ 64) → c.index values = .ok (use c)) := by
  have hindex : c.index values = placeholderIndex (row c) := bind_of_ok (hvalues c) rfl
  rw [hindex]
  cases huse : use c with
  | none =>
      rw [placeholderIndex_of_isLiteral ((h c).2 huse)]
      exact ⟨fun o ho => (Except.ok.inj ho).symm, fun _ => rfl⟩
  | some i =>
      rw [placeholderIndex_of_isPlaceholder ((h c).1 i huse)]
      refine ⟨fun o ho => ?_, fun hi => if_pos (hi i rfl)⟩
      split at ho
      · exact (Except.ok.inj ho).symm
      · cases ho

theorem Written.index_iff (h : Written parseRfc3339 r use row)
    (hvalues : ∀ c : Column, column values c.name = .ok (row c)) {c : Column}
    (hread : ∃ o, c.index values = .ok o) {i : ℕ} :
    c.index values = .ok (some i) ↔ use c = some i := by
  obtain ⟨o, ho⟩ := hread
  rw [ho, (h.index hvalues c).1 o ho, Except.ok.injEq]

/-- Four columns use four indices at most. -/
theorem le_four_of_use {n : ℕ} (h : ∀ i, (∃ c, use c = some i) ↔ 1 ≤ i ∧ i ≤ n) : n ≤ 4 := by
  have hsub : Finset.Icc 1 n ⊆ Finset.univ.image fun c => (use c).getD 0 := by
    intro i hi
    obtain ⟨c, hc⟩ := (h i).mpr (Finset.mem_Icc.mp hi)
    exact Finset.mem_image.mpr ⟨c, Finset.mem_univ c, by rw [hc]; rfl⟩
  calc n = (Finset.Icc 1 n).card := by simp
    _ ≤ _ := Finset.card_le_card hsub
    _ ≤ (Finset.univ : Finset Column).card := Finset.card_image_le
    _ = 4 := rfl

theorem Written.indices (h : Written parseRfc3339 r use row)
    (hvalues : ∀ c : Column, column values c.name = .ok (row c)) {ts : List PgType}
    (hts : insertParameterTypes values = .ok ts) (i : ℕ) :
    (∃ c, use c = some i) ↔ 1 ≤ i ∧ i ≤ ts.length := by
  have hnum := insertParameterTypes_spec hts
  rw [← hnum.indices i]
  exact exists_congr fun c => (h.index_iff hvalues (hnum.read c)).symm

theorem Written.types (h : Written parseRfc3339 r use row)
    (hvalues : ∀ c : Column, column values c.name = .ok (row c)) {ts : List PgType}
    (hts : insertParameterTypes values = .ok ts) {c : Column} {i : ℕ} (hc : use c = some i) :
    ts[i - 1]? = some c.parameterType := by
  have hnum := insertParameterTypes_spec hts
  exact hnum.types c i ((h.index_iff hvalues (hnum.read c)).mpr hc)

/-- The types are found if the indices are numbered from 1 and none has two types. -/
theorem Written.types_iff (h : Written parseRfc3339 r use row)
    (hvalues : ∀ c : Column, column values c.name = .ok (row c)) :
    (∃ ts, insertParameterTypes values = .ok ts) ↔
      (∃ n, ∀ i, (∃ c, use c = some i) ↔ 1 ≤ i ∧ i ≤ n) ∧
        ∀ c c' i, use c = some i → use c' = some i → c.parameterType = c'.parameterType := by
  constructor
  · rintro ⟨ts, hts⟩
    refine ⟨⟨ts.length, h.indices hvalues hts⟩, fun c c' i hc hc' => ?_⟩
    have htype := h.types hvalues hts hc
    have htype' := h.types hvalues hts hc'
    exact Option.some.inj (htype.symm.trans htype')
  · rintro ⟨⟨n, hn⟩, hsame⟩
    have hle := le_four_of_use hn
    have hread : ∀ c : Column, c.index values = .ok (use c) := by
      refine fun c => (h.index hvalues c).2 fun i hi => ?_
      obtain ⟨h₁, h₂⟩ := (hn i).mp ⟨c, hi⟩
      exact ⟨h₁, by omega⟩
    refine exists_insertParameterTypes (fun c => ⟨_, hread c⟩) (n := n) ?_ ?_
    · intro i
      simp only [hread, Except.ok.injEq]
      exact hn i
    · intro c c' i hc hc'
      rw [hread] at hc hc'
      exact hsame c c' i (Except.ok.inj hc) (Except.ok.inj hc')

/-- What stands in a column is read as the field. -/
theorem boundValue_eq_ok {α : Type} {literal : Expr → Except Stop α}
    {parameter : ℕ → Except Stop (Option α)} {e : Expr} {o : Option ℕ} {p : α → Prop}
    (ho : placeholderIndex e = .ok o)
    (hparameter : ∀ i, o = some i → ∃ v, parameter (i - 1) = .ok (some v) ∧ p v)
    (hliteral : o = none → ∃ v, literal e = .ok v ∧ p v) :
    ∃ v, boundValue literal parameter e = .ok v ∧ p v := by
  cases o with
  | none =>
      obtain ⟨v, hv, hp⟩ := hliteral rfl
      exact ⟨v, bind_of_ok ho hv, hp⟩
  | some i =>
      obtain ⟨v, hv, hp⟩ := hparameter i rfl
      exact ⟨v, bind_of_ok ho (bind_of_ok hv rfl), hp⟩

theorem readRecord_eq_ok {string : Expr → Except Stop String}
    {timestamp : Expr → Except Stop DateTime} {bytea : Expr → Except Stop (List Byte)}
    (hvalues : ∀ c : Column, column values c.name = .ok (row c))
    (h₁ : ∃ text, string (row .channelId) = .ok text ∧ utf8 text = r.partitionKey)
    (h₂ : ∃ t, timestamp (row .timestamp) = .ok t ∧ t = r.eventTime)
    (h₃ : ∃ text, string (row .id) = .ok text ∧ utf8 text = r.sortKey)
    (h₄ : ∃ bytes, bytea (row .value) = .ok bytes ∧ bytes = r.value) :
    readRecord values string timestamp bytea = .ok r := by
  obtain ⟨channel, hchannel, hpartition⟩ := h₁
  obtain ⟨_, htime, rfl⟩ := h₂
  obtain ⟨key, hkey, hsort⟩ := h₃
  obtain ⟨_, hbytes, rfl⟩ := h₄
  refine bind_of_ok (bind_of_ok (hvalues .channelId) hchannel) ?_
  refine bind_of_ok (bind_of_ok (hvalues .timestamp) htime) ?_
  refine bind_of_ok (bind_of_ok (hvalues .id) hkey) ?_
  refine bind_of_ok (bind_of_ok (hvalues .value) hbytes) ?_
  rw [hpartition, hsort]
  rfl

theorem IsLiteral.channelId {e : Expr} (h : IsLiteral parseRfc3339 r .channelId e) :
    ∃ text, stringLiteral e = .ok text ∧ utf8 text = r.partitionKey := by
  obtain ⟨quoting, text, rfl, htext⟩ := h
  exact ⟨text, rfl, htext⟩

theorem IsLiteral.timestamp {e : Expr} (h : IsLiteral parseRfc3339 r .timestamp e) :
    ∃ t, timestampLiteral parseRfc3339 e = .ok t ∧ t = r.eventTime := by
  obtain ⟨precision, zone, quoting, text, hzone, rfl, htext⟩ := h
  refine ⟨r.eventTime, ?_, rfl⟩
  rcases hzone with rfl | rfl <;> simp only [timestampLiteral, SqlValue.intoString, htext]

theorem IsLiteral.id {e : Expr} (h : IsLiteral parseRfc3339 r .id e) :
    ∃ text, stringLiteral e = .ok text ∧ utf8 text = r.sortKey := by
  obtain ⟨quoting, text, rfl, htext⟩ := h
  exact ⟨text, rfl, htext⟩

theorem IsLiteral.value {e : Expr} (h : IsLiteral parseRfc3339 r .value e) :
    ∃ bytes, byteaLiteral e = .ok bytes ∧ bytes = r.value := by
  obtain ⟨quoting, rfl⟩ := h
  exact ⟨_, byteaLiteral_hexEncode quoting r.value, rfl⟩

/-- The record is read from its literals. -/
theorem Written.readLiteral (h : Written parseRfc3339 r (fun _ => none) row)
    (hvalues : ∀ c : Column, column values c.name = .ok (row c)) :
    readRecord values stringLiteral (timestampLiteral parseRfc3339) byteaLiteral = .ok r := by
  have hliteral : ∀ c, IsLiteral parseRfc3339 r c (row c) := fun c => (h c).2 rfl
  exact readRecord_eq_ok hvalues (hliteral .channelId).channelId (hliteral .timestamp).timestamp
    (hliteral .id).id (hliteral .value).value

/-- The record is read from its literals and the parameters. -/
theorem Written.readBound (h : Written parseRfc3339 r use row)
    (hvalues : ∀ c : Column, column values c.name = .ok (row c))
    (hread : ∀ c : Column, ∃ o, c.index values = .ok o) {portal : Portal}
    (hbinds : Binds portal use r) :
    readRecord values (stringValue · portal) (timestampValue parseRfc3339 · portal)
      (byteaValue · portal) = .ok r := by
  have hindex : ∀ c, placeholderIndex (row c) = .ok (use c) := by
    intro c
    obtain ⟨o, ho⟩ := hread c
    have hrow : c.index values = placeholderIndex (row c) := bind_of_ok (hvalues c) rfl
    rw [← hrow, ho, (h.index hvalues c).1 o ho]
  refine readRecord_eq_ok hvalues ?_ ?_ ?_ ?_
  · exact boundValue_eq_ok (hindex _) hbinds.channelId fun hn => ((h _).2 hn).channelId
  · exact boundValue_eq_ok (hindex _) (fun i hi => ⟨_, hbinds.timestamp i hi, rfl⟩)
      fun hn => ((h _).2 hn).timestamp
  · exact boundValue_eq_ok (hindex _) hbinds.id fun hn => ((h _).2 hn).id
  · exact boundValue_eq_ok (hindex _) (fun i hi => ⟨_, hbinds.value i hi, rfl⟩)
      fun hn => ((h _).2 hn).value

/-- **A bound INSERT and a literal one give the same record.**  The types of a bound INSERT are
found if its indices are numbered from 1 and none is used for two types, and they are the types of
the columns; with the fields bound to them the record is returned, as it is for the literals, and no
other parameter is read. -/
theorem parseBoundInsert_agrees {parse : SqlParser} {bound literal expectedTable : String}
    {row' : Column → Expr} (hbound : Inserts parse bound expectedTable row)
    (hwritten : Written parseRfc3339 r use row)
    (hliteral : Inserts parse literal expectedTable row')
    (hwritten' : Written parseRfc3339 r (fun _ => none) row') :
    ∃ values, parseInsertValues parse bound expectedTable = .ok values ∧
      ((∃ ts, insertParameterTypes values = .ok ts) ↔
        (∃ n, ∀ i, (∃ c, use c = some i) ↔ 1 ≤ i ∧ i ≤ n) ∧
          ∀ c c' i, use c = some i → use c' = some i → c.parameterType = c'.parameterType) ∧
      (∀ ts, insertParameterTypes values = .ok ts →
        (∀ i, (∃ c, use c = some i) ↔ 1 ≤ i ∧ i ≤ ts.length) ∧
        (∀ c i, use c = some i → ts[i - 1]? = some c.parameterType) ∧
        ∀ portal, Binds portal use r → portal.parameterLen = ts.length →
          parseBoundInsert parse parseRfc3339 bound expectedTable portal = .ok r ∧
            parseInsert parse parseRfc3339 literal expectedTable = .ok r) ∧
      ∀ portal portal' : Portal, portal.parameterLen = portal'.parameterLen →
        (∀ ts, insertParameterTypes values = .ok ts → ∀ i < ts.length, portal.SameAt portal' i) →
          parseBoundInsert parse parseRfc3339 bound expectedTable portal =
            parseBoundInsert parse parseRfc3339 bound expectedTable portal' := by
  obtain ⟨values, hok, hvalues⟩ := hbound.values
  obtain ⟨values', hok', hvalues'⟩ := hliteral.values
  refine ⟨values, hok, hwritten.types_iff hvalues, fun ts hts => ?_,
    fun portal portal' hlen hsame =>
    parseBoundInsert_congr hok hlen hsame⟩
  refine ⟨hwritten.indices hvalues hts, fun c i hc => hwritten.types hvalues hts hc, ?_⟩
  intro portal hbinds hlen
  constructor
  · refine bind_of_ok hok (bind_of_ok hts (bind_of_ok (ensure_of hlen) ?_))
    exact hwritten.readBound hvalues (insertParameterTypes_spec hts).read hbinds
  · exact bind_of_ok hok' (hwritten'.readLiteral hvalues')

end Agreement

/-! ### A bound row -/

namespace Sample

/-- `2026-08-06T12:00:00Z`. -/
def noon : DateTime := .ofFields (.ofFields 2026 8 6 (by decide)) 43200 0 (by decide)

/-- A record with the key `general`, the sort key `one` and one byte. -/
def record : Record where
  partitionKey := utf8 "general"
  eventTime := noon
  sortKey := utf8 "one"
  value := [255]

def parseRfc3339 : String → Option DateTime
  | "2026-08-06T12:00:00Z" => some noon
  | _ => none

def timeLiteral : Expr :=
  .typedString (.timestamp none .tz) (.text "'" "2026-08-06T12:00:00Z")

def literalRow : Column → Expr
  | .channelId => textLiteral "'" "general"
  | .timestamp => timeLiteral
  | .id => textLiteral "'" "one"
  | .value => textLiteral "'" (String.ofList (hexMarker ++ hexDigits [255]))

/-- The value is the second parameter and the key is the first one. -/
def use : Column → Option ℕ
  | .channelId => some 1
  | .value => some 2
  | _ => none

def boundRow : Column → Expr
  | .channelId => .value (.placeholder "$1")
  | .timestamp => timeLiteral
  | .id => textLiteral "'" "one"
  | .value => .value (.placeholder "$2")

/-- Another order of the columns than the table's. -/
def order : List Column := [.value, .id, .channelId, .timestamp]

def insertOf (row : Column → Expr) : Insert :=
  { table := .tableName ⟨"messages"⟩
    columns := order.map fun c => ⟨c.name⟩
    source := some { body := .values { rows := [order.map row] } } }

def boundSql : String :=
  "INSERT INTO messages (value, id, channel_id, timestamp) " ++
    "VALUES ($2, 'one', $1, TIMESTAMPTZ '2026-08-06T12:00:00Z')"

def literalSql : String :=
  "INSERT INTO messages (value, id, channel_id, timestamp) " ++
    "VALUES ('\\xff', 'one', 'general', TIMESTAMPTZ '2026-08-06T12:00:00Z')"

def selectSql : String :=
  "SELECT id, value FROM messages WHERE channel_id = $1 AND timestamp >= $2 AND timestamp < $3"

/-- The parser on the three statements. -/
def parser (sql : String) : Option (List Statement) :=
  if sql = boundSql then some [.insert (insertOf boundRow)]
  else if sql = literalSql then some [.insert (insertOf literalRow)]
  else if sql = selectSql then some [.query selectSql]
  else none

/-- The parameters `general` and the byte `ff`. -/
def portal : Portal where
  parameterLen := 2
  text i := if i = 0 then .ok (some "general") else .ok none
  timestamptz _ := .ok none
  bytea i := if i = 1 then .ok (some [255]) else .ok none

theorem toAsciiLowercase_name : ∀ c : Column, toAsciiLowercase c.name = c.name := by decide

theorem name_injective : ∀ {a b : Column}, a.name = b.name → a = b := by decide

theorem shaped_insertOf (row : Column → Expr) : (insertOf row).Shaped "messages" where
  clauses := by simp [Insert.HasClause, insertOf]
  table := ⟨⟨"messages"⟩, rfl, rfl⟩
  columns := by
    simp only [insertOf, List.map_map, Function.comp_def, toAsciiLowercase_name]
    decide
  source := ⟨_, _, _, rfl, by simp [Query.HasClause], rfl, rfl, rfl⟩

theorem inserts_insertOf (statement : String) {row : Column → Expr}
    (h : parser statement = some [.insert (insertOf row)]) :
    Inserts parser statement "messages" row := by
  refine ⟨insertOf row, h, shaped_insertOf row, fun entry hentry c hc => ?_⟩
  have hentries : (insertOf row).entries = order.map fun c => (⟨c.name⟩, row c) := rfl
  obtain ⟨c', -, rfl⟩ := List.mem_map.mp (hentries ▸ hentry)
  rw [columnOf, toAsciiLowercase_name] at hc
  exact congrArg row (name_injective hc)

theorem written_literalRow : Written parseRfc3339 record (fun _ => none) literalRow := by
  refine fun c => ⟨fun i hi => (nomatch hi), fun _ => ?_⟩
  cases c with
  | channelId => exact ⟨_, _, rfl, rfl⟩
  | timestamp => exact ⟨_, _, _, _, .inl rfl, rfl, rfl⟩
  | id => exact ⟨_, _, rfl, rfl⟩
  | value => exact ⟨_, rfl⟩

theorem written_boundRow : Written parseRfc3339 record use boundRow := by
  intro c
  cases c with
  | channelId => exact ⟨fun i hi => ⟨['1'], rfl, by decide, by simp, Option.some.inj hi⟩,
      fun hn => nomatch hn⟩
  | timestamp => exact ⟨fun i hi => (nomatch hi), fun _ => ⟨_, _, _, _, .inl rfl, rfl, rfl⟩⟩
  | id => exact ⟨fun i hi => (nomatch hi), fun _ => ⟨_, _, rfl, rfl⟩⟩
  | value => exact ⟨fun i hi => ⟨['2'], rfl, by decide, by simp, Option.some.inj hi⟩,
      fun hn => nomatch hn⟩

theorem binds_portal : Binds portal use record where
  channelId
    | _, rfl => ⟨_, rfl, rfl⟩
  timestamp _ hi := nomatch hi
  id _ hi := nomatch hi
  value
    | _, rfl => rfl

theorem use_iff (i : ℕ) : (∃ c, use c = some i) ↔ 1 ≤ i ∧ i ≤ 2 := by
  constructor
  · rintro ⟨c, hc⟩
    cases c <;> cases hc <;> decide
  · rintro ⟨h₁, h₂⟩
    obtain rfl | rfl : i = 1 ∨ i = 2 := by omega
    · exact ⟨.channelId, rfl⟩
    · exact ⟨.value, rfl⟩

end Sample

/-- Two of the columns are parameters and two are literals. -/
theorem parseBoundInsert_of_portal :
    parseBoundInsert Sample.parser Sample.parseRfc3339 Sample.boundSql "messages" Sample.portal =
        .ok Sample.record ∧
      parseInsert Sample.parser Sample.parseRfc3339 Sample.literalSql "messages" =
        .ok Sample.record := by
  obtain ⟨values, -, hiff, htypes, -⟩ := parseBoundInsert_agrees
    (Sample.inserts_insertOf Sample.boundSql rfl) Sample.written_boundRow
    (Sample.inserts_insertOf Sample.literalSql rfl) Sample.written_literalRow
  have hsame : ∀ c c' i, Sample.use c = some i → Sample.use c' = some i →
      c.parameterType = c'.parameterType := by
    intro c c' i hc hc'
    cases c <;> cases hc <;> cases c' <;> cases hc' <;> rfl
  obtain ⟨ts, hts⟩ := hiff.mpr ⟨⟨2, Sample.use_iff⟩, hsame⟩
  obtain ⟨hindices, -, hread⟩ := htypes ts hts
  have hle : 2 ≤ ts.length := ((hindices 2).mp ⟨.value, rfl⟩).2
  have hge : ts.length ≤ 2 := ((Sample.use_iff _).mp ((hindices _).mpr ⟨by omega, le_rfl⟩)).2
  exact hread Sample.portal Sample.binds_portal (hle.antisymm hge)

end Sidecar
end Pulpitum
