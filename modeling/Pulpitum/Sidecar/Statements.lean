import Mathlib
import Pulpitum.Support.Fallible
import Pulpitum.Domain.Model

/-!
# Sidecar — Statements

The statements of the SQL sidecar.  The syntax tree is the parser's: of a clause that is only tested
for its presence it keeps the SQL text, and the parser itself is a parameter.

* `parseInsertValues`: the one row of a plain INSERT, by column.
* `insertValues_eq_ok_iff`: which INSERTs are taken, and what is returned for them.
* `parseInsertValues_exact_iff`: **exactly the plain INSERT is taken** if none of the parts is there
  that are never tested.
-/

namespace Pulpitum
namespace Sidecar
open Fallible

/-! ### Errors -/

/-- `ErrorInfo`. -/
structure ErrorInfo where
  severity : String
  code : String
  message : String
deriving DecidableEq

/-- What ends a function of the sidecar: a `PgWireError`, or a panic. -/
inductive Stop where
  | error (info : ErrorInfo)
  | panicked
deriving DecidableEq

/-- `query_error`. -/
def queryError (message : String) : Stop := .error ⟨"ERROR", "0A000", message⟩

/-! ### The syntax tree -/

/-- The SQL text of a part that is not looked into. -/
abbrev Sql := String

/-- `Value`: a string in one of its quotings, a placeholder, or another value. -/
inductive SqlValue where
  | text (quoting : String) (value : String)
  | placeholder (name : String)
  | other (sql : Sql)
deriving DecidableEq

/-- `into_string`. -/
def SqlValue.intoString : SqlValue → Option String
  | text _ value => some value
  | _ => none

inductive TimezoneInfo where
  | none
  | withTimeZone
  | withoutTimeZone
  | tz
deriving DecidableEq

/-- `DataType`. -/
inductive SqlDataType where
  | timestamp (precision : Option ℕ) (zone : TimezoneInfo)
  | other (sql : Sql)
deriving DecidableEq

inductive Expr where
  | value (value : SqlValue)
  | typedString (dataType : SqlDataType) (value : SqlValue)
  | other (sql : Sql)
deriving DecidableEq

/-- `ObjectName`, by its text. -/
structure ObjectName where
  text : String
deriving DecidableEq

inductive TableObject where
  | tableName (name : ObjectName)
  | other (sql : Sql)
deriving DecidableEq

/-- `Values`: the rows, whether they are written `ROW (…)`, and whether after `VALUE`. -/
structure SqlValues where
  explicitRow : Bool := false
  valueKeyword : Bool := false
  rows : List (List Expr)
deriving DecidableEq

inductive SetExpr where
  | values (values : SqlValues)
  | other (sql : Sql)
deriving DecidableEq

structure Query where
  withClause : Option Sql := none
  body : SetExpr
  orderBy : Option Sql := none
  limitClause : Option Sql := none
  fetch : Option Sql := none
  locks : List Sql := []
  forClause : Option Sql := none
  settings : Option Sql := none
  formatClause : Option Sql := none
  pipeOperators : List Sql := []
deriving DecidableEq

/-- The conflict clause of `INSERT OR …`. -/
inductive SqliteOnConflict where
  | rollback
  | abort
  | fail
  | ignore
  | replace
deriving DecidableEq

/-- `Insert`, without the keyword `INTO` and the comments. -/
structure Insert where
  or : Option SqliteOnConflict := none
  ignore : Bool := false
  table : TableObject
  tableAlias : Option Sql := none
  columns : List ObjectName
  overwrite : Bool := false
  source : Option Query
  assignments : List Sql := []
  partitioned : Option Sql := none
  afterColumns : List Sql := []
  hasTableKeyword : Bool := false
  on : Option Sql := none
  returning : Option Sql := none
  output : Option Sql := none
  replaceInto : Bool := false
  priority : Option Sql := none
  insertAlias : Option Sql := none
  settings : Option Sql := none
  formatClause : Option Sql := none
  multiTableInsertType : Option Sql := none
  multiTableIntoClauses : List Sql := []
  multiTableWhenClauses : List Sql := []
  multiTableElseClause : Option Sql := none
deriving DecidableEq

inductive Statement where
  | insert (insert : Insert)
  | query (sql : Sql)
  | other (sql : Sql)

/-- `Parser::parse_sql` for the dialect of PostgreSQL. -/
abbrev SqlParser := String → Option (List Statement)

/-- `Type`, as far as parameters have it. -/
inductive PgType where
  | text
  | timestamptz
  | int8
  | bytea
deriving DecidableEq

/-! ### Kinds of statements -/

/-- `GatewayStatementKind`. -/
inductive GatewayStatementKind where
  | insert
  | read
deriving DecidableEq

/-- `gateway_statement_kind`. -/
def gatewayStatementKind (parse : SqlParser) (statement : String) :
    Except Stop GatewayStatementKind :=
  match parse statement with
  | none => .error (queryError "unsupported SQL statement")
  | some [.insert _] => .ok .insert
  | some [.query _] => .ok .read
  | some [.other _] =>
      .error (queryError "only read-only queries and supported INSERT statements are allowed")
  | some _ => .error (queryError "exactly one SQL statement is required")

/-! ### INSERT -/

/-- `to_ascii_lowercase`. -/
def toAsciiLowercase (s : String) : String := String.ofList (s.toList.map Char.toLower)

/-- `eq_ignore_ascii_case`. -/
def eqIgnoreAsciiCase (s t : String) : Prop := toAsciiLowercase s = toAsciiLowercase t

instance (s t : String) : Decidable (eqIgnoreAsciiCase s t) := by
  unfold eqIgnoreAsciiCase; infer_instance

/-- The clauses of an INSERT that are refused. -/
def Insert.HasClause (insert : Insert) : Prop :=
  insert.tableAlias.isSome ∨ insert.overwrite ∨ insert.returning.isSome ∨
    insert.assignments ≠ [] ∨ insert.on.isSome ∨ insert.partitioned.isSome ∨
    insert.afterColumns ≠ [] ∨ insert.hasTableKeyword ∨ insert.replaceInto ∨
    insert.priority.isSome ∨ insert.insertAlias.isSome ∨ insert.settings.isSome ∨
    insert.formatClause.isSome ∨ insert.multiTableInsertType.isSome ∨
    insert.multiTableIntoClauses ≠ [] ∨ insert.multiTableWhenClauses ≠ [] ∨
    insert.multiTableElseClause.isSome

/-- The clauses of its source that are refused. -/
def Query.HasClause (source : Query) : Prop :=
  source.withClause.isSome ∨ source.orderBy.isSome ∨ source.limitClause.isSome ∨
    source.fetch.isSome ∨ source.locks ≠ [] ∨ source.forClause.isSome ∨ source.settings.isSome ∨
    source.formatClause.isSome ∨ source.pipeOperators ≠ []

instance : DecidablePred Insert.HasClause := fun insert => by
  unfold Insert.HasClause; infer_instance

instance : DecidablePred Query.HasClause := fun source => by
  unfold Query.HasClause; infer_instance

/-- The columns of the table. -/
def messagesColumns : List String := ["channel_id", "timestamp", "id", "value"]

/-- The expressions of a row, by column. -/
abbrev Values := Finmap fun _ : String => Expr

/-- One round of the loop over the columns. -/
def insertColumn (values : Values) (entry : ObjectName × Expr) : Except Stop Values := do
  let column := toAsciiLowercase entry.1.text
  ensure (column ∉ values) (queryError "INSERT contains duplicate columns")
  return values.insert column entry.2

/-- The name of the target. -/
def targetName : TableObject → Except Stop ObjectName
  | .tableName name => .ok name
  | .other _ => .error (queryError "INSERT target must be the messages table")

/-- The source, which is optional. -/
def requiredSource : Option Query → Except Stop Query
  | some source => .ok source
  | none => .error (queryError "INSERT must use a single VALUES row")

/-- The rows of VALUES. -/
def valuesRows : SetExpr → Except Stop (List (List Expr))
  | .values values => .ok values.rows
  | .other _ => .error (queryError "INSERT must use a single VALUES row")

/-- The one row. -/
def singleRow : List (List Expr) → Except Stop (List Expr)
  | [expressions] => .ok expressions
  | _ => .error (queryError "INSERT must contain exactly one row")

/-- `parse_insert_values`, after the parser. -/
def insertValues (expectedTable : String) (insert : Insert) : Except Stop Values := do
  ensure (¬ insert.HasClause) (queryError "unsupported INSERT statement")
  let tableName ← targetName insert.table
  ensure (eqIgnoreAsciiCase tableName.text expectedTable)
    (queryError "INSERT target must be the messages table")
  ensure (insert.columns.length = 4) (queryError "INSERT must provide every messages column")
  let source ← requiredSource insert.source
  ensure (¬ source.HasClause) (queryError "INSERT must use a single VALUES row")
  let rows ← valuesRows source.body
  let expressions ← singleRow rows
  ensure (expressions.length = insert.columns.length)
    (queryError "INSERT column and value counts must match")
  let values ← (insert.columns.zip expressions).foldlM insertColumn ∅
  ensure (∀ column ∈ messagesColumns, column ∈ values)
    (queryError "INSERT must provide every messages column")
  ensure (values.keys.card = 4) (queryError "INSERT must provide only messages columns")
  return values

/-- `parse_insert_values`. -/
def parseInsertValues (parse : SqlParser) (statement expectedTable : String) :
    Except Stop Values :=
  match parse statement with
  | none => .error (queryError "unsupported INSERT statement")
  | some [.insert insert] => insertValues expectedTable insert
  | some [_] => .error (queryError "unsupported INSERT statement")
  | some _ => .error (queryError "exactly one INSERT statement is required")

/-! ### The loop over the columns -/

/-- The name of a column, in lower case. -/
def columnOf (entry : ObjectName × Expr) : String := toAsciiLowercase entry.1.text

theorem insertColumn_eq_ok_iff {values values' : Values} {entry : ObjectName × Expr} :
    insertColumn values entry = .ok values' ↔
      columnOf entry ∉ values ∧ values' = values.insert (columnOf entry) entry.2 := by
  unfold insertColumn
  constructor
  · intro h
    obtain ⟨_, hfree, h⟩ := ok_of_bind h
    cases h
    exact ⟨ensure_eq_ok.mp hfree, rfl⟩
  · rintro ⟨hfree, rfl⟩
    exact bind_of_ok (ensure_of hfree) rfl

/-- The row as a map, when the columns are different. -/
def rowValues (entries : List (ObjectName × Expr)) (values : Values) : Values :=
  entries.foldl (fun values entry => values.insert (columnOf entry) entry.2) values

/-- The loop ends if the columns are new and different. -/
theorem foldlM_insertColumn_eq_ok_iff (entries : List (ObjectName × Expr)) :
    ∀ {values values' : Values}, entries.foldlM insertColumn values = .ok values' ↔
      (entries.map columnOf).Nodup ∧ (∀ entry ∈ entries, columnOf entry ∉ values) ∧
        values' = rowValues entries values := by
  induction entries with
  | nil =>
      intro values values'
      simp only [List.foldlM_nil, List.map_nil, List.nodup_nil, List.not_mem_nil, rowValues,
        List.foldl_nil, true_and, false_implies, implies_true]
      exact ⟨fun h => (Except.ok.inj h).symm, fun h => congrArg Except.ok h.symm⟩
  | cons entry entries ih =>
      intro values values'
      rw [List.foldlM_cons, List.map_cons, List.nodup_cons, List.forall_mem_cons]
      have hnew : ∀ values₁ : Values, values₁ = values.insert (columnOf entry) entry.2 →
          ((∀ e ∈ entries, columnOf e ∉ values₁) ↔
            columnOf entry ∉ entries.map columnOf ∧ ∀ e ∈ entries, columnOf e ∉ values) := by
        rintro _ rfl
        simp only [Finmap.mem_insert, not_or, List.mem_map, not_exists, not_and]
        exact ⟨fun h => ⟨fun e he => (h e he).1, fun e he => (h e he).2⟩,
          fun h e he => ⟨h.1 e he, h.2 e he⟩⟩
      constructor
      · intro h
        obtain ⟨values₁, h₁, h⟩ := ok_of_bind h
        obtain ⟨hfree, hvalues⟩ := insertColumn_eq_ok_iff.mp h₁
        obtain ⟨hnodup, hout, hrow⟩ := ih.mp h
        obtain ⟨hnotMem, hout⟩ := (hnew values₁ hvalues).mp hout
        rw [hvalues] at hrow
        exact ⟨⟨hnotMem, hnodup⟩, ⟨hfree, hout⟩, hrow⟩
      · rintro ⟨⟨hnotMem, hnodup⟩, ⟨hfree, hout⟩, hrow⟩
        refine bind_of_ok (insertColumn_eq_ok_iff.mpr ⟨hfree, rfl⟩) (ih.mpr ⟨hnodup, ?_, hrow⟩)
        exact (hnew _ rfl).mpr ⟨hnotMem, hout⟩

/-- **Each column has the expression at its position.** -/
theorem lookup_rowValues (entries : List (ObjectName × Expr)) :
    ∀ values : Values, (entries.map columnOf).Nodup →
      (∀ entry ∈ entries, (rowValues entries values).lookup (columnOf entry) = some entry.2) ∧
        ∀ column ∉ entries.map columnOf,
          (rowValues entries values).lookup column = values.lookup column := by
  induction entries with
  | nil => exact fun _ _ => ⟨fun _ h => absurd h List.not_mem_nil, fun _ _ => rfl⟩
  | cons entry entries ih =>
      intro values hnodup
      obtain ⟨hnotMem, hnodup⟩ := List.nodup_cons.mp hnodup
      obtain ⟨hrow, hrest⟩ := ih (values.insert (columnOf entry) entry.2) hnodup
      refine ⟨fun e he => ?_, fun column hcolumn => ?_⟩
      · rcases List.mem_cons.mp he with rfl | he
        · exact (hrest _ hnotMem).trans (Finmap.lookup_insert _)
        · exact hrow e he
      · rw [List.map_cons, List.mem_cons, not_or] at hcolumn
        exact (hrest column hcolumn.2).trans (Finmap.lookup_insert_of_ne _ hcolumn.1)

theorem mem_rowValues {entries : List (ObjectName × Expr)} (h : (entries.map columnOf).Nodup)
    {column : String} : column ∈ rowValues entries ∅ ↔ column ∈ entries.map columnOf := by
  obtain ⟨hrow, hrest⟩ := lookup_rowValues entries ∅ h
  rw [← Finmap.lookup_isSome]
  by_cases hc : column ∈ entries.map columnOf
  · obtain ⟨entry, he, rfl⟩ := List.mem_map.mp hc
    simp [hrow entry he, hc]
  · simp [hrest column hc, hc]

/-- The map depends on the entries only, not on their order. -/
theorem rowValues_perm {entries entries' : List (ObjectName × Expr)}
    (h : (entries.map columnOf).Nodup) (hp : entries.Perm entries') :
    rowValues entries ∅ = rowValues entries' ∅ := by
  have h' : (entries'.map columnOf).Nodup := (hp.map columnOf).nodup_iff.mp h
  obtain ⟨hrow, hrest⟩ := lookup_rowValues entries ∅ h
  obtain ⟨hrow', hrest'⟩ := lookup_rowValues entries' ∅ h'
  refine Finmap.ext_lookup fun column => ?_
  by_cases hc : column ∈ entries.map columnOf
  · obtain ⟨entry, he, rfl⟩ := List.mem_map.mp hc
    rw [hrow entry he, hrow' entry (hp.mem_iff.mp he)]
  · rw [hrest column hc, hrest' column fun hc' => hc ((hp.map columnOf).mem_iff.mpr hc')]

/-! ### Which statements are taken -/

/-- The INSERT has the table, the columns and the row that are asked for, and none of the clauses
that are refused. -/
structure Insert.Shaped (expectedTable : String) (insert : Insert) : Prop where
  clauses : ¬ insert.HasClause
  table : ∃ name, insert.table = .tableName name ∧ eqIgnoreAsciiCase name.text expectedTable
  columns : (insert.columns.map fun column => toAsciiLowercase column.text).Perm messagesColumns
  source : ∃ source values row, insert.source = some source ∧ ¬ source.HasClause ∧
    source.body = .values values ∧ values.rows = [row] ∧ row.length = 4

/-- The source, if it is VALUES. -/
def Insert.values (insert : Insert) : Option SqlValues :=
  match insert.source.map Query.body with
  | some (.values values) => some values
  | _ => none

/-- The parts of the two nodes that are never tested are not there. -/
structure Insert.Bare (insert : Insert) : Prop where
  or : insert.or = none
  ignore : insert.ignore = false
  output : insert.output = none
  explicitRow : ∀ values ∈ insert.values, values.explicitRow = false
  valueKeyword : ∀ values ∈ insert.values, values.valueKeyword = false

/-- A plain INSERT of one row: it has no other clause of any kind. -/
structure Insert.Plain (expectedTable : String) (insert : Insert) : Prop
    extends insert.Shaped expectedTable, insert.Bare

/-- The expressions of the row. -/
def Insert.row (insert : Insert) : List Expr :=
  match insert.values.map SqlValues.rows with
  | some [row] => row
  | _ => []

/-- The columns with the expressions at their positions. -/
def Insert.entries (insert : Insert) : List (ObjectName × Expr) := insert.columns.zip insert.row

theorem map_columnOf_zip {columns : List ObjectName} {row : List Expr}
    (h : row.length = columns.length) :
    (columns.zip row).map columnOf = columns.map fun column => toAsciiLowercase column.text := by
  have hfst : (columns.zip row).map Prod.fst = columns := List.map_fst_zip h.ge
  conv_rhs => rw [← hfst]
  rw [List.map_map]
  rfl

theorem targetName_eq_ok_iff {table : TableObject} {name : ObjectName} :
    targetName table = .ok name ↔ table = .tableName name := by
  cases table <;> simp [targetName]

theorem requiredSource_eq_ok_iff {source : Option Query} {query : Query} :
    requiredSource source = .ok query ↔ source = some query := by
  cases source <;> simp [requiredSource]

theorem valuesRows_eq_ok_iff {body : SetExpr} {rows : List (List Expr)} :
    valuesRows body = .ok rows ↔ ∃ values, body = .values values ∧ values.rows = rows := by
  cases body <;> simp [valuesRows]

theorem singleRow_eq_ok_iff {rows : List (List Expr)} {row : List Expr} :
    singleRow rows = .ok row ↔ rows = [row] := by
  rcases rows with _ | ⟨r, _ | ⟨r', rows⟩⟩ <;> simp [singleRow]

/-- Four columns among which are the four of the table. -/
theorem perm_messagesColumns {l : List String} (hlength : l.length = 4) :
    (∀ column ∈ messagesColumns, column ∈ l) ↔ l.Perm messagesColumns := by
  constructor
  · intro h
    have hsub : messagesColumns.Subperm l := List.subperm_of_subset (by decide) h
    exact (hsub.perm_of_length_le hlength.le).symm
  · exact fun h column hc => h.mem_iff.mpr hc

theorem keys_rowValues {entries : List (ObjectName × Expr)} (h : (entries.map columnOf).Nodup) :
    (rowValues entries ∅).keys.card = entries.length := by
  have hkeys : (rowValues entries ∅).keys = (entries.map columnOf).toFinset := by
    ext column
    rw [Finmap.mem_keys, mem_rowValues h, List.mem_toFinset]
  rw [hkeys, List.toFinset_card_of_nodup h, List.length_map]

theorem Insert.entries_eq {insert : Insert} {source : Query} {values : SqlValues} {row : List Expr}
    (hsource : insert.source = some source) (hbody : source.body = .values values)
    (hrows : values.rows = [row]) : insert.entries = insert.columns.zip row := by
  rw [Insert.entries, Insert.row, Insert.values, hsource, Option.map_some, hbody, Option.map_some,
    hrows]

namespace Insert.Shaped

variable {expectedTable : String} {insert : Insert}

theorem length_columns (h : insert.Shaped expectedTable) : insert.columns.length = 4 := by
  rw [← List.length_map, h.columns.length_eq]
  rfl

theorem perm (h : insert.Shaped expectedTable) :
    (insert.entries.map columnOf).Perm messagesColumns := by
  obtain ⟨source, values, row, hsource, -, hbody, hrows, hrow⟩ := h.source
  rw [entries_eq hsource hbody hrows, map_columnOf_zip (hrow.trans h.length_columns.symm)]
  exact h.columns

theorem nodup (h : insert.Shaped expectedTable) : (insert.entries.map columnOf).Nodup :=
  h.perm.nodup_iff.mpr (by decide)

end Insert.Shaped

/-- **Which INSERTs are taken, and what is returned for them.** -/
theorem insertValues_eq_ok_iff {expectedTable : String} {insert : Insert} {values : Values} :
    insertValues expectedTable insert = .ok values ↔
      insert.Shaped expectedTable ∧ values = rowValues insert.entries ∅ := by
  constructor
  · intro h
    obtain ⟨_, hclauses, h⟩ := ok_of_bind h
    obtain ⟨name, hname, h⟩ := ok_of_bind h
    obtain ⟨_, htable, h⟩ := ok_of_bind h
    obtain ⟨_, hcolumns, h⟩ := ok_of_bind h
    obtain ⟨source, hsource, h⟩ := ok_of_bind h
    obtain ⟨_, hplain, h⟩ := ok_of_bind h
    obtain ⟨rows, hrows, h⟩ := ok_of_bind h
    obtain ⟨row, hrow, h⟩ := ok_of_bind h
    obtain ⟨_, hcount, h⟩ := ok_of_bind h
    obtain ⟨values', hvalues, h⟩ := ok_of_bind h
    obtain ⟨_, hmem, h⟩ := ok_of_bind h
    obtain ⟨_, -, h⟩ := ok_of_bind h
    cases h
    rw [ensure_eq_ok] at hclauses htable hcolumns hplain hcount hmem
    rw [targetName_eq_ok_iff] at hname
    rw [requiredSource_eq_ok_iff] at hsource
    rw [singleRow_eq_ok_iff] at hrow
    rw [valuesRows_eq_ok_iff, hrow] at hrows
    obtain ⟨node, hbody, hrows⟩ := hrows
    obtain ⟨hnodup, -, rfl⟩ := (foldlM_insertColumn_eq_ok_iff _).mp hvalues
    rw [Insert.entries_eq hsource hbody hrows]
    have hlength : ((insert.columns.zip row).map columnOf).length = 4 := by
      rw [map_columnOf_zip hcount, List.length_map, hcolumns]
    have hperm := (perm_messagesColumns hlength).mp fun column hc =>
      (mem_rowValues hnodup).mp (hmem column hc)
    rw [map_columnOf_zip hcount] at hperm
    exact ⟨⟨hclauses, ⟨name, hname, htable⟩, hperm,
      ⟨source, node, row, hsource, hplain, hbody, hrows, hcount.trans hcolumns⟩⟩, rfl⟩
  · rintro ⟨hshaped, rfl⟩
    obtain ⟨name, hname, htable⟩ := hshaped.table
    obtain ⟨source, node, row, hsource, hplain, hbody, hrows, hrow⟩ := hshaped.source
    have hcolumns := hshaped.length_columns
    have hloop : (insert.columns.zip row).foldlM insertColumn ∅ =
        .ok (rowValues insert.entries ∅) := by
      rw [← Insert.entries_eq hsource hbody hrows]
      exact (foldlM_insertColumn_eq_ok_iff _).mpr
        ⟨hshaped.nodup, fun _ _ => Finmap.notMem_empty, rfl⟩
    have hmem : ∀ column ∈ messagesColumns, column ∈ rowValues insert.entries ∅ :=
      fun column hc => (mem_rowValues hshaped.nodup).mpr (hshaped.perm.mem_iff.mpr hc)
    have hcard : (rowValues insert.entries ∅).keys.card = 4 := by
      rw [keys_rowValues hshaped.nodup, ← List.length_map, hshaped.perm.length_eq]
      rfl
    unfold insertValues
    refine bind_of_ok (ensure_of hshaped.clauses) (bind_of_ok (targetName_eq_ok_iff.mpr hname) ?_)
    refine bind_of_ok (ensure_of htable) (bind_of_ok (ensure_of hcolumns) ?_)
    refine bind_of_ok (requiredSource_eq_ok_iff.mpr hsource) (bind_of_ok (ensure_of hplain) ?_)
    refine bind_of_ok (valuesRows_eq_ok_iff.mpr ⟨node, hbody, hrows⟩)
      (bind_of_ok (singleRow_eq_ok_iff.mpr rfl) ?_)
    refine bind_of_ok (ensure_of (hrow.trans hcolumns.symm)) (bind_of_ok hloop ?_)
    exact bind_of_ok (ensure_of hmem) (bind_of_ok (ensure_of hcard) rfl)

theorem parseInsertValues_eq_ok_iff {parse : SqlParser} {statement expectedTable : String}
    {values : Values} :
    parseInsertValues parse statement expectedTable = .ok values ↔
      ∃ insert, parse statement = some [.insert insert] ∧ insert.Shaped expectedTable ∧
        values = rowValues insert.entries ∅ := by
  unfold parseInsertValues
  constructor
  · intro h
    split at h
    case h_2 insert hparse => exact ⟨insert, hparse, insertValues_eq_ok_iff.mp h⟩
    all_goals cases h
  · rintro ⟨insert, hparse, h⟩
    rw [hparse]
    exact insertValues_eq_ok_iff.mpr h

/-- **Exactly the plain INSERT is taken**, if an INSERT that is otherwise plain has no conflict
clause, no OUTPUT, and its row is written `VALUES (…)`.  Each column has the expression at its
position, and the order of the columns does not matter. -/
theorem parseInsertValues_exact_iff (parse : SqlParser) (statement expectedTable : String) :
    (((∃ values, parseInsertValues parse statement expectedTable = .ok values) ↔
        ∃ insert, parse statement = some [.insert insert] ∧ insert.Plain expectedTable) ↔
      ∀ insert, parse statement = some [.insert insert] → insert.Shaped expectedTable →
        insert.Bare) ∧
    ∀ values, parseInsertValues parse statement expectedTable = .ok values →
      ∃ insert, parse statement = some [.insert insert] ∧
        (∀ entry ∈ insert.entries, values.lookup (columnOf entry) = some entry.2) ∧
        ∀ statement' insert', parse statement' = some [.insert insert'] →
          insert'.Shaped expectedTable → insert'.entries.Perm insert.entries →
            parseInsertValues parse statement' expectedTable = .ok values := by
  refine ⟨⟨fun h insert hparse hshaped => ?_, fun h => ⟨?_, ?_⟩⟩, fun values hvalues => ?_⟩
  · have hok := parseInsertValues_eq_ok_iff.mpr ⟨insert, hparse, hshaped, rfl⟩
    obtain ⟨plain, hparse', hplain⟩ := h.mp ⟨_, hok⟩
    cases hparse.symm.trans hparse'
    exact hplain.toBare
  · rintro ⟨values, hvalues⟩
    obtain ⟨insert, hparse, hshaped, -⟩ := parseInsertValues_eq_ok_iff.mp hvalues
    exact ⟨insert, hparse, ⟨hshaped, h insert hparse hshaped⟩⟩
  · rintro ⟨insert, hparse, hplain⟩
    exact ⟨_, parseInsertValues_eq_ok_iff.mpr ⟨insert, hparse, hplain.toShaped, rfl⟩⟩
  · obtain ⟨insert, hparse, hshaped, rfl⟩ := parseInsertValues_eq_ok_iff.mp hvalues
    refine ⟨insert, hparse, (lookup_rowValues insert.entries ∅ hshaped.nodup).1, ?_⟩
    intro statement' insert' hparse' hshaped' hperm
    exact parseInsertValues_eq_ok_iff.mpr
      ⟨insert', hparse', hshaped', (rowValues_perm hshaped'.nodup hperm).symm⟩

/-! ### The parts that are not tested -/

namespace Sample

def replacingSql : String :=
  "INSERT OR REPLACE INTO messages (channel_id, timestamp, id, value) VALUES ($1, $2, $3, $4)"

/-- The INSERT of four parameters. -/
def inserting : Insert :=
  { table := .tableName ⟨"messages"⟩
    columns := [⟨"channel_id"⟩, ⟨"timestamp"⟩, ⟨"id"⟩, ⟨"value"⟩]
    source := some
      { body := .values
          { rows := [["$1", "$2", "$3", "$4"].map fun name => .value (.placeholder name)] } } }

/-- The tree of `replacingSql`. -/
def replacing : Insert := { inserting with or := some .replace }

def outputtingSql : String :=
  "INSERT INTO messages (channel_id, timestamp, id, value) OUTPUT INSERTED.id " ++
    "VALUES ($1, $2, $3, $4)"

/-- The tree of `outputtingSql`. -/
def outputting : Insert := { inserting with output := some "OUTPUT INSERTED.id" }

theorem shaped_replacing : replacing.Shaped "messages" where
  clauses := by decide
  table := ⟨⟨"messages"⟩, rfl, rfl⟩
  columns := by decide
  source := ⟨_, _, _, rfl, by decide, rfl, rfl, rfl⟩

theorem shaped_outputting : outputting.Shaped "messages" where
  clauses := by decide
  table := ⟨⟨"messages"⟩, rfl, rfl⟩
  columns := by decide
  source := ⟨_, _, _, rfl, by decide, rfl, rfl, rfl⟩

/-- The parser on the two statements. -/
def clauseParser (sql : String) : Option (List Statement) :=
  if sql = replacingSql then some [.insert replacing]
  else if sql = outputtingSql then some [.insert outputting]
  else none

end Sample

/-- **A conflict clause and an OUTPUT are dropped**: the INSERT is taken though it is not plain. -/
theorem parseInsertValues_of_replacing :
    ((∃ values, parseInsertValues Sample.clauseParser Sample.replacingSql "messages" = .ok values) ∧
      ¬ Sample.replacing.Plain "messages") ∧
    (∃ values, parseInsertValues Sample.clauseParser Sample.outputtingSql "messages" = .ok values) ∧
      ¬ Sample.outputting.Plain "messages" :=
  ⟨⟨⟨_, parseInsertValues_eq_ok_iff.mpr ⟨_, rfl, Sample.shaped_replacing, rfl⟩⟩,
      fun h => nomatch h.or⟩,
    ⟨_, parseInsertValues_eq_ok_iff.mpr ⟨_, rfl, Sample.shaped_outputting, rfl⟩⟩,
      fun h => nomatch h.output⟩

end Sidecar
end Pulpitum
