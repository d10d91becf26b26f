import Mathlib
import Pulpitum.Support.Fallible
import Pulpitum.Support.Runs
import Pulpitum.Application.DurableTable

/-!
# Integrations — DataFusion

`PulpitumTableProvider`: the filters of a SQL scan are read into one partition and one time
range, and reported as exactly handled, so that DataFusion does not apply them again.  What the
filters mean is given by `Expr.satisfied`; the Arrow types a cast can name and what a cast does
to a value are parameters.

* `extractQuery_spec`: what a query that was extracted says about the filters.
* `pushdown_of_extractQuery`: filters a query was extracted from are reported as exact.
* `collectPredicate_agrees`: planning and the scan take the same predicates.
* `extractQuery_exact_iff`: **the query selects the rows that satisfy the filters** exactly when
  every conjunct is read with its SQL meaning.
-/

namespace Pulpitum.DataFusion
open DateTime (I64 fromTimestampNanos)
open Text Fallible

/-- `PulpitumTableProviderError`. -/
inductive PulpitumTableProviderError where
  | missingShardEquality
  | missingTimestampStart
  | missingTimestampEnd
  | invalidTimestampRange
  | unsupportedPredicate
  | conflictingShardEquality
  | conflictingTimestampBounds
deriving DecidableEq

/-- The text of an error. -/
def PulpitumTableProviderError.message : PulpitumTableProviderError → String
  | missingShardEquality => "DataFusion scan requires equality on the configured shard key"
  | missingTimestampStart => "DataFusion scan requires an inclusive timestamp lower bound"
  | missingTimestampEnd => "DataFusion scan requires an exclusive timestamp upper bound"
  | invalidTimestampRange => "DataFusion scan timestamp range must have start before end"
  | unsupportedPredicate => "DataFusion scan contains an unsupported predicate"
  | conflictingShardEquality => "DataFusion scan has conflicting shard equality predicates"
  | conflictingTimestampBounds => "DataFusion scan contains conflicting timestamp bounds"

/-- `DataFusionError::Plan`. -/
structure PlanError where
  message : String

/-- `planning_error`. -/
def planningError (e : PulpitumTableProviderError) : PlanError := ⟨e.message⟩

/-! ### Expressions -/

/-- A binary operator. -/
inductive Operator where
  | and
  | or
  | eq
  | notEq
  | lt
  | ltEq
  | gt
  | gtEq
  | other (name : String)
deriving DecidableEq

/-- A literal value; the instant of a timestamp does not depend on its time zone. -/
inductive ScalarValue where
  | utf8 (value : Option String)
  | utf8View (value : Option String)
  | largeUtf8 (value : Option String)
  | timestampSecond (value : Option I64) (zone : Option String)
  | timestampMillisecond (value : Option I64) (zone : Option String)
  | timestampMicrosecond (value : Option I64) (zone : Option String)
  | timestampNanosecond (value : Option I64) (zone : Option String)
  | other (name : String)
deriving DecidableEq

/-- A logical expression; `τ` are the types a cast can name. -/
inductive Expr (τ : Type) where
  | column (name : String)
  | literal (value : ScalarValue)
  | cast (expr : Expr τ) (target : τ)
  | tryCast (expr : Expr τ) (target : τ)
  | binary (op : Operator) (left right : Expr τ)
  | other (name : String)

variable {τ : Type}

/-- `column_name`. -/
def columnName : Expr τ → Option String
  | .column name => some name
  | _ => none

/-- `literal`: casts are dropped. -/
def literal : Expr τ → Option ScalarValue
  | .literal value => some value
  | .cast expr _ => literal expr
  | .tryCast expr _ => literal expr
  | _ => none

/-- `string_literal`. -/
def stringLiteral : Option ScalarValue → Option String
  | some (.utf8 value) | some (.utf8View value) | some (.largeUtf8 value) => value
  | _ => none

/-- `checked_mul`. -/
def checkedMul (n : I64) (k : ℤ) : Option I64 :=
  if h : -2 ^ 63 ≤ n.1 * k ∧ n.1 * k < 2 ^ 63 then some ⟨n.1 * k, h⟩ else none

/-- The nanoseconds of `timestamp_literal`. -/
def nanosLiteral : Option ScalarValue → Option I64
  | some (.timestampNanosecond value _) => value
  | some (.timestampMicrosecond value _) => value.bind (checkedMul · 1000)
  | some (.timestampMillisecond value _) => value.bind (checkedMul · 1000000)
  | some (.timestampSecond value _) => value.bind (checkedMul · 1000000000)
  | _ => none

/-- `timestamp_literal`. -/
def timestampLiteral (value : Option ScalarValue) : Option DateTime :=
  (nanosLiteral value).map fromTimestampNanos

/-! ### Extracting a query -/

/-- `RoutedQuery`. -/
structure RoutedQuery where
  partitionKey : Option PartitionKey
  start : Option DateTime
  endAt : Option DateTime

/-- `RoutedQuery::default`. -/
def RoutedQuery.default : RoutedQuery := ⟨none, none, none⟩

/-- `finish`. -/
def RoutedQuery.finish (query : RoutedQuery) : Except PulpitumTableProviderError RoutedQuery :=
  match query.start, query.endAt with
  | none, _ => .error .missingTimestampStart
  | some _, none => .error .missingTimestampEnd
  | some start, some endAt =>
      if endAt ≤ start then .error .invalidTimestampRange
      else if query.partitionKey = none then .error .missingShardEquality
      else .ok query

/-- The part of `collect_predicate` for an equality. -/
def collectEquality (partitionColumn : String) (left right : Expr τ) (query : RoutedQuery) :
    Except PulpitumTableProviderError RoutedQuery :=
  let partition :=
    if columnName left = some partitionColumn then stringLiteral (literal right)
    else if columnName right = some partitionColumn then stringLiteral (literal left)
    else none
  match partition with
  | none => .error .unsupportedPredicate
  | some partition =>
      if query.partitionKey.any (· ≠ utf8 partition) then .error .conflictingShardEquality
      else .ok { query with partitionKey := some (utf8 partition) }

/-- The literal of a timestamp comparison, and whether it is taken for the start. -/
def selectBound (op : Operator) (left right : Expr τ) : Option (Option DateTime × Bool) :=
  let leftTimestamp := timestampLiteral (literal left)
  let rightTimestamp := timestampLiteral (literal right)
  match op, columnName left, columnName right with
  | .gtEq, some "timestamp", _ => some (rightTimestamp, true)
  | .lt, some "timestamp", _ => some (rightTimestamp, false)
  | .lt, _, some "timestamp" => some (leftTimestamp, true)
  | .gtEq, _, some "timestamp" => some (leftTimestamp, false)
  | _, _, _ => none

/-- `collect_timestamp_bound`. -/
def collectTimestampBound (op : Operator) (left right : Expr τ) (query : RoutedQuery) :
    Except PulpitumTableProviderError RoutedQuery :=
  match selectBound op left right with
  | none | some (none, _) => .error .unsupportedPredicate
  | some (some bound, true) =>
      if query.start.isSome then .error .conflictingTimestampBounds
      else .ok { query with start := some bound }
  | some (some bound, false) =>
      if query.endAt.isSome then .error .conflictingTimestampBounds
      else .ok { query with endAt := some bound }

/-- `collect_predicate`. -/
def collectPredicate (partitionColumn : String) :
    Expr τ → RoutedQuery → Except PulpitumTableProviderError RoutedQuery
  | .binary .and left right, query => do
      let query ← collectPredicate partitionColumn left query
      collectPredicate partitionColumn right query
  | .binary .eq left right, query => collectEquality partitionColumn left right query
  | .binary op left right, query => collectTimestampBound op left right query
  | _, _ => .error .unsupportedPredicate

/-- `extract_query`. -/
def extractQuery (table : DurableTable) (filters : List (Expr τ)) :
    Except PulpitumTableProviderError RoutedQuery := do
  let query ← filters.foldlM
    (fun query filter => collectPredicate table.definition.partitionKey filter query)
    RoutedQuery.default
  query.finish

/-- `TableProviderFilterPushDown`. -/
inductive TableProviderFilterPushDown where
  | unsupported
  | inexact
  | exact
deriving DecidableEq

/-- `validate_predicate_shape`. -/
def validatePredicateShape (partitionColumn : String) :
    Expr τ → Except PulpitumTableProviderError Unit
  | .binary .and left right => do
      validatePredicateShape partitionColumn left
      validatePredicateShape partitionColumn right
  | .binary op left right =>
      let supported := match op with
        | .eq =>
            (columnName left = some partitionColumn && (stringLiteral (literal right)).isSome) ||
              (columnName right = some partitionColumn && (stringLiteral (literal left)).isSome)
        | .gtEq | .lt =>
            (columnName left = some "timestamp" && (timestampLiteral (literal right)).isSome) ||
              (columnName right = some "timestamp" && (timestampLiteral (literal left)).isSome)
        | _ => false
      if supported then .ok () else .error .unsupportedPredicate
  | _ => .error .unsupportedPredicate

/-- `supports_filters_pushdown`. -/
def supportsFiltersPushdown (table : DurableTable) (filters : List (Expr τ)) :
    Except PlanError (List TableProviderFilterPushDown) :=
  filters.mapM fun filter => do
    (validatePredicateShape table.definition.partitionKey filter).mapError planningError
    return .exact

/-! ### What filters mean -/

/-- A row of the table: the text of its partition and the nanoseconds of its timestamp. -/
structure Row where
  partitionText : String
  timestamp : I64

/-- What values are compared as. -/
inductive Datum where
  | text (s : String)
  | instant (nanos : ℤ)
deriving DecidableEq

/-- The value of a literal that is not null. -/
def ScalarValue.datum : ScalarValue → Option Datum
  | .utf8 v | .utf8View v | .largeUtf8 v => v.map .text
  | .timestampSecond v _ => v.map fun n => .instant (n.1 * 1000000000)
  | .timestampMillisecond v _ => v.map fun n => .instant (n.1 * 1000000)
  | .timestampMicrosecond v _ => v.map fun n => .instant (n.1 * 1000)
  | .timestampNanosecond v _ => v.map fun n => .instant n.1
  | .other _ => none

/-- The comparisons; values of different types do not compare. -/
def Operator.compares : Operator → Datum → Datum → Bool
  | .eq, a, b => a = b
  | .notEq, .text a, .text b => a ≠ b
  | .notEq, .instant a, .instant b => a ≠ b
  | .lt, .text a, .text b => a < b
  | .lt, .instant a, .instant b => a < b
  | .ltEq, .text a, .text b => a ≤ b
  | .ltEq, .instant a, .instant b => a ≤ b
  | .gt, .text a, .text b => b < a
  | .gt, .instant a, .instant b => b < a
  | .gtEq, .text a, .text b => b ≤ a
  | .gtEq, .instant a, .instant b => b ≤ a
  | _, _, _ => false

section Meaning

variable (casts : τ → ScalarValue → Option ScalarValue) (partitionColumn : String)

/-- The value of an expression in a row; a cast that fails has none. -/
def Expr.scalar (row : Row) : Expr τ → Option ScalarValue
  | .column name =>
      if name = partitionColumn then some (.utf8 (some row.partitionText))
      else if name = "timestamp" then some (.timestampNanosecond (some row.timestamp) (some "UTC"))
      else none
  | .literal value => some value
  | .cast expr target => (expr.scalar row).bind (casts target)
  | .tryCast expr target => (expr.scalar row).bind (casts target)
  | _ => none

/-- The row satisfies the filter: it is true, and neither false nor null. -/
def Expr.satisfied (row : Row) : Expr τ → Bool
  | .binary .and left right => left.satisfied row && right.satisfied row
  | .binary .or left right => left.satisfied row || right.satisfied row
  | .binary op left right =>
      match (left.scalar casts partitionColumn row).bind ScalarValue.datum,
        (right.scalar casts partitionColumn row).bind ScalarValue.datum with
      | some a, some b => op.compares a b
      | _, _ => false
  | _ => false

end Meaning

/-! ### Conjuncts -/

/-- A condition on a row, on its partition or from one side on its timestamp. -/
inductive Constraint where
  | partitionIs (text : String)
  | atLeast (nanos : ℤ)
  | below (nanos : ℤ)
deriving DecidableEq

/-- The row meets the condition. -/
def Constraint.Holds (row : Row) : Constraint → Prop
  | .partitionIs text => row.partitionText = text
  | .atLeast nanos => nanos ≤ row.timestamp
  | .below nanos => row.timestamp < nanos

/-- A comparison of one of the two columns with a literal: which condition it sets, and its
literal.  The bound of `literal < timestamp` and of `literal >= timestamp` is one nanosecond past
the literal. -/
inductive Comparison (τ : Type) where
  | partitionIs (lit : Expr τ)
  | atLeast (lit : Expr τ) (past : ℤ)
  | below (lit : Expr τ) (past : ℤ)

/-- The comparison a conjunct makes. -/
def comparison (partitionColumn : String) : Expr τ → Option (Comparison τ)
  | .binary .eq left right =>
      if columnName left = some partitionColumn then some (.partitionIs right)
      else if columnName right = some partitionColumn then some (.partitionIs left)
      else none
  | .binary .gtEq left right =>
      if columnName left = some "timestamp" then some (.atLeast right 0)
      else if columnName right = some "timestamp" then some (.below left 1)
      else none
  | .binary .lt left right =>
      if columnName left = some "timestamp" then some (.below right 0)
      else if columnName right = some "timestamp" then some (.atLeast left 1)
      else none
  | _ => none

namespace Comparison

/-- The condition the source takes a comparison for: that of the literal without its casts, and
without regard to the side it is on. -/
def taken : Comparison τ → Option Constraint
  | partitionIs lit => (stringLiteral (literal lit)).map .partitionIs
  | atLeast lit _ => (nanosLiteral (literal lit)).map fun n => .atLeast n.1
  | below lit _ => (nanosLiteral (literal lit)).map fun n => .below n.1

end Comparison

/-- The value of a literal under its casts. -/
def literalValue (casts : τ → ScalarValue → Option ScalarValue) : Expr τ → Option ScalarValue
  | .literal value => some value
  | .cast expr target => (literalValue casts expr).bind (casts target)
  | .tryCast expr target => (literalValue casts expr).bind (casts target)
  | _ => none

/-- Its text, if it is one. -/
def Datum.text? : Datum → Option String
  | .text s => some s
  | .instant _ => none

/-- Its instant, if it is one. -/
def Datum.instant? : Datum → Option ℤ
  | .text _ => none
  | .instant n => some n

/-- The condition a comparison sets in SQL. -/
def Comparison.meant (casts : τ → ScalarValue → Option ScalarValue) :
    Comparison τ → Option Constraint
  | partitionIs lit =>
      (((literalValue casts lit).bind ScalarValue.datum).bind Datum.text?).map .partitionIs
  | atLeast lit past =>
      (((literalValue casts lit).bind ScalarValue.datum).bind Datum.instant?).map fun n =>
        .atLeast (n + past)
  | below lit past =>
      (((literalValue casts lit).bind ScalarValue.datum).bind Datum.instant?).map fun n =>
        .below (n + past)

/-- The two conditions are the same on 64-bit timestamps. -/
def Constraint.Agrees : Constraint → Constraint → Prop
  | .partitionIs text, .partitionIs text' => text = text'
  | .atLeast n, .atLeast n' => max n (-2 ^ 63) = n'
  | .below n, .below n' => n = n'
  | _, _ => False

/-- Every comparison of the filter is taken for what it means. -/
def Expr.Exact (casts : τ → ScalarValue → Option ScalarValue) (partitionColumn : String) :
    Expr τ → Prop
  | .binary .and left right => left.Exact casts partitionColumn ∧ right.Exact casts partitionColumn
  | e => ∀ c ∈ comparison partitionColumn e, ∀ k ∈ c.taken, ∃ m ∈ c.meant casts, m.Agrees k

/-- The filters a conjunction is made of. -/
def conjuncts : Expr τ → List (Expr τ)
  | .binary .and left right => conjuncts left ++ conjuncts right
  | e => [e]

variable {casts : τ → ScalarValue → Option ScalarValue} {col : String} {row : Row}

theorem satisfied_iff_conjuncts (e : Expr τ) :
    e.satisfied casts col row = true ↔ ∀ c ∈ conjuncts e, c.satisfied casts col row = true := by
  fun_induction conjuncts e with
  | case1 left right ihl ihr =>
      simp only [Expr.satisfied, Bool.and_eq_true, ihl, ihr, List.mem_append]
      exact ⟨fun h c hc => hc.elim (h.1 c) (h.2 c), fun h => ⟨fun c hc => h c (.inl hc),
        fun c hc => h c (.inr hc)⟩⟩
  | case2 e => simp

theorem exact_iff_conjuncts (e : Expr τ) :
    e.Exact casts col ↔ ∀ c ∈ conjuncts e, c.Exact casts col := by
  fun_induction conjuncts e with
  | case1 left right ihl ihr =>
      simp only [Expr.Exact, ihl, ihr, List.mem_append]
      exact ⟨fun h c hc => hc.elim (h.1 c) (h.2 c), fun h => ⟨fun c hc => h c (.inl hc),
        fun c hc => h c (.inr hc)⟩⟩
  | case2 e => simp

/-- A conjunction is collected conjunct by conjunct. -/
theorem collectPredicate_eq_foldlM (e : Expr τ) (query : RoutedQuery) :
    collectPredicate col e query =
      (conjuncts e).foldlM (fun query c => collectPredicate col c query) query := by
  fun_induction conjuncts e generalizing query with
  | case1 left right ihl ihr =>
      rw [collectPredicate, List.foldlM_append, ← ihl]
      exact bind_congr fun query => ihr query
  | case2 e => simp

theorem validate_of_conjuncts (e : Expr τ)
    (h : ∀ c ∈ conjuncts e, validatePredicateShape col c = .ok ()) :
    validatePredicateShape col e = .ok () := by
  fun_induction conjuncts e with
  | case1 left right ihl ihr =>
      rw [validatePredicateShape, ihl fun c hc => h c (List.mem_append_left _ hc), ok_bind,
        ihr fun c hc => h c (List.mem_append_right _ hc)]
  | case2 e => exact h e (List.mem_singleton_self e)

/-- The expression is a conjunct, and not a conjunction. -/
def IsConjunct (e : Expr τ) : Prop := ∀ left right, e ≠ .binary .and left right

theorem isConjunct_of_mem (e : Expr τ) : ∀ c ∈ conjuncts e, IsConjunct c := by
  fun_induction conjuncts e with
  | case1 left right ihl ihr =>
      intro c hc
      exact (List.mem_append.mp hc).elim (ihl c) (ihr c)
  | case2 e he =>
      intro c hc
      obtain rfl := List.mem_singleton.mp hc
      exact he

/-! ### What is collected from a conjunct -/

/-- The condition the source takes a conjunct for. -/
def takenOf (col : String) (c : Expr τ) : Option Constraint :=
  (comparison col c).bind Comparison.taken

/-- The condition a conjunct sets in SQL. -/
def meantOf (casts : τ → ScalarValue → Option ScalarValue) (col : String) (c : Expr τ) :
    Option Constraint :=
  (comparison col c).bind (Comparison.meant casts)

/-- A condition is entered into a query. -/
inductive Enters (query : RoutedQuery) : Constraint → RoutedQuery → Prop where
  | partitionIs {text : String} (h : ∀ key ∈ query.partitionKey, key = utf8 text) :
      Enters query (.partitionIs text) { query with partitionKey := some (utf8 text) }
  | atLeast {n : I64} (h : query.start = none) :
      Enters query (.atLeast n) { query with start := some (fromTimestampNanos n) }
  | below {n : I64} (h : query.endAt = none) :
      Enters query (.below n) { query with endAt := some (fromTimestampNanos n) }

theorem timestampLiteral_eq_some {v : Option ScalarValue} {t : DateTime}
    (h : timestampLiteral v = some t) :
    ∃ n, nanosLiteral v = some n ∧ t = fromTimestampNanos n := by
  obtain ⟨n, hn, rfl⟩ := Option.map_eq_some_iff.mp h
  exact ⟨n, hn, rfl⟩

theorem collectEquality_eq_ok {left right : Expr τ} {query query' : RoutedQuery}
    (h : collectEquality col left right query = .ok query') :
    ∃ k, takenOf col (.binary .eq left right) = some k ∧ Enters query k query' ∧
      validatePredicateShape col (.binary .eq left right) = .ok () := by
  unfold collectEquality at h
  dsimp only at h
  split at h
  · cases h
  rename_i text htext
  split at h
  · cases h
  rename_i hsame
  cases h
  have henters : Enters query (.partitionIs text)
      { query with partitionKey := some (utf8 text) } := by
    refine .partitionIs fun key hkey => ?_
    by_contra hne
    exact hsame (by simp [Option.mem_def.mp hkey, hne])
  refine ⟨.partitionIs text, ?_, henters, ?_⟩
  · unfold takenOf comparison
    split at htext
    · rename_i hl
      simp [hl, Comparison.taken, htext]
    · rename_i hl
      split at htext
      · rename_i hr
        simp [hl, hr, Comparison.taken, htext]
      · cases htext
  · unfold validatePredicateShape
    split at htext
    · rename_i hl
      simp [hl, htext]
    · split at htext
      · rename_i hr
        simp [hr, htext]
      · cases htext

theorem selectBound_eq_some (col : String) {op : Operator} {left right : Expr τ} {bound : DateTime}
    {isStart : Bool} (h : selectBound op left right = some (some bound, isStart)) :
    ∃ n : I64, bound = fromTimestampNanos n ∧
      takenOf col (.binary op left right) = some (if isStart then .atLeast n else .below n) ∧
      validatePredicateShape col (.binary op left right) = .ok () := by
  unfold selectBound at h
  dsimp only at h
  split at h
  case h_1 hl | h_2 hl =>
    obtain ⟨hb, rfl⟩ := Prod.mk.inj (Option.some.inj h)
    obtain ⟨n, hn, rfl⟩ := timestampLiteral_eq_some hb
    refine ⟨n, rfl, ?_, ?_⟩
    · simp [takenOf, comparison, hl, Comparison.taken, hn]
    · simp [validatePredicateShape, hl, hb]
  case h_3 hr hl | h_4 hr hl =>
    obtain ⟨hb, rfl⟩ := Prod.mk.inj (Option.some.inj h)
    obtain ⟨n, hn, rfl⟩ := timestampLiteral_eq_some hb
    refine ⟨n, rfl, ?_, ?_⟩
    · simp [takenOf, comparison, if_neg hl, hr, Comparison.taken, hn]
    · simp [validatePredicateShape, hr, hb]
  case h_5 => cases h

theorem collectTimestampBound_eq_ok {op : Operator} {left right : Expr τ}
    {query query' : RoutedQuery} (h : collectTimestampBound op left right query = .ok query') :
    ∃ k, takenOf col (.binary op left right) = some k ∧ Enters query k query' ∧
      validatePredicateShape col (.binary op left right) = .ok () := by
  unfold collectTimestampBound at h
  split at h
  · cases h
  · cases h
  · rename_i bound hsel
    obtain ⟨n, rfl, htaken, hshape⟩ := selectBound_eq_some col hsel
    split at h
    · cases h
    rename_i hfree
    cases h
    exact ⟨_, htaken, .atLeast (Option.not_isSome_iff_eq_none.mp hfree), hshape⟩
  · rename_i bound hsel
    obtain ⟨n, rfl, htaken, hshape⟩ := selectBound_eq_some col hsel
    split at h
    · cases h
    rename_i hfree
    cases h
    exact ⟨_, htaken, .below (Option.not_isSome_iff_eq_none.mp hfree), hshape⟩

/-- **What is collected from a conjunct**: the condition it is taken for. -/
theorem collectPredicate_eq_ok {c : Expr τ} {query query' : RoutedQuery} (hc : IsConjunct c)
    (h : collectPredicate col c query = .ok query') :
    ∃ k, takenOf col c = some k ∧ Enters query k query' ∧
      validatePredicateShape col c = .ok () := by
  unfold collectPredicate at h
  split at h
  · exact absurd rfl (hc _ _)
  · exact collectEquality_eq_ok h
  · exact collectTimestampBound_eq_ok h
  · cases h

/-- What is collected from conjuncts: the conditions they are taken for, in their order. -/
theorem foldlM_collectPredicate {cs : List (Expr τ)} {query query' : RoutedQuery}
    (hc : ∀ c ∈ cs, IsConjunct c)
    (h : cs.foldlM (fun query c => collectPredicate col c query) query = .ok query') :
    (∃ ks, cs.map (takenOf col) = ks.map some ∧ Run Enters query ks query') ∧
      ∀ c ∈ cs, validatePredicateShape col c = .ok () := by
  induction cs generalizing query with
  | nil =>
      cases h
      exact ⟨⟨[], rfl, .refl _⟩, fun c hc => absurd hc List.not_mem_nil⟩
  | cons c cs ih =>
      rw [List.foldlM_cons] at h
      obtain ⟨query₁, h₁, h⟩ := ok_of_bind h
      obtain ⟨hc₁, hcs⟩ := List.forall_mem_cons.mp hc
      obtain ⟨k, hk, henters, hshape⟩ := collectPredicate_eq_ok hc₁ h₁
      obtain ⟨⟨ks, hks, hrun⟩, hshapes⟩ := ih hcs h
      exact ⟨⟨k :: ks, by rw [List.map_cons, List.map_cons, hk, hks], .more henters hrun⟩,
        List.forall_mem_cons.mpr ⟨hshape, hshapes⟩⟩

/-- Is it a lower bound? -/
def Constraint.isAtLeast : Constraint → Bool
  | .atLeast _ => true
  | _ => false

/-- Is it an upper bound? -/
def Constraint.isBelow : Constraint → Bool
  | .below _ => true
  | _ => false

/-- The query holds the conditions `ks`: they name one partition, and have at most one lower and
one upper bound. -/
structure Collected (ks : List Constraint) (query : RoutedQuery) : Prop where
  partition : ∀ text, .partitionIs text ∈ ks → query.partitionKey = some (utf8 text)
  named : ∀ key ∈ query.partitionKey, ∃ text, .partitionIs text ∈ ks ∧ key = utf8 text
  start : ∃ n : Option I64, query.start = n.map fromTimestampNanos ∧
    ks.filter Constraint.isAtLeast = n.toList.map fun n => .atLeast n.1
  endAt : ∃ n : Option I64, query.endAt = n.map fromTimestampNanos ∧
    ks.filter Constraint.isBelow = n.toList.map fun n => .below n.1

/-- A condition on the time leaves the partition. -/
theorem Collected.kept {ks : List Constraint} {query : RoutedQuery} (h : Collected ks query)
    {k : Constraint} (hk : ∀ text, .partitionIs text ≠ k) :
    (∀ text, .partitionIs text ∈ ks ++ [k] → query.partitionKey = some (utf8 text)) ∧
      ∀ key ∈ query.partitionKey, ∃ text, .partitionIs text ∈ ks ++ [k] ∧ key = utf8 text := by
  refine ⟨fun text hm => ?_, fun key hkey => ?_⟩
  · rcases List.mem_append.mp hm with hm | hm
    · exact h.partition text hm
    · exact absurd (List.mem_singleton.mp hm) (hk text)
  · obtain ⟨text, hm, rfl⟩ := h.named key hkey
    exact ⟨text, List.mem_append_left _ hm, rfl⟩

/-- One condition entered. -/
theorem Collected.enters {ks : List Constraint} {k : Constraint} {query query' : RoutedQuery}
    (h : Collected ks query) (he : Enters query k query') : Collected (ks ++ [k]) query' := by
  obtain ⟨lo, hlo, hlos⟩ := h.start
  obtain ⟨hi, hhi, hhis⟩ := h.endAt
  cases he with
  | @partitionIs text hsame =>
      refine ⟨fun text' hm => ?_, ?_, ⟨lo, hlo, ?_⟩, ⟨hi, hhi, ?_⟩⟩
      · rcases List.mem_append.mp hm with hm | hm
        · rw [hsame _ (h.partition text' hm)]
        · cases List.mem_singleton.mp hm; rfl
      · rintro key ⟨⟩
        exact ⟨text, List.mem_append_right _ (List.mem_singleton_self _), rfl⟩
      · rw [List.filter_append, hlos]; exact List.append_nil _
      · rw [List.filter_append, hhis]; exact List.append_nil _
  | @atLeast n hfree =>
      obtain rfl : lo = none := by simpa [hfree] using hlo.symm
      obtain ⟨hpartition, hnamed⟩ := h.kept (k := .atLeast n) fun _ => Constraint.noConfusion
      refine ⟨hpartition, hnamed, ⟨some n, rfl, ?_⟩, ⟨hi, hhi, ?_⟩⟩
      · rw [List.filter_append, hlos]; rfl
      · rw [List.filter_append, hhis]; exact List.append_nil _
  | @below n hfree =>
      obtain rfl : hi = none := by simpa [hfree] using hhi.symm
      obtain ⟨hpartition, hnamed⟩ := h.kept (k := .below n) fun _ => Constraint.noConfusion
      refine ⟨hpartition, hnamed, ⟨lo, hlo, ?_⟩, ⟨some n, rfl, ?_⟩⟩
      · rw [List.filter_append, hlos]; exact List.append_nil _
      · rw [List.filter_append, hhis]; rfl

theorem collected_of_run {ks : List Constraint} {query : RoutedQuery}
    (h : Run Enters RoutedQuery.default ks query) : Collected ks query := by
  refine Run.rec_last (P := Collected) ?_ (fun _ _ _ _ _ ih he => ih.enters he) h
  exact ⟨fun _ hm => absurd hm List.not_mem_nil, fun _ hm => (by cases hm), ⟨none, rfl, rfl⟩,
    ⟨none, rfl, rfl⟩⟩

/-- The conditions `ks` select the partition `text` from `lo` to `hi`: one lower bound, one upper
bound, and equalities with `text` only. -/
structure Selects (ks : List Constraint) (text : String) (lo hi : I64) : Prop where
  partition : ∀ text', .partitionIs text' ∈ ks → text' = text
  named : .partitionIs text ∈ ks
  atLeast : ks.filter Constraint.isAtLeast = [.atLeast lo]
  below : ks.filter Constraint.isBelow = [.below hi]
  lt : lo.1 < hi.1

/-- A query that is finished selects one partition and one range. -/
theorem Collected.finish {ks : List Constraint} {query query' : RoutedQuery}
    (h : Collected ks query) (hf : query.finish = .ok query') :
    ∃ text lo hi, Selects ks text lo hi ∧
      query' = ⟨some (utf8 text), some (fromTimestampNanos lo), some (fromTimestampNanos hi)⟩ := by
  obtain ⟨hpartition, hnamed, ⟨lo, hlo, hlos⟩, ⟨hi, hhi, hhis⟩⟩ := h
  unfold RoutedQuery.finish at hf
  split at hf
  · cases hf
  · cases hf
  rename_i start endAt hstart hend
  split at hf
  · cases hf
  rename_i hlt
  split at hf
  · cases hf
  rename_i hkey
  cases hf
  obtain ⟨lo, rfl, rfl⟩ := Option.map_eq_some_iff.mp (hlo.symm.trans hstart)
  obtain ⟨hi, rfl, rfl⟩ := Option.map_eq_some_iff.mp (hhi.symm.trans hend)
  obtain ⟨key, hkey⟩ := Option.ne_none_iff_exists'.mp hkey
  obtain ⟨text, hm, rfl⟩ := hnamed key hkey
  refine ⟨text, lo, hi, ⟨fun text' hm' => ?_, hm, hlos, hhis, ?_⟩, ?_⟩
  · exact utf8_injective (Option.some.inj ((hpartition text' hm').symm.trans hkey))
  · exact DateTime.fromTimestampNanos_lt_iff.mp (not_le.mp hlt)
  · cases query; simp_all

theorem foldlM_flatMap_conjuncts {filters : List (Expr τ)} {query : RoutedQuery} :
    filters.foldlM (fun query filter => collectPredicate col filter query) query =
      (filters.flatMap conjuncts).foldlM (fun query c => collectPredicate col c query) query := by
  induction filters generalizing query with
  | nil => rfl
  | cons f filters ih =>
      rw [List.foldlM_cons, List.flatMap_cons, List.foldlM_append, collectPredicate_eq_foldlM f]
      exact bind_congr fun query => ih

/-- **What an extracted query says**: the conditions its conjuncts are taken for select its
partition and its range, and every filter has a supported shape. -/
theorem extractQuery_spec {table : DurableTable} {filters : List (Expr τ)} {query : RoutedQuery}
    (h : extractQuery table filters = .ok query) :
    (∃ ks text lo hi,
      (filters.flatMap conjuncts).map (takenOf table.definition.partitionKey) = ks.map some ∧
      Selects ks text lo hi ∧
      query =
        ⟨some (utf8 text), some (fromTimestampNanos lo), some (fromTimestampNanos hi)⟩) ∧
      ∀ f ∈ filters, validatePredicateShape table.definition.partitionKey f = .ok () := by
  obtain ⟨query₁, hcollect, hfinish⟩ := ok_of_bind h
  rw [foldlM_flatMap_conjuncts] at hcollect
  have hconj : ∀ c ∈ filters.flatMap conjuncts, IsConjunct c := by
    intro c hc
    obtain ⟨f, -, hf⟩ := List.mem_flatMap.mp hc
    exact isConjunct_of_mem f c hf
  obtain ⟨⟨ks, hks, hrun⟩, hshape⟩ := foldlM_collectPredicate hconj hcollect
  obtain ⟨text, lo, hi, hsel, hq⟩ := (collected_of_run hrun).finish hfinish
  refine ⟨⟨ks, text, lo, hi, hks, hsel, hq⟩, fun f hf => ?_⟩
  exact validate_of_conjuncts f fun c hc => hshape c (List.mem_flatMap.mpr ⟨f, hf, hc⟩)

/-- Filters a query was extracted from are reported as exact. -/
theorem pushdown_of_extractQuery {table : DurableTable} {filters : List (Expr τ)}
    {query : RoutedQuery} (h : extractQuery table filters = .ok query) :
    supportsFiltersPushdown table filters = .ok (filters.map fun _ => .exact) := by
  refine mapM_eq_ok_of_forall₂ (List.forall₂_map_right_iff.mpr (List.forall₂_same.mpr ?_))
  intro f hf
  rw [(extractQuery_spec h).2 f hf]
  rfl

/-! ### Planning and scanning -/

/-- A predicate that was read, or one that contradicts what was read before it. -/
def Represented (r : Except PulpitumTableProviderError RoutedQuery) : Prop :=
  (∃ query, r = .ok query) ∨ r = .error .conflictingShardEquality ∨
    r = .error .conflictingTimestampBounds

theorem Represented.ne_unsupported {r : Except PulpitumTableProviderError RoutedQuery}
    (h : Represented r) : r ≠ .error .unsupportedPredicate := by
  rcases h with ⟨query, rfl⟩ | rfl | rfl <;> simp

theorem Represented.bind {r : Except PulpitumTableProviderError RoutedQuery}
    {f : RoutedQuery → Except PulpitumTableProviderError RoutedQuery} (h : Represented r)
    (hf : ∀ query, Represented (f query)) : Represented (r >>= f) := by
  rcases h with ⟨query, rfl⟩ | rfl | rfl
  · exact hf query
  · exact .inr (.inl rfl)
  · exact .inr (.inr rfl)

/-- A column is no literal. -/
theorem literal_of_columnName {e : Expr τ} {name : String} (h : columnName e = some name) :
    literal e = none := by
  cases e with
  | column => rfl
  | _ => cases h

/-- An equality is collected if it is one of the two that are validated. -/
theorem collectEquality_cases (left right : Expr τ) (query : RoutedQuery) :
    validatePredicateShape col (.binary .eq left right) = .ok () ∧
        Represented (collectEquality col left right query) ∨
      validatePredicateShape col (.binary .eq left right) = .error .unsupportedPredicate ∧
        collectEquality col left right query = .error .unsupportedPredicate := by
  have entered : ∀ text : String, Represented
      (if query.partitionKey.any (· ≠ utf8 text) then .error .conflictingShardEquality
        else .ok { query with partitionKey := some (utf8 text) }) := by
    intro text
    split
    · exact .inr (.inl rfl)
    · exact .inl ⟨_, rfl⟩
  by_cases hl : columnName left = some col
  · -- the left operand is a column, so only the right one can be the literal
    have hnone : stringLiteral (literal left) = none := by rw [literal_of_columnName hl]; rfl
    cases hv : stringLiteral (literal right) with
    | none => exact .inr (by simp [validatePredicateShape, collectEquality, hl, hv, hnone])
    | some text =>
        refine .inl ⟨by simp [validatePredicateShape, hl, hv], ?_⟩
        simpa [collectEquality, hl, hv] using entered text
  · by_cases hr : columnName right = some col
    · cases hv : stringLiteral (literal left) with
      | none => exact .inr (by simp [validatePredicateShape, collectEquality, hl, hr, hv])
      | some text =>
          refine .inl ⟨by simp [validatePredicateShape, hr, hv], ?_⟩
          simpa [collectEquality, hl, hr, hv] using entered text
    · exact .inr (by simp [validatePredicateShape, collectEquality, hl, hr])

/-- A bound is kept if its slot is free. -/
theorem represented_bound {left right : Expr τ} {op : Operator} {bound : DateTime} {isStart : Bool}
    (h : selectBound op left right = some (some bound, isStart)) (query : RoutedQuery) :
    Represented (collectTimestampBound op left right query) := by
  unfold collectTimestampBound
  rw [h]
  cases isStart with
  | true | false =>
      dsimp only
      split
      · exact .inr (.inr rfl)
      · exact .inl ⟨_, rfl⟩

theorem unsupported_bound {left right : Expr τ} {op : Operator}
    (h : ∀ bound isStart, selectBound op left right ≠ some (some bound, isStart))
    (query : RoutedQuery) :
    collectTimestampBound op left right query = .error .unsupportedPredicate := by
  unfold collectTimestampBound
  split
  · rfl
  · rfl
  · rename_i bound hb
    exact absurd hb (h bound true)
  · rename_i bound hb
    exact absurd hb (h bound false)

/-- Which bound a comparison with `>=` or `<` sets, by the side of the column. -/
theorem selectBound_eq {op : Operator} (hop : op = .gtEq ∨ op = .lt) (left right : Expr τ) :
    selectBound op left right =
      if columnName left = some "timestamp" then
        some (timestampLiteral (literal right), decide (op = .gtEq))
      else if columnName right = some "timestamp" then
        some (timestampLiteral (literal left), decide (op = .lt))
      else none := by
  unfold selectBound
  rcases hop with rfl | rfl <;> split <;> simp_all

theorem collectTimestampBound_cases {op : Operator} (hop : op = .gtEq ∨ op = .lt)
    (left right : Expr τ) (query : RoutedQuery) :
    validatePredicateShape col (.binary op left right) = .ok () ∧
        Represented (collectTimestampBound op left right query) ∨
      validatePredicateShape col (.binary op left right) = .error .unsupportedPredicate ∧
        collectTimestampBound op left right query = .error .unsupportedPredicate := by
  have hsel := selectBound_eq hop left right
  have hval : validatePredicateShape col (.binary op left right) =
      if (columnName left = some "timestamp" && (timestampLiteral (literal right)).isSome) ||
        (columnName right = some "timestamp" && (timestampLiteral (literal left)).isSome)
      then .ok () else .error .unsupportedPredicate := by
    rcases hop with rfl | rfl <;> rfl
  rw [hval]
  by_cases hl : columnName left = some "timestamp"
  · have hnone : timestampLiteral (literal left) = none := by rw [literal_of_columnName hl]; rfl
    rw [if_pos hl] at hsel
    cases hv : timestampLiteral (literal right) with
    | none => exact .inr ⟨by simp [hnone], unsupported_bound (by simp [hsel, hv]) query⟩
    | some bound => exact .inl ⟨by simp [hl], represented_bound (hsel.trans (by rw [hv])) query⟩
  · rw [if_neg hl] at hsel
    by_cases hr : columnName right = some "timestamp"
    · rw [if_pos hr] at hsel
      cases hv : timestampLiteral (literal left) with
      | none => exact .inr ⟨by simp [hl], unsupported_bound (by simp [hsel, hv]) query⟩
      | some bound => exact .inl ⟨by simp [hr], represented_bound (hsel.trans (by rw [hv])) query⟩
    · rw [if_neg hr] at hsel
      exact .inr ⟨by simp [hl, hr], unsupported_bound (by simp [hsel]) query⟩

/-- **A conjunct is read by the scan exactly if planning takes it.** -/
theorem collect_conjunct {c : Expr τ} (hc : IsConjunct c) (query : RoutedQuery) :
    validatePredicateShape col c = .ok () ∧ Represented (collectPredicate col c query) ∨
      validatePredicateShape col c = .error .unsupportedPredicate ∧
        collectPredicate col c query = .error .unsupportedPredicate := by
  cases c with
  | binary op left right =>
      cases op with
      | and => exact absurd rfl (hc left right)
      | eq => exact collectEquality_cases left right query
      | gtEq => exact collectTimestampBound_cases (.inl rfl) left right query
      | lt => exact collectTimestampBound_cases (.inr rfl) left right query
      | _ => exact .inr ⟨rfl, unsupported_bound (by simp [selectBound]) query⟩
  | _ => exact .inr ⟨rfl, rfl⟩

theorem represented_of_validate (e : Expr τ) (h : validatePredicateShape col e = .ok ())
    (query : RoutedQuery) : Represented (collectPredicate col e query) := by
  fun_induction conjuncts e generalizing query with
  | case1 left right ihl ihr =>
      rw [validatePredicateShape] at h
      obtain ⟨_, hl, hr⟩ := ok_of_bind h
      exact (ihl hl query).bind fun query => ihr hr query
  | case2 e he =>
      rcases collect_conjunct he query with ⟨-, hread⟩ | ⟨herr, -⟩
      · exact hread
      · rw [herr] at h
        cases h

/-- The scan fails on what planning refuses, whatever it has read before. -/
theorem collect_of_validate_error (e : Expr τ) {err : PulpitumTableProviderError}
    (h : validatePredicateShape col e = .error err) (query : RoutedQuery) :
    ∃ err', collectPredicate col e query = .error err' := by
  fun_induction conjuncts e generalizing err query with
  | case1 left right ihl ihr =>
      rw [validatePredicateShape] at h
      rw [collectPredicate]
      rcases error_of_bind h with hl | ⟨-, -, hr⟩
      · obtain ⟨err', hcollect⟩ := ihl hl query
        exact ⟨err', by rw [hcollect]; rfl⟩
      · cases hcollect : collectPredicate col left query with
        | error err' => exact ⟨err', rfl⟩
        | ok query' => exact ihr hr query'
  | case2 e he =>
      rcases collect_conjunct he query with ⟨hok, -⟩ | ⟨-, hcollect⟩
      · rw [hok] at h
        cases h
      · exact ⟨_, hcollect⟩

/-- Filters that planning takes are read by the scan, up to conflicts between them. -/
theorem represented_foldlM {filters : List (Expr τ)}
    (h : ∀ f ∈ filters, validatePredicateShape col f = .ok ()) : ∀ query : RoutedQuery,
      Represented (filters.foldlM (fun query f => collectPredicate col f query) query) := by
  induction filters with
  | nil => exact fun query => .inl ⟨query, rfl⟩
  | cons f filters ih =>
      intro query
      rw [List.foldlM_cons]
      exact (represented_of_validate f (h f (List.mem_cons_self ..)) query).bind
        (ih fun f' hf' => h f' (List.mem_cons_of_mem _ hf'))

theorem finish_ne_unsupported (query : RoutedQuery) :
    query.finish ≠ .error .unsupportedPredicate := by
  unfold RoutedQuery.finish
  split
  · simp
  · simp
  · split
    · simp
    · split <;> simp

/-- **Planning and the scan take the same predicates.**  A predicate whose shape is valid is read
from every query or conflicts with it, and is never unsupported; one whose shape is not valid is
read from none.  So a scan for filters that were promised to be handled exactly does not find one
that it cannot represent. -/
theorem collectPredicate_agrees (partitionColumn : String) (e : Expr τ) :
    (validatePredicateShape partitionColumn e = .ok () → ∀ query,
        Represented (collectPredicate partitionColumn e query) ∧
          collectPredicate partitionColumn e query ≠ .error .unsupportedPredicate) ∧
      (∀ err, validatePredicateShape partitionColumn e = .error err → ∀ query,
        ∃ err', collectPredicate partitionColumn e query = .error err') ∧
      ∀ (table : DurableTable) (filters : List (Expr τ)) (pushdown),
        supportsFiltersPushdown table filters = .ok pushdown →
          extractQuery table filters ≠ .error .unsupportedPredicate := by
  refine ⟨fun h query => ?_, fun err h query => collect_of_validate_error e h query, ?_⟩
  · have hread := represented_of_validate e h query
    exact ⟨hread, hread.ne_unsupported⟩
  · intro table filters pushdown h herr
    have hvalid : ∀ f ∈ filters,
        validatePredicateShape table.definition.partitionKey f = .ok () := by
      intro f hf
      obtain ⟨_, hf⟩ := exists_ok_of_mapM_eq_ok h f hf
      obtain ⟨_, hf, -⟩ := ok_of_bind hf
      exact mapError_eq_ok.mp hf
    rcases error_of_bind herr with hcollect | ⟨query, -, hfinish⟩
    · exact (represented_foldlM hvalid RoutedQuery.default).ne_unsupported hcollect
    · exact finish_ne_unsupported query hfinish

/-! ### Conjuncts in SQL -/

theorem scalar_of_literal {e : Expr τ} {v : ScalarValue} (h : literal e = some v) :
    e.scalar casts col row = literalValue casts e := by
  induction e with
  | column | binary | other => cases h
  | literal => rfl
  | cast e target ih | tryCast e target ih =>
      change (e.scalar casts col row).bind _ = (literalValue casts e).bind _
      rw [ih h]

theorem exists_literal_of_stringLiteral {o : Option ScalarValue} {text : String}
    (h : stringLiteral o = some text) : ∃ v, o = some v := by
  cases o with
  | none => cases h
  | some v => exact ⟨v, rfl⟩

theorem exists_literal_of_nanosLiteral {o : Option ScalarValue} {n : I64}
    (h : nanosLiteral o = some n) : ∃ v, o = some v := by
  cases o with
  | none => cases h
  | some v => exact ⟨v, rfl⟩

theorem columnName_eq_some {e : Expr τ} {name : String} (h : columnName e = some name) :
    e = .column name := by
  cases e with
  | column => cases h; rfl
  | literal | cast | tryCast | binary | other => cases h

theorem scalar_partition : (Expr.column col : Expr τ).scalar casts col row =
    some (.utf8 (some row.partitionText)) := if_pos rfl

theorem scalar_timestamp (hcol : col ≠ "timestamp") :
    (Expr.column "timestamp" : Expr τ).scalar casts col row =
      some (.timestampNanosecond (some row.timestamp) (some "UTC")) := by
  rw [Expr.scalar, if_neg hcol.symm, if_pos rfl]

/-- A comparison of a column with a literal holds when the condition it sets does. -/
theorem satisfied_partition {left right : Expr τ} {text : String}
    (hl : columnName left = some col) (hr : stringLiteral (literal right) = some text) :
    ((Expr.binary .eq left right).satisfied casts col row = true ↔
      ∃ m ∈ (Comparison.partitionIs right).meant casts, m.Holds row) ∧
    ((Expr.binary .eq right left).satisfied casts col row = true ↔
      ∃ m ∈ (Comparison.partitionIs right).meant casts, m.Holds row) := by
  obtain rfl := columnName_eq_some hl
  obtain ⟨v, hv⟩ := exists_literal_of_stringLiteral hr
  simp only [Expr.satisfied, scalar_partition, scalar_of_literal hv, Comparison.meant]
  rcases (literalValue casts right).bind ScalarValue.datum with _ | (s | n)
  · simp
  · simp [ScalarValue.datum, Operator.compares, Datum.text?, Constraint.Holds, eq_comm]
  · simp [ScalarValue.datum, Operator.compares, Datum.text?]

theorem satisfied_timestamp (hcol : col ≠ "timestamp") {left right : Expr τ} {n : I64}
    (hl : columnName left = some "timestamp") (hr : nanosLiteral (literal right) = some n) :
    ((Expr.binary .gtEq left right).satisfied casts col row = true ↔
      ∃ m ∈ (Comparison.atLeast right 0).meant casts, m.Holds row) ∧
    ((Expr.binary .lt left right).satisfied casts col row = true ↔
      ∃ m ∈ (Comparison.below right 0).meant casts, m.Holds row) ∧
    ((Expr.binary .lt right left).satisfied casts col row = true ↔
      ∃ m ∈ (Comparison.atLeast right 1).meant casts, m.Holds row) ∧
    ((Expr.binary .gtEq right left).satisfied casts col row = true ↔
      ∃ m ∈ (Comparison.below right 1).meant casts, m.Holds row) := by
  obtain rfl := columnName_eq_some hl
  obtain ⟨v, hv⟩ := exists_literal_of_nanosLiteral hr
  simp only [Expr.satisfied, scalar_timestamp hcol, scalar_of_literal hv, Comparison.meant]
  rcases (literalValue casts right).bind ScalarValue.datum with _ | (s | m)
  · simp
  · simp [ScalarValue.datum, Operator.compares, Datum.instant?]
  · simp [ScalarValue.datum, Operator.compares, Datum.instant?, Constraint.Holds]

/-- **What a conjunct means**: the row satisfies it when the condition it sets holds. -/
theorem satisfied_iff_meant (hcol : col ≠ "timestamp") {c : Expr τ} {k : Constraint}
    (h : takenOf col c = some k) :
    c.satisfied casts col row = true ↔ ∃ m ∈ meantOf casts col c, m.Holds row := by
  obtain ⟨cmp, hcmp, hk⟩ := Option.bind_eq_some_iff.mp h
  rw [meantOf, hcmp, Option.bind_some]
  unfold comparison at hcmp
  split at hcmp
  · rename_i left right
    split at hcmp
    · rename_i hl
      cases hcmp
      obtain ⟨text, htext, -⟩ := Option.map_eq_some_iff.mp hk
      exact (satisfied_partition hl htext).1
    · split at hcmp
      · rename_i hr
        cases hcmp
        obtain ⟨text, htext, -⟩ := Option.map_eq_some_iff.mp hk
        exact (satisfied_partition hr htext).2
      · cases hcmp
  · rename_i left right
    split at hcmp
    · rename_i hl
      cases hcmp
      obtain ⟨n, hn, -⟩ := Option.map_eq_some_iff.mp hk
      exact (satisfied_timestamp hcol hl hn).1
    · split at hcmp
      · rename_i hr
        cases hcmp
        obtain ⟨n, hn, -⟩ := Option.map_eq_some_iff.mp hk
        exact (satisfied_timestamp hcol hr hn).2.2.2
      · cases hcmp
  · rename_i left right
    split at hcmp
    · rename_i hl
      cases hcmp
      obtain ⟨n, hn, -⟩ := Option.map_eq_some_iff.mp hk
      exact (satisfied_timestamp hcol hl hn).2.1
    · split at hcmp
      · rename_i hr
        cases hcmp
        obtain ⟨n, hn, -⟩ := Option.map_eq_some_iff.mp hk
        exact (satisfied_timestamp hcol hr hn).2.2.1
      · cases hcmp
  · cases hcmp

/-! ### Exact filters -/

variable {c c' : Expr τ} {k k' m : Constraint} {cs : List (Expr τ)} {ks : List Constraint}
  {text : String} {lo hi : I64}

theorem exact_iff (hc : IsConjunct c) (hk : takenOf col c = some k) :
    c.Exact casts col ↔ ∃ m ∈ meantOf casts col c, m.Agrees k := by
  obtain ⟨cmp, hcmp, hk⟩ := Option.bind_eq_some_iff.mp hk
  rw [meantOf, hcmp, Option.bind_some]
  unfold Expr.Exact
  split
  · exact absurd rfl (hc _ _)
  · simp [hcmp, hk]

/-- A conjunct is taken for a condition of the kind it sets. -/
theorem kind_of_meant (hk : takenOf col c = some k) (hm : meantOf casts col c = some m) :
    (∃ s s', k = .partitionIs s ∧ m = .partitionIs s') ∨
      (∃ n n', k = .atLeast n ∧ m = .atLeast n') ∨ ∃ n n', k = .below n ∧ m = .below n' := by
  obtain ⟨cmp, hcmp, hk⟩ := Option.bind_eq_some_iff.mp hk
  rw [meantOf, hcmp, Option.bind_some] at hm
  cases cmp with
  | partitionIs lit =>
      obtain ⟨s, -, rfl⟩ := Option.map_eq_some_iff.mp hk
      obtain ⟨s', -, rfl⟩ := Option.map_eq_some_iff.mp hm
      exact .inl ⟨s, s', rfl, rfl⟩
  | atLeast lit past =>
      obtain ⟨n, -, rfl⟩ := Option.map_eq_some_iff.mp hk
      obtain ⟨n', -, rfl⟩ := Option.map_eq_some_iff.mp hm
      exact .inr (.inl ⟨n, n' + past, rfl, rfl⟩)
  | below lit past =>
      obtain ⟨n, -, rfl⟩ := Option.map_eq_some_iff.mp hk
      obtain ⟨n', -, rfl⟩ := Option.map_eq_some_iff.mp hm
      exact .inr (.inr ⟨n, n' + past, rfl, rfl⟩)

theorem holds_of_agrees (h : m.Agrees k) : m.Holds row ↔ k.Holds row := by
  have hrow := row.timestamp.2
  cases m with
  | partitionIs s =>
      cases k with
      | partitionIs s' => rw [show s = s' from h]
      | atLeast | below => cases h
  | atLeast n =>
      cases k with
      | atLeast n' =>
          have h : max n (-2 ^ 63) = n' := h
          change n ≤ row.timestamp.1 ↔ n' ≤ row.timestamp.1
          omega
      | partitionIs | below => cases h
  | below n =>
      cases k with
      | below n' => rw [show n = n' from h]
      | partitionIs | atLeast => cases h

theorem Selects.mem_atLeast (h : Selects ks text lo hi) {n : ℤ} : .atLeast n ∈ ks ↔ n = lo.1 := by
  have hf : Constraint.atLeast n ∈ ks.filter Constraint.isAtLeast ↔ _ := List.mem_filter
  rw [h.atLeast] at hf
  simpa [Constraint.isAtLeast] using hf.symm

theorem Selects.mem_below (h : Selects ks text lo hi) {n : ℤ} : .below n ∈ ks ↔ n = hi.1 := by
  have hf : Constraint.below n ∈ ks.filter Constraint.isBelow ↔ _ := List.mem_filter
  rw [h.below] at hf
  simpa [Constraint.isBelow] using hf.symm

/-- The conditions of a selection hold of the rows in it. -/
theorem Selects.holds_iff (h : Selects ks text lo hi) :
    (∀ k ∈ ks, k.Holds row) ↔
      row.partitionText = text ∧ lo.1 ≤ row.timestamp ∧ row.timestamp < hi.1 := by
  constructor
  · intro hall
    exact ⟨hall _ h.named, hall _ (h.mem_atLeast.mpr rfl), hall _ (h.mem_below.mpr rfl)⟩
  · rintro ⟨hp, hl, hu⟩ k hk
    cases k with
    | partitionIs s => rw [h.partition s hk]; exact hp
    | atLeast n => rw [h.mem_atLeast.mp hk]; exact hl
    | below n => rw [h.mem_below.mp hk]; exact hu

/-- Conjuncts that are taken for the only condition of a kind are the same. -/
theorem eq_of_kind (htaken : cs.map (takenOf col) = ks.map some) {kind : Constraint → Bool}
    (hone : ∃ k, ks.filter kind = [k]) (hc : c ∈ cs) (hc' : c' ∈ cs)
    (hk : takenOf col c = some k) (hk' : takenOf col c' = some k') (hkind : kind k = true)
    (hkind' : kind k' = true) : c = c' := by
  have hcount : (cs.filter fun c => (takenOf col c).any kind).length = 1 := by
    obtain ⟨k₀, hk₀⟩ := hone
    calc (cs.filter fun c => (takenOf col c).any kind).length
        = (cs.map (takenOf col)).countP (Option.any kind) := by
          rw [List.countP_map, List.countP_eq_length_filter]; rfl
      _ = (ks.map some).countP (Option.any kind) := by rw [htaken]
      _ = (ks.filter kind).length := by
          rw [List.countP_map, List.countP_eq_length_filter]; rfl
      _ = 1 := by rw [hk₀]; rfl
  obtain ⟨c₀, hc₀⟩ := List.length_eq_one_iff.mp hcount
  have hmem : ∀ {c k}, c ∈ cs → takenOf col c = some k → kind k = true → c = c₀ := by
    intro c k hc hk hkind
    have : c ∈ cs.filter fun c => (takenOf col c).any kind :=
      List.mem_filter.mpr ⟨hc, by simp [hk, hkind]⟩
    rw [hc₀] at this
    exact List.mem_singleton.mp this
  rw [hmem hc hk hkind, hmem hc' hk' hkind']

section Converse

variable (hcol : col ≠ "timestamp") (hsel : Selects ks text lo hi)
  (htaken : cs.map (takenOf col) = ks.map some)
  (hall : ∀ row : Row, (∀ c ∈ cs, c.satisfied casts col row = true) ↔
    row.partitionText = text ∧ lo.1 ≤ row.timestamp ∧ row.timestamp < hi.1)

include htaken

theorem mem_of_taken (hc : c ∈ cs) (hk : takenOf col c = some k) : k ∈ ks := by
  have : some k ∈ ks.map some := by rw [← htaken, ← hk]; exact List.mem_map_of_mem hc
  simpa using this

theorem exists_taken (hc : c ∈ cs) : ∃ k, takenOf col c = some k := by
  have : takenOf col c ∈ ks.map some := by rw [← htaken]; exact List.mem_map_of_mem hc
  obtain ⟨k, -, hk⟩ := List.mem_map.mp this
  exact ⟨k, hk.symm⟩

include hcol hsel hall

omit hsel htaken in
/-- Every conjunct holds in the selection. -/
theorem holds_inside (hc : c ∈ cs) (hk : takenOf col c = some k) {t : I64} (h₁ : lo.1 ≤ t)
    (h₂ : t.1 < hi.1) : ∃ m, meantOf casts col c = some m ∧ m.Holds ⟨text, t⟩ :=
  (satisfied_iff_meant hcol hk).mp ((hall ⟨text, t⟩).mpr ⟨rfl, h₁, h₂⟩ c hc)

/-- A row that is not in the selection is left out by some conjunct. -/
theorem exists_left_out {t : I64} (ht : ¬ (lo.1 ≤ t ∧ t.1 < hi.1)) :
    ∃ c ∈ cs, ∃ k m, takenOf col c = some k ∧ meantOf casts col c = some m ∧
      m.Holds ⟨text, lo⟩ ∧ ¬ m.Holds ⟨text, t⟩ := by
  obtain ⟨c, hc, hnot⟩ : ∃ c ∈ cs, ¬ c.satisfied casts col ⟨text, t⟩ = true := by
    by_contra hcon
    exact ht ((hall ⟨text, t⟩).mp fun c hc => not_not.mp fun h => hcon ⟨c, hc, h⟩).2
  obtain ⟨k, hk⟩ := exists_taken htaken hc
  obtain ⟨m, hm, hfirst⟩ := holds_inside hcol hall hc hk le_rfl hsel.lt
  exact ⟨c, hc, k, m, hk, hm, hfirst,
    fun hh => hnot ((satisfied_iff_meant hcol hk).mpr ⟨m, hm, hh⟩)⟩

/-- The lower bound shows at the row before the selection, if there is one. -/
theorem agrees_atLeast {n n' : ℤ} (hc : c ∈ cs) (hk : takenOf col c = some (.atLeast n))
    (hm : meantOf casts col c = some (.atLeast n')) :
    (Constraint.atLeast n').Agrees (.atLeast n) := by
  obtain rfl := hsel.mem_atLeast.mp (mem_of_taken htaken hc hk)
  obtain ⟨m, hm', hfirst⟩ := holds_inside hcol hall hc hk le_rfl hsel.lt
  cases hm.symm.trans hm'
  have hfirst : n' ≤ lo.1 := hfirst
  have hlo := lo.2
  change max n' (-2 ^ 63) = lo.1
  by_cases hmin : lo.1 = -2 ^ 63
  · omega
  obtain ⟨c', hc', k', m', hk', hm', hyes, hno⟩ := exists_left_out hcol hsel htaken hall
    (t := ⟨lo.1 - 1, by omega⟩) (by simp only; omega)
  rcases kind_of_meant hk' hm' with ⟨s, s', rfl, rfl⟩ | ⟨j, j', rfl, rfl⟩ | ⟨j, j', rfl, rfl⟩
  · exact absurd hyes hno
  · obtain rfl := eq_of_kind htaken ⟨_, hsel.atLeast⟩ hc hc' hk hk' rfl rfl
    cases hm.symm.trans hm'
    change ¬ n' ≤ lo.1 - 1 at hno
    omega
  · change lo.1 < j' at hyes
    change ¬ lo.1 - 1 < j' at hno
    omega

/-- The upper bound shows at the last row of the selection and at the row after it. -/
theorem agrees_below {n n' : ℤ} (hc : c ∈ cs) (hk : takenOf col c = some (.below n))
    (hm : meantOf casts col c = some (.below n')) :
    (Constraint.below n').Agrees (.below n) := by
  obtain rfl := hsel.mem_below.mp (mem_of_taken htaken hc hk)
  have hlt := hsel.lt
  have hlo := lo.2
  have hhi := hi.2
  obtain ⟨m, hm', hlast⟩ := holds_inside hcol hall hc hk (t := ⟨hi.1 - 1, by omega⟩)
    (by simp only; omega) (by simp only; omega)
  cases hm.symm.trans hm'
  have hlast : hi.1 - 1 < n' := hlast
  change n' = hi.1
  obtain ⟨c', hc', k', m', hk', hm', hyes, hno⟩ := exists_left_out hcol hsel htaken hall
    (t := hi) (by omega)
  rcases kind_of_meant hk' hm' with ⟨s, s', rfl, rfl⟩ | ⟨j, j', rfl, rfl⟩ | ⟨j, j', rfl, rfl⟩
  · exact absurd hyes hno
  · change j' ≤ lo.1 at hyes
    change ¬ j' ≤ hi.1 at hno
    omega
  · obtain rfl := eq_of_kind htaken ⟨_, hsel.below⟩ hc hc' hk hk' rfl rfl
    cases hm.symm.trans hm'
    change ¬ hi.1 < n' at hno
    omega

/-- **Conjuncts that together select what they are taken for are each taken for what they mean**:
the selection is not empty, and it has one conjunct for each bound. -/
theorem agrees_of_selects (hc : c ∈ cs) (hk : takenOf col c = some k) :
    ∃ m ∈ meantOf casts col c, m.Agrees k := by
  obtain ⟨m, hm, hfirst⟩ := holds_inside hcol hall hc hk le_rfl hsel.lt
  refine ⟨m, hm, ?_⟩
  rcases kind_of_meant hk hm with ⟨s, s', rfl, rfl⟩ | ⟨n, n', rfl, rfl⟩ | ⟨n, n', rfl, rfl⟩
  · exact (hsel.partition s (mem_of_taken htaken hc hk)).symm ▸ hfirst.symm
  · exact agrees_atLeast hcol hsel htaken hall hc hk hm
  · exact agrees_below hcol hsel htaken hall hc hk hm

end Converse

/-- The row is in the partition and the range of the query. -/
def RoutedQuery.Covers (query : RoutedQuery) (row : Row) : Prop :=
  query.partitionKey = some (utf8 row.partitionText) ∧
    (∃ start ∈ query.start, start ≤ fromTimestampNanos row.timestamp) ∧
    ∃ endAt ∈ query.endAt, fromTimestampNanos row.timestamp < endAt

theorem covers_range_iff :
    RoutedQuery.Covers
        ⟨some (utf8 text), some (fromTimestampNanos lo), some (fromTimestampNanos hi)⟩ row ↔
      row.partitionText = text ∧ lo.1 ≤ row.timestamp ∧ row.timestamp < hi.1 := by
  simp only [RoutedQuery.Covers, Option.mem_def, Option.some.injEq, exists_eq_left',
    DateTime.fromTimestampNanos_le_iff, DateTime.fromTimestampNanos_lt_iff, utf8_injective.eq_iff]
  exact and_congr_left' eq_comm

/-- **Filters reported as exactly handled are exactly handled** when, and only when, every
comparison in them is taken for what it means in SQL: its literal is not changed by its casts,
and it is on the right of the operator.  A query for `literal < timestamp` starts one nanosecond
too early, and one for `literal >= timestamp` ends one nanosecond too early. -/
theorem extractQuery_exact_iff {table : DurableTable} {filters : List (Expr τ)}
    {query : RoutedQuery} (casts : τ → ScalarValue → Option ScalarValue)
    (hcol : table.definition.partitionKey ≠ "timestamp")
    (h : extractQuery table filters = .ok query) :
    supportsFiltersPushdown table filters = .ok (filters.map fun _ => .exact) ∧
      ((∀ row, (∀ f ∈ filters, f.satisfied casts table.definition.partitionKey row = true) ↔
          query.Covers row) ↔
        ∀ f ∈ filters, f.Exact casts table.definition.partitionKey) := by
  refine ⟨pushdown_of_extractQuery h, ?_⟩
  obtain ⟨⟨ks, text, lo, hi, htaken, hsel, rfl⟩, -⟩ := extractQuery_spec h
  set col := table.definition.partitionKey
  set cs := filters.flatMap conjuncts with hcs
  have hconj : ∀ c ∈ cs, IsConjunct c := by
    intro c hc
    obtain ⟨f, -, hf⟩ := List.mem_flatMap.mp hc
    exact isConjunct_of_mem f c hf
  have hsat : ∀ row, (∀ f ∈ filters, f.satisfied casts col row = true) ↔
      ∀ c ∈ cs, c.satisfied casts col row = true := by
    intro row
    rw [hcs, List.forall_mem_flatMap]
    exact forall₂_congr fun f _ => satisfied_iff_conjuncts f
  have hexact : (∀ f ∈ filters, f.Exact casts col) ↔ ∀ c ∈ cs, c.Exact casts col := by
    rw [hcs, List.forall_mem_flatMap]
    exact forall₂_congr fun f _ => exact_iff_conjuncts f
  simp only [hsat, hexact, covers_range_iff]
  constructor
  · intro hall c hc
    obtain ⟨k, hk⟩ := exists_taken htaken hc
    exact (exact_iff (hconj c hc) hk).mpr (agrees_of_selects hcol hsel htaken hall hc hk)
  · intro hex row
    rw [← hsel.holds_iff]
    have heach : ∀ c ∈ cs, ∀ k, takenOf col c = some k →
        (c.satisfied casts col row = true ↔ k.Holds row) := by
      intro c hc k hk
      obtain ⟨m, hm, hagree⟩ := (exact_iff (hconj c hc) hk).mp (hex c hc)
      rw [satisfied_iff_meant hcol hk]
      refine ⟨?_, fun hh => ⟨m, hm, (holds_of_agrees hagree).mpr hh⟩⟩
      rintro ⟨m', hm', hh⟩
      cases hm.symm.trans hm'
      exact (holds_of_agrees hagree).mp hh
    constructor
    · intro hall k hk
      have : some k ∈ cs.map (takenOf col) := by rw [htaken]; exact List.mem_map_of_mem hk
      obtain ⟨c, hc, hck⟩ := List.mem_map.mp this
      exact (heach c hc k hck).mp (hall c hc)
    · intro hall c hc
      obtain ⟨k, hk⟩ := exists_taken htaken hc
      exact (heach c hc k hk).mpr (hall k (mem_of_taken htaken hc hk))

/-! ### Samples -/

namespace Sample
open Pulpitum.Sample

/-- A timestamp literal. -/
def instant (n : I64) : Expr Unit := .literal (.timestampNanosecond (some n) (some "UTC"))

/-- `partition_key = 'a'`. -/
def partitionIsA : Expr Unit := .binary .eq (.column "partition_key") (.literal (.utf8 (some "a")))

/-- `timestamp < 10`. -/
def belowTen : Expr Unit := .binary .lt (.column "timestamp") (instant ⟨10, by decide⟩)

/-- `partition_key = 'a' AND timestamp >= 0` and `timestamp < 10`. -/
def filters : List (Expr Unit) :=
  [.binary .and partitionIsA (.binary .gtEq (.column "timestamp") (instant ⟨0, by decide⟩)),
    belowTen]

/-- `partition_key = 'a'`, `0 < timestamp` and `timestamp < 10`. -/
def mirrored : List (Expr Unit) :=
  [partitionIsA, .binary .lt (instant ⟨0, by decide⟩) (.column "timestamp"), belowTen]

end Sample

/-- The filters of a range written with the column on the left. -/
theorem extractQuery_exact_iff_of_range : ∃ query,
    extractQuery Pulpitum.Sample.table Sample.filters = .ok query ∧
    ((∀ row, (∀ f ∈ Sample.filters, f.satisfied (fun _ v => some v) "partition_key" row = true) ↔
        query.Covers row) ↔
      ∀ f ∈ Sample.filters, f.Exact (fun _ v => some v) "partition_key") := by
  obtain ⟨query, h⟩ : ∃ query, extractQuery Pulpitum.Sample.table Sample.filters = .ok query :=
    ⟨_, rfl⟩
  exact ⟨query, h, (extractQuery_exact_iff (fun _ v => some v) (by decide) h).2⟩

/-- **A bound that is off by one instant.** The filters `partition_key = 'a'`, `0 < timestamp`
and `timestamp < 10` are reported as exact, and the query covers the row at `0`, which does not
satisfy the second. -/
theorem mirrored_start_is_inclusive : ∃ query,
    extractQuery Pulpitum.Sample.table Sample.mirrored = .ok query ∧
    supportsFiltersPushdown Pulpitum.Sample.table Sample.mirrored = .ok [.exact, .exact, .exact] ∧
    query.Covers ⟨"a", ⟨0, by decide⟩⟩ ∧
    ¬ ∀ f ∈ Sample.mirrored, f.satisfied (fun _ v => some v) "partition_key"
      ⟨"a", ⟨0, by decide⟩⟩ = true := by
  refine ⟨⟨some (utf8 "a"), some (fromTimestampNanos ⟨0, by decide⟩),
    some (fromTimestampNanos ⟨10, by decide⟩)⟩, rfl, rfl, ?_, by decide⟩
  exact covers_range_iff.mpr ⟨rfl, le_rfl, by decide⟩

end Pulpitum.DataFusion
