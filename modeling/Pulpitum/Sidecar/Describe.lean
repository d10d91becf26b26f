import Mathlib
import Pulpitum.Sidecar.Gateway

/-!
# Sidecar — Describe

What a client is told before a portal is executed, and what it gets then.

A statement is described by the columns of its plan, without the parameters.  So the description is
right for statements whose columns do not depend on them: that of `SELECT $1` fails, where its
execution, with the type of the parameter known, does not.

* `Engine.Plans`: what DataFusion is relied on for, at one statement.
* `PulpitumPgWireServer.extendedQuery_described`: **Describe and Execute agree.**
-/

namespace Pulpitum
namespace Sidecar
open Fallible
open Arrow (RecordBatch)

/-- The statement is planned without running anything; its columns do not depend on the parameters,
and the batches it returns have the types of its columns. -/
structure Engine.Plans (engine : Engine) (statement : String) : Prop where
  planned : ∃ frame, engine.sql statement = .ret frame
  bound : ∀ {frame parameters frame'}, engine.sql statement = .ret (some frame) →
    engine.withParamValues frame parameters = some frame' →
    engine.schema frame' = engine.schema frame
  collected : ∀ {frame parameters frame'}, engine.sql statement = .ret (some frame) →
    engine.withParamValues frame parameters = some frame' →
    (engine.collect frame').Ends fun _ r => ∀ batches ∈ r, ∀ batch ∈ batches,
      batch.schema.map Arrow.Field.dataType = (engine.schema frame').map Arrow.Field.dataType

namespace PulpitumPgWireServer

variable {server : PulpitumPgWireServer}

/-- The response to a portal is one of the fields that are described for it. -/
structure Described (server : PulpitumPgWireServer) (portal : GatewayPortal)
    (fields : List FieldInfo) (response : Response) : Prop where
  described : server.describePortal portal = .ret (.ok fields)
  /-- The statement is described by the parameters the portal has, and the same fields. -/
  statement : ∃ types fields',
    server.describeStatement portal.statement = .ret (.ok (types, fields')) ∧
    portal.parameterLen = types.length ∧
    fields'.map FieldInfo.described = fields.map FieldInfo.described
  answered : response = .execution "INSERT 0" 1 ∧ fields = [] ∨
    ∃ rows, response = .query fields rows ∧
      ∀ row ∈ rows, List.Forall₂ (Takes server.encoder fields) fields.zipIdx row

/-- A portal that is checked has the parameters of its statement. -/
theorem checkPortal_eq_ok {portal : GatewayPortal} (h : server.checkPortal portal = .ok ()) :
    ∃ types, parameterTypesForStatement server.parse portal.statement server.tableName = .ok types ∧
      portal.parameterLen = types.length := by
  obtain ⟨types, htypes, h⟩ := ok_of_bind h
  exact ⟨types, htypes, ensure_eq_ok.mp h⟩

theorem describeFields_of_insert {statement : String} (format : Format) {values : Values}
    (hkind : gatewayStatementKind server.parse statement = .ok .insert)
    (hvalues : parseInsertValues server.parse statement server.tableName = .ok values) :
    server.describeFields statement format = .ret (.ok []) := by
  rw [describeFields, hkind]
  dsimp only
  rw [hvalues]
  rfl

theorem describeFields_of_read {statement : String} {format : Format}
    {frame : server.sql.DataFrame} {fields : List FieldInfo}
    (hkind : gatewayStatementKind server.parse statement = .ok .read)
    (hplan : server.sql.sql statement = .ret (some frame))
    (hfields : fieldsFromSchema (server.sql.schema frame) format = .ok fields) :
    server.describeFields statement format = .ret (.ok fields) := by
  rw [describeFields, hkind]
  dsimp only
  rw [dataframe, hplan]
  exact congrArg Prog.ret hfields

/-- A statement is described by its fields and the types of its parameters. -/
theorem describeStatement_of_fields {statement : String} {fields : List FieldInfo}
    {types : List PgType}
    (hfields : server.describeFields statement .unifiedText = .ret (.ok fields))
    (htypes : parameterTypesForStatement server.parse statement server.tableName = .ok types) :
    server.describeStatement statement = .ret (.ok (types, fields)) := by
  rw [describeStatement, hfields]
  exact congrArg (fun r => Prog.ret (Except.map (·, fields) r)) htypes

theorem executeInsert_described {portal : GatewayPortal} {types : List PgType} (now : DateTime)
    (hkind : gatewayStatementKind server.parse portal.statement = .ok .insert)
    (htypes : parameterTypesForStatement server.parse portal.statement server.tableName = .ok types)
    (hcount : portal.parameterLen = types.length) :
    (server.executeInsert now portal.statement (some portal)).Ends fun _ r =>
      ∀ response, r = .ok response → ∃ fields, Described server portal fields response := by
  unfold executeInsert
  split
  case h_1 => exact fun response h => nomatch h
  case h_2 record hrecord =>
    -- the record was read from the values of a plain INSERT
    obtain ⟨values, hvalues, -⟩ := ok_of_bind hrecord
    have hfields : ∀ format, server.describeFields portal.statement format = .ret (.ok []) :=
      fun format => describeFields_of_insert format hkind hvalues
    have hdescribed : Described server portal [] (.execution "INSERT 0" 1) :=
      ⟨hfields _, ⟨types, [], describeStatement_of_fields (hfields _) htypes, hcount, rfl⟩,
        .inl ⟨rfl, rfl⟩⟩
    split
    case h_1 => exact fun response h => nomatch h
    case h_2 program _ =>
      refine Prog.Ends.bind (Prog.Ends.of_forall fun _ r response hok => ?_)
      rcases r with e | ⟨⟩
      · cases hok
      · cases hok
        exact ⟨[], hdescribed⟩

/-- The data frame of a portal is its statement's, with parameters. -/
theorem frameOf_ends {statement : String} {portal : GatewayPortal}
    {plan : Option server.sql.DataFrame} (hplan : server.sql.sql statement = .ret plan) :
    (server.frameOf statement (some portal)).Ends fun _ r => ∀ frame', r = .ok frame' →
      ∃ frame parameters, plan = some frame ∧
        server.sql.withParamValues frame parameters = some frame' := by
  rw [frameOf]
  split
  · intro frame' h
    cases h
  · rename_i parameters _
    rw [dataframeWithParameters, dataframe, hplan]
    cases plan with
    | none =>
        intro frame' h
        cases h
    | some frame =>
        simp only [Prog.ret_bind, Prog.pure_eq]
        cases hbound : server.sql.withParamValues frame parameters with
        | some frame'' =>
            intro frame' hok
            cases hok
            exact ⟨frame, parameters, rfl, hbound⟩
        | none =>
            intro frame' h
            cases h

theorem executeRead_described {portal : GatewayPortal} {types : List PgType}
    (hplans : server.sql.Plans portal.statement)
    (hkind : gatewayStatementKind server.parse portal.statement = .ok .read)
    (htypes : parameterTypesForStatement server.parse portal.statement server.tableName = .ok types)
    (hcount : portal.parameterLen = types.length) :
    (server.executeRead portal.statement portal.resultColumnFormat (some portal)).Ends fun _ r =>
      ∀ response, r = .ok response → ∃ fields, Described server portal fields response := by
  obtain ⟨plan, hplan⟩ := hplans.planned
  refine Prog.Ends.bind ((frameOf_ends hplan).imp fun _ r hframe => ?_)
  cases r with
  | error e => exact fun response h => nomatch h
  | ok frame' =>
      obtain ⟨frame, parameters, rfl, hbound⟩ := hframe frame' rfl
      dsimp only
      split
      case h_1 => exact fun response h => nomatch h
      case h_2 fields hfields =>
        have hplain := hfields
        rw [hplans.bound hplan hbound] at hplain
        obtain ⟨texts, htexts, hsame⟩ := fieldsFromSchema_format .unifiedText hplain
        have hcollected := hplans.collected hplan hbound
        refine Prog.Ends.bind (hcollected.imp fun _ batches hbatches response hok => ?_)
        cases batches with
        | none => cases hok
        | some batches =>
            obtain ⟨rows, hrows, rfl⟩ := map_eq_ok hok
            exact ⟨fields, describeFields_of_read hkind hplan hplain,
              ⟨types, texts, describeStatement_of_fields
                (describeFields_of_read hkind hplan htexts) htypes, hcount, hsame⟩,
              .inr ⟨rows, rfl, takes_of_encodeRows hfields (hbatches batches rfl) hrows⟩⟩

/-- **Describe and Execute agree.**  Whatever the stores answer, a portal that is executed was
described, if its statement is planned as `Engine.Plans` says: its statement by as many parameters
as the portal binds and by the same fields, and the response is the acknowledgement of an INSERT,
described by no fields, or rows that have one value for each field described, of the type
described. -/
theorem extendedQuery_described {portal : GatewayPortal}
    (hplans : server.sql.Plans portal.statement) (now : DateTime) :
    (server.extendedQuery now portal).Ends fun _ r => ∀ response, r = .ok response →
      ∃ fields, Described server portal fields response := by
  unfold extendedQuery
  split
  case h_1 => exact fun response h => nomatch h
  case h_2 hcheck =>
    obtain ⟨types, htypes, hcount⟩ := checkPortal_eq_ok hcheck
    unfold executeWithParameters
    split
    case h_1 => exact fun response h => nomatch h
    case h_2 hkind => exact executeInsert_described now hkind htypes hcount
    case h_3 hkind => exact executeRead_described hplans hkind htypes hcount

end PulpitumPgWireServer

namespace Sample
open DataFusion (recordBatch tableSchema)
open Pulpitum.Sample (table)

theorem schema_of_idAndValue {records : List Record} {batches : List RecordBatch}
    (h : idAndValue records = some batches) :
    ∀ batch ∈ batches, batch.schema = Arrow.pick [2, 3] (tableSchema table) := by
  unfold idAndValue at h
  split at h
  · rename_i batch hbatch
    cases h
    obtain ⟨rows, hencodes⟩ :=
      DataFusion.encodes_of_pure Arrow.Library.reference_lawful (by decide) hbatch
    exact List.forall_mem_singleton.mpr hencodes.schema
  · cases h

theorem collectMessages_ends (parameters : List ParameterValue) :
    (collectMessages parameters).Ends fun _ r => ∀ batches ∈ r, ∀ batch ∈ batches,
      batch.schema = Arrow.pick [2, 3] (tableSchema table) := by
  unfold collectMessages
  split
  · refine Prog.Ends.bind (Prog.Ends.of_forall fun _ r batches hbatches => ?_)
    obtain ⟨records, -, hrecords⟩ := Option.bind_eq_some_iff.mp hbatches
    exact schema_of_idAndValue hrecords
  · exact fun batches h => nomatch h

theorem plans_engine : engine.Plans selectSql where
  planned := ⟨_, rfl⟩
  bound _ _ := rfl
  collected _ _ := (collectMessages_ends _).imp fun _ _ h batches hbatches batch hbatch =>
    congrArg (List.map Arrow.Field.dataType) (h batches hbatches batch hbatch)

/-- The question of the SELECT, answered by one record. -/
def answered : History :=
  [⟨Effect.call (.store (.readRange messages ⟨messages.start, messages.endAt⟩ none usizeMax)),
    .ok (.hot [record])⟩]

end Sample

set_option maxRecDepth 20000 in
/-- A SELECT of `id` and `value` in binary, for which one record is read. -/
theorem extendedQuery_described_of_select :
    ∃ fields rows, (Sample.gateway.extendedQuery Sample.noon Sample.selectPortal).Trace
      Sample.answered (.ok (.query fields rows)) ∧ rows.length = 1 ∧
      ∃ fields', PulpitumPgWireServer.Described Sample.gateway Sample.selectPortal fields'
        (.query fields rows) := by
  have htrace : (Sample.gateway.extendedQuery Sample.noon Sample.selectPortal).Trace
      Sample.answered (.ok (.query _ [_])) := ⟨_, _, rfl, rfl, rfl⟩
  exact ⟨_, _, htrace, rfl,
    (PulpitumPgWireServer.extendedQuery_described Sample.plans_engine _).trace htrace _ rfl⟩

end Sidecar
end Pulpitum
