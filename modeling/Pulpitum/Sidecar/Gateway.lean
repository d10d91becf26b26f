import Mathlib
import Pulpitum.Integrations.RoutedScan
import Pulpitum.Sidecar.Placeholders
import Pulpitum.Sidecar.Rows

/-!
# Sidecar — Gateway

`PulpitumPgWireServer`: what it does for a request, as a program over the stores.  An INSERT is
parsed into a record and appended; a read is planned and run by DataFusion, which is a parameter,
and its batches are encoded.  A statement or a portal is described by what it would return.

* `readBucket_asks`: what a scan of the table asks of the stores are reads.
* `PulpitumPgWireServer.handle_bounded`: what one request asks of the stores and replies.
* `PulpitumPgWireServer.session_faithful`: **the gateway writes what was inserted and says so**,
  over whole sessions.
-/

namespace Pulpitum
namespace Sidecar
open Fallible
open DateTime (I64 timestampNanosOpt)
open Arrow (Schema RecordBatch)

/-! ### Statements -/

/-- The value of a parameter of a read. -/
inductive ParameterValue where
  | utf8 (value : String)
  | timestampNanosecond (value : I64) (zone : String)
  | int64 (value : I64)
deriving DecidableEq

/-- What the gateway needs of DataFusion's `SessionContext` and `DataFrame`.  Planning may run
something, too, as for `SELECT INTO`. -/
structure Engine where
  DataFrame : Type
  sql : String → Worker (Option DataFrame)
  withParamValues : DataFrame → List ParameterValue → Option DataFrame
  schema : DataFrame → Schema
  collect : DataFrame → Worker (Option (List RecordBatch))

/-- `Portal` with what a read needs of it. -/
structure GatewayPortal extends Portal where
  statement : String
  int8 : ℕ → Except Stop (Option I64)
  resultColumnFormat : Format

/-- `PulpitumPgWireServer`, with the parsers and the encoder it uses. -/
structure PulpitumPgWireServer where
  sql : Engine
  table : DurableTable
  tableName : String
  parse : SqlParser
  parseRfc3339 : String → Option DateTime
  encoder : RowEncoder

/-- `Response`. -/
inductive Response where
  | execution (tag : String) (rows : ℕ)
  | query (fields : List FieldInfo) (rows : List DataRow)
deriving DecidableEq

/-- The value of a parameter by its type. -/
def parameterValue (portal : GatewayPortal) (index : ℕ) : PgType → Except Stop ParameterValue
  | .text => do
      let value ← portal.text index
      let value ← requiredParameter value
      return .utf8 value
  | .timestamptz => do
      let value ← portal.timestamptz index
      let value ← requiredParameter value
      match timestampNanosOpt value with
      | some nanos => return .timestampNanosecond nanos "UTC"
      | none => .error (queryError "timestamp parameter is outside Arrow nanosecond range")
  | .int8 => do
      let value ← portal.int8 index
      let value ← requiredParameter value
      return .int64 value
  | .bytea => .error (queryError "SQL statement contains an unsupported parameter")

/-- `read_parameter_values`. -/
def readParameterValues (portal : GatewayPortal) (statement : String) :
    Except Stop (List ParameterValue) := do
  let parameterTypes ← readParameterTypes statement
  validateParameterCount portal.toPortal parameterTypes.length
  parameterTypes.zipIdx.mapM fun p => parameterValue portal p.2 p.1

namespace PulpitumPgWireServer

variable (server : PulpitumPgWireServer)

/-- `dataframe`. -/
def dataframe (statement : String) : Worker (Except Stop server.sql.DataFrame) := do
  match ← server.sql.sql statement with
  | some frame => return .ok frame
  | none => return .error (queryError "query could not be planned")

/-- `dataframe_with_parameters`. -/
def dataframeWithParameters (statement : String) (parameters : List ParameterValue) :
    Worker (Except Stop server.sql.DataFrame) := do
  match ← server.dataframe statement with
  | .error e => return .error e
  | .ok frame =>
      match server.sql.withParamValues frame parameters with
      | some frame => return .ok frame
      | none => return .error (queryError "query parameters could not be bound")

/-- The record of an INSERT. -/
def insertRecord (statement : String) : Option GatewayPortal → Except Stop Record
  | some portal =>
      parseBoundInsert server.parse server.parseRfc3339 statement server.tableName portal.toPortal
  | none => parseInsert server.parse server.parseRfc3339 statement server.tableName

/-- The data frame of a read. -/
def frameOf (statement : String) :
    Option GatewayPortal → Worker (Except Stop server.sql.DataFrame)
  | some portal =>
      match readParameterValues portal statement with
      | .error e => return .error e
      | .ok parameters => server.dataframeWithParameters statement parameters
  | none => server.dataframe statement

/-- What is answered once the append has returned. -/
def answerInsert : Except DurableTableError Unit → Except Stop Response
  | .ok () => .ok (.execution "INSERT 0" 1)
  | .error _ => .error (queryError "record could not be appended")

/-- What is answered once the batches are there. -/
def answerRead (fields : List FieldInfo) : Option (List RecordBatch) → Except Stop Response
  | some batches => (encodeRows server.encoder fields batches).map (.query fields)
  | none => .error (queryError "query could not be executed")

/-- The part of `execute_with_parameters` for an INSERT, at the time `now`. -/
def executeInsert (now : DateTime) (statement : String) (portal : Option GatewayPortal) :
    Worker (Except Stop Response) :=
  match server.insertRecord statement portal with
  | .error e => return .error e
  | .ok record =>
      match server.table.append now record with
      | none => return .error .panicked
      | some program => do
          let r ← program
          return answerInsert r

/-- The part of `execute_with_parameters` for a read. -/
def executeRead (statement : String) (format : Format) (portal : Option GatewayPortal) :
    Worker (Except Stop Response) := do
  match ← server.frameOf statement portal with
  | .error e => return .error e
  | .ok frame =>
      match fieldsFromSchema (server.sql.schema frame) format with
      | .error e => return .error e
      | .ok fields => do
          let batches ← server.sql.collect frame
          return server.answerRead fields batches

/-- `execute_with_parameters`. -/
def executeWithParameters (now : DateTime) (statement : String) (format : Format)
    (portal : Option GatewayPortal) : Worker (Except Stop Response) :=
  match gatewayStatementKind server.parse statement with
  | .error e => return .error e
  | .ok .insert => server.executeInsert now statement portal
  | .ok .read => server.executeRead statement format portal

/-- `SimpleQueryHandler::do_query`. -/
def simpleQuery (now : DateTime) (query : String) : Worker (Except Stop (List Response)) :=
  if isBlank query then return .ok []
  else do
    let response ← server.executeWithParameters now query .unifiedText none
    return response.map fun x => [x]

/-- The check of `ExtendedQueryHandler::do_query`. -/
def checkPortal (portal : GatewayPortal) : Except Stop Unit := do
  let parameterTypes ← parameterTypesForStatement server.parse portal.statement server.tableName
  validateParameterCount portal.toPortal parameterTypes.length

/-- `ExtendedQueryHandler::do_query`. -/
def extendedQuery (now : DateTime) (portal : GatewayPortal) : Worker (Except Stop Response) :=
  match server.checkPortal portal with
  | .error e => return .error e
  | .ok () =>
      server.executeWithParameters now portal.statement portal.resultColumnFormat (some portal)

/-- The fields that are described for a statement: none for an INSERT. -/
def describeFields (statement : String) (format : Format) :
    Worker (Except Stop (List FieldInfo)) :=
  match gatewayStatementKind server.parse statement with
  | .error e => return .error e
  | .ok .insert =>
      return (parseInsertValues server.parse statement server.tableName).map fun _ => []
  | .ok .read => do
      match ← server.dataframe statement with
      | .error e => return .error e
      | .ok frame => return fieldsFromSchema (server.sql.schema frame) format

/-- `do_describe_statement`: the types of the parameters, and the fields. -/
def describeStatement (statement : String) :
    Worker (Except Stop (List PgType × List FieldInfo)) := do
  match ← server.describeFields statement .unifiedText with
  | .error e => return .error e
  | .ok fields =>
      return (parameterTypesForStatement server.parse statement server.tableName).map (·, fields)

/-- `do_describe_portal`. -/
def describePortal (portal : GatewayPortal) : Worker (Except Stop (List FieldInfo)) :=
  server.describeFields portal.statement portal.resultColumnFormat

end PulpitumPgWireServer

/-! ### What a request does to the stores -/

/-- A read of one of the stores. -/
def IsRead : Effect → Prop
  | .call (.store (.readRange ..)) => True
  | .call (.archive (.getBucket ..)) => True
  | _ => False

/-- **What a scan of the table asks of the stores are reads.** -/
theorem readBucket_asks (bucket : BucketId) (range : TimeRange) (after : Option Cursor)
    (limit : ℕ) : (readBucket bucket range after limit).Asks IsRead := by
  rw [readBucket_eq]
  refine ⟨trivial, fun r => ?_⟩
  rcases r with e | records | key
  · trivial
  · trivial
  · refine ⟨trivial, fun r => ?_⟩
    rcases r with e | records <;> trivial

/-- DataFusion has no other access to the stores than the reads of the table. -/
structure Engine.ReadsOnly (engine : Engine) : Prop where
  sql : ∀ statement, (engine.sql statement).Asks IsRead
  collect : ∀ frame, (engine.collect frame).Asks IsRead

/-- A request of a client. -/
inductive GatewayRequest where
  | simple (query : String)
  | extended (portal : GatewayPortal)
  | describeStatement (statement : String)
  | describePortal (portal : GatewayPortal)

namespace GatewayRequest

def statement : GatewayRequest → String
  | simple statement | describeStatement statement => statement
  | extended portal | describePortal portal => portal.statement

def portal? : GatewayRequest → Option GatewayPortal
  | simple _ | describeStatement _ => none
  | extended portal | describePortal portal => some portal

/-- The statement is executed, and not only described. -/
def executes : GatewayRequest → Bool
  | simple _ | extended _ => true
  | describeStatement _ | describePortal _ => false

end GatewayRequest

/-- What a client is sent: responses, or a description. -/
inductive GatewayReply where
  | responses (responses : List Response)
  | statement (types : List PgType) (fields : List FieldInfo)
  | portal (fields : List FieldInfo)

namespace PulpitumPgWireServer

/-- What is done for a request. -/
def handle (server : PulpitumPgWireServer) (now : DateTime) :
    GatewayRequest → Worker (Except Stop GatewayReply)
  | .simple query => do
      let responses ← server.simpleQuery now query
      return responses.map .responses
  | .extended portal => do
      let response ← server.extendedQuery now portal
      return response.map fun x => .responses [x]
  | .describeStatement statement => do
      let described ← server.describeStatement statement
      return described.map fun p => .statement p.1 p.2
  | .describePortal portal => do
      let fields ← server.describePortal portal
      return fields.map .portal

variable {server : PulpitumPgWireServer} {now : DateTime} {record : Record} {bucket : BucketId}

/-- The reply to an INSERT whose append the store has answered. -/
def replyOfAppend : Except DurableBucketStoreError Unit → Except Stop GatewayReply
  | .ok () => .ok (.responses [.execution "INSERT 0" 1])
  | .error _ => .error (queryError "record could not be appended")

/-- The reply acknowledges no row. -/
def Unacknowledging (reply : Except Stop GatewayReply) : Prop :=
  ∀ responses, reply = .ok (.responses responses) →
    ∀ x ∈ responses, ∃ fields rows, x = .query fields rows

/-- What a request may ask of the stores, with their answers, and what it then replies. -/
inductive Bounded (server : PulpitumPgWireServer) (now : DateTime) (request : GatewayRequest) :
    History → Except Stop GatewayReply → Prop where
  /-- The record of a plain INSERT is appended, once, and acknowledged if the store has
  acknowledged it. -/
  | appends {record : Record} {bucket : BucketId} {answer : Except DurableBucketStoreError Unit}
      (hexec : request.executes = true)
      (hkind : gatewayStatementKind server.parse request.statement = .ok .insert)
      (hrecord : server.insertRecord request.statement request.portal? = .ok record)
      (hroute : server.table.routeAppend now record = some (.ok bucket)) :
      Bounded server now request [⟨.call (.store (.append bucket record)), answer⟩]
        (replyOfAppend answer)
  /-- Nothing is written, and no write is acknowledged. -/
  | reads {history : History} {reply : Except Stop GatewayReply}
      (hreads : ∀ x ∈ history, IsRead x.1) (hreply : Unacknowledging reply) :
      Bounded server now request history reply

/-- What `append` comes to. -/
theorem append_cases {program : Worker (Except DurableTableError Unit)}
    (h : server.table.append now record = some program) :
    (∃ e, program = .ret (.error e)) ∨
      ∃ bucket, server.table.routeAppend now record = some (.ok bucket) ∧
        program = .ask (.call (.store (.append bucket record))) fun
          | .ok () => .ret (.ok ())
          | .error e => .ret (.error (DurableTable.appendError bucket e)) := by
  obtain ⟨r, hroute, h⟩ := Option.bind_eq_some_iff.mp h
  cases r with
  | error e =>
      cases h
      exact .inl ⟨e, rfl⟩
  | ok bucket =>
      cases h
      exact .inr ⟨bucket, hroute, rfl⟩

theorem unacknowledging_error (e : Stop) : Unacknowledging (.error e) := fun _ h => nomatch h

/-- A reply without a response is within the bounds. -/
theorem bounded_error (request : GatewayRequest) (e : Stop) :
    Bounded server now request [] (.error e) :=
  .reads (List.forall_mem_nil _) (unacknowledging_error e)

/-- What is sent for the response to a statement. -/
def sent (r : Except Stop Response) : Except Stop GatewayReply := r.map fun x => .responses [x]

theorem executeInsert_ends (now : DateTime) {request : GatewayRequest}
    (hexec : request.executes = true)
    (hkind : gatewayStatementKind server.parse request.statement = .ok .insert) :
    (server.executeInsert now request.statement request.portal?).Ends fun h r =>
      Bounded server now request h (sent r) := by
  unfold executeInsert
  split
  · exact bounded_error request _
  · rename_i record hrecord
    split
    · exact bounded_error request _
    · rename_i program happend
      rcases append_cases happend with ⟨e, rfl⟩ | ⟨bucket, hroute, rfl⟩
      · exact bounded_error request _
      · intro answer
        rcases answer with e | ⟨⟩
        · exact .appends hexec hkind hrecord hroute
        · exact .appends hexec hkind hrecord hroute

/-- A read is answered with rows. -/
theorem unacknowledging_answerRead (fields : List FieldInfo)
    (batches : Option (List RecordBatch)) :
    Unacknowledging (sent (server.answerRead fields batches)) := by
  intro responses hok
  obtain ⟨response, hanswer, hsent⟩ := map_eq_ok hok
  cases hsent
  cases batches with
  | none => cases hanswer
  | some batches =>
      obtain ⟨rows, -, rfl⟩ := map_eq_ok hanswer
      exact List.forall_mem_singleton.mpr ⟨fields, rows, rfl⟩

theorem dataframe_asks (hreads : server.sql.ReadsOnly) (statement : String) :
    (server.dataframe statement).Asks IsRead := by
  refine (hreads.sql statement).bind fun frame => ?_
  cases frame <;> trivial

theorem frameOf_asks (hreads : server.sql.ReadsOnly) (statement : String)
    (portal : Option GatewayPortal) : (server.frameOf statement portal).Asks IsRead := by
  cases portal with
  | none => exact dataframe_asks hreads statement
  | some portal =>
      rw [frameOf]
      split
      · trivial
      · refine (dataframe_asks hreads statement).bind fun r => ?_
        cases r with
        | error e => trivial
        | ok frame =>
            dsimp only
            split <;> trivial

theorem executeRead_ends (hreads : server.sql.ReadsOnly) {request : GatewayRequest}
    (format : Format) :
    (server.executeRead request.statement format request.portal?).Ends fun h r =>
      Bounded server now request h (sent r) := by
  refine Prog.Ends.bind ((Prog.Ends.of_asks (frameOf_asks hreads _ _)).imp fun h frame hh => ?_)
  cases frame with
  | error e => exact .reads (by rwa [List.append_nil]) (unacknowledging_error e)
  | ok frame =>
      dsimp only
      split
      · exact .reads (by rwa [List.append_nil]) (unacknowledging_error _)
      · rename_i fields _
        refine Prog.Ends.bind ((Prog.Ends.of_asks (hreads.collect frame)).imp fun h' b hh' => ?_)
        refine .reads ?_ (unacknowledging_answerRead fields b)
        rw [List.append_nil]
        exact List.forall_mem_append.mpr ⟨hh, hh'⟩

theorem executeWithParameters_ends (hreads : server.sql.ReadsOnly) (now : DateTime)
    {request : GatewayRequest} (hexec : request.executes = true) (format : Format) :
    (server.executeWithParameters now request.statement format request.portal?).Ends fun h r =>
      Bounded server now request h (sent r) := by
  unfold executeWithParameters
  split
  · exact bounded_error request _
  · rename_i hkind
    exact executeInsert_ends now hexec hkind
  · exact executeRead_ends hreads format

theorem describeFields_asks (hreads : server.sql.ReadsOnly) (statement : String)
    (format : Format) : (server.describeFields statement format).Asks IsRead := by
  unfold describeFields
  split
  · trivial
  · trivial
  · refine (dataframe_asks hreads statement).bind fun r => ?_
    cases r <;> trivial

theorem describeStatement_asks (hreads : server.sql.ReadsOnly) (statement : String) :
    (server.describeStatement statement).Asks IsRead := by
  refine (describeFields_asks hreads statement .unifiedText).bind fun r => ?_
  cases r <;> trivial

/-- A request that only reads and is not answered with responses is within the bounds. -/
theorem bounded_of_asks {α : Type} {p : Worker (Except Stop α)} {request : GatewayRequest}
    {f : α → GatewayReply} (hp : p.Asks IsRead) (hf : ∀ a responses, f a ≠ .responses responses) :
    (p >>= fun r => (return r.map f)).Ends fun h r => Bounded server now request h r := by
  refine Prog.Ends.bind ((Prog.Ends.of_asks hp).imp fun h r hh => ?_)
  refine .reads (by rwa [List.append_nil]) fun responses hok => ?_
  obtain ⟨a, -, ha⟩ := map_eq_ok hok
  exact absurd ha.symm (hf a responses)

/-- **What one request does.**  Whatever the stores answer, a request of any text either appends the
record of its INSERT once, and acknowledges one row exactly when the store has acknowledged the
append, or it only reads and acknowledges no row. -/
theorem handle_bounded (hreads : server.sql.ReadsOnly) (now : DateTime) (request : GatewayRequest) :
    (server.handle now request).Ends fun h r => Bounded server now request h r := by
  cases request with
  | simple query =>
      refine Prog.Ends.bind ?_
      unfold simpleQuery
      split
      · refine .reads (List.forall_mem_nil _) fun responses hok => ?_
        cases hok
        exact List.forall_mem_nil _
      · have hends := @executeWithParameters_ends server hreads now (.simple query) rfl .unifiedText
        refine Prog.Ends.bind (hends.imp fun h r hr => ?_)
        simp only [Prog.pure_eq, Prog.Ends, List.append_nil]
        cases r <;> exact hr
  | extended portal =>
      refine Prog.Ends.bind ?_
      have hends : (server.extendedQuery now portal).Ends fun h r =>
          Bounded server now (.extended portal) h (sent r) := by
        unfold extendedQuery
        split
        · exact bounded_error _ _
        · exact @executeWithParameters_ends server hreads now (.extended portal) rfl _
      refine hends.imp fun h r hr => ?_
      simp only [Prog.pure_eq, Prog.Ends, List.append_nil]
      exact hr
  | describeStatement statement =>
      exact bounded_of_asks (describeStatement_asks hreads statement) fun _ _ h => nomatch h
  | describePortal portal =>
      exact bounded_of_asks (describeFields_asks hreads _ _) fun _ _ h => nomatch h

end PulpitumPgWireServer

/-! ### Sessions -/

/-- A request of a session: when it is made, and DataFusion as it is then. -/
structure Call where
  now : DateTime
  sql : Engine
  request : GatewayRequest

/-- The append that is asked for. -/
def appended? : (e : Effect) × e.Answer → Option (BucketId × Record)
  | ⟨.call (.store (.append bucket record)), _⟩ => some (bucket, record)
  | _ => none

/-- The record whose append the store has acknowledged. -/
def acknowledged? : (e : Effect) × e.Answer → Option Record
  | ⟨.call (.store (.append _ record)), Except.ok _⟩ => some record
  | _ => none

theorem appended?_of_isRead {x : (e : Effect) × e.Answer} (h : IsRead x.1) :
    appended? x = none ∧ acknowledged? x = none := by
  constructor
  · unfold appended?
    split
    · exact h.elim
    · rfl
  · unfold acknowledged?
    split
    · exact h.elim
    · rfl

namespace PulpitumPgWireServer

/-- The server at the time of a request. -/
def during (server : PulpitumPgWireServer) (call : Call) : PulpitumPgWireServer :=
  { server with sql := call.sql }

/-- One request after the other. -/
def session (server : PulpitumPgWireServer) : List Call → Worker (List (Except Stop GatewayReply))
  | [] => return []
  | call :: calls => do
      let reply ← (server.during call).handle call.now call.request
      let replies ← server.session calls
      return reply :: replies

/-- The record of an INSERT of the table that is executed, and the bucket it is routed to. -/
def inserted? (server : PulpitumPgWireServer) (call : Call) : Option (BucketId × Record) :=
  match call.request.executes, gatewayStatementKind server.parse call.request.statement,
    server.insertRecord call.request.statement call.request.portal? with
  | true, .ok .insert, .ok record =>
      match server.table.routeAppend call.now record with
      | some (.ok bucket) => some (bucket, record)
      | _ => none
  | _, _, _ => none

/-- The record that a client was told is inserted. -/
def told? (server : PulpitumPgWireServer) : Call × Except Stop GatewayReply → Option Record
  | (call, .ok (.responses [.execution _ _])) =>
      (server.insertRecord call.request.statement call.request.portal?).toOption
  | _ => none

/-- What the stores were asked in a session is what the clients asked for and were told. -/
structure Faithful (server : PulpitumPgWireServer) (calls : List Call) (history : History)
    (replies : List (Except Stop GatewayReply)) : Prop where
  /-- Only records of INSERTs are appended, at most once each and in their order. -/
  writes : (history.filterMap appended?).Sublist (calls.filterMap server.inserted?)
  /-- All else that is asked are reads. -/
  reads : ∀ x ∈ history, appended? x = none → IsRead x.1
  /-- The records that the clients were told are inserted are those whose appends the store has
  acknowledged. -/
  acknowledged : history.filterMap acknowledged? = (calls.zip replies).filterMap server.told?

variable {server : PulpitumPgWireServer}

theorem told?_of_unacknowledging {reply : Except Stop GatewayReply} (h : Unacknowledging reply)
    (call : Call) : server.told? (call, reply) = none := by
  rcases reply with e | reply
  · rfl
  · cases reply with
    | responses responses =>
        unfold told?
        split
        · rename_i hsingle
          cases hsingle
          obtain ⟨_, _, hquery⟩ := h _ rfl _ (List.mem_singleton_self _)
          cases hquery
        · rfl
    | statement => rfl
    | portal => rfl

/-- One request is served faithfully. -/
theorem Bounded.faithful {call : Call} {history : History} {reply : Except Stop GatewayReply}
    (h : Bounded (server.during call) call.now call.request history reply) :
    Faithful server [call] history [reply] := by
  cases h with
  | @appends record bucket answer hexec hkind hrecord hroute =>
      have hinserted : server.inserted? call = some (bucket, record) := by
        have hkind' : gatewayStatementKind server.parse call.request.statement = .ok .insert :=
          hkind
        have hrecord' : server.insertRecord call.request.statement call.request.portal? =
          .ok record := hrecord
        have hroute' : server.table.routeAppend call.now record = some (.ok bucket) := hroute
        rw [inserted?, hexec, hkind', hrecord']
        dsimp only
        rw [hroute']
      refine ⟨?_, List.forall_mem_singleton.mpr (fun hnone => nomatch hnone), ?_⟩
      · rw [List.filterMap_cons_some hinserted]
        exact .refl _
      · rcases answer with e | ⟨⟩
        · rfl
        · have htold : server.told? (call, replyOfAppend (.ok ())) = some record :=
            congrArg Except.toOption hrecord
          rw [List.zip_cons_cons, List.filterMap_cons_some htold]
          rfl
  | reads hreads hreply =>
      have hnone : ∀ x ∈ history, appended? x = none ∧ acknowledged? x = none :=
        fun x hx => appended?_of_isRead (hreads x hx)
      refine ⟨?_, fun x hx _ => hreads x hx, ?_⟩
      · rw [List.filterMap_eq_nil_iff.mpr fun x hx => (hnone x hx).1]
        exact List.nil_sublist _
      · rw [List.filterMap_eq_nil_iff.mpr fun x hx => (hnone x hx).2, List.zip_cons_cons,
          List.filterMap_cons_none (told?_of_unacknowledging hreply call)]
        rfl

/-- Requests are served faithfully one after the other. -/
theorem Faithful.cons {call : Call} {calls : List Call} {history history' : History}
    {reply : Except Stop GatewayReply} {replies : List (Except Stop GatewayReply)}
    (h : Faithful server [call] history [reply]) (h' : Faithful server calls history' replies) :
    Faithful server (call :: calls) (history ++ history') (reply :: replies) where
  writes := by
    have hsplit : (call :: calls).filterMap server.inserted? =
        [call].filterMap server.inserted? ++ calls.filterMap server.inserted? := by
      rw [← List.filterMap_append, List.singleton_append]
    rw [List.filterMap_append, hsplit]
    exact h.writes.append h'.writes
  reads x hx := (List.mem_append.mp hx).elim (h.reads x) (h'.reads x)
  acknowledged := by
    have hsplit : ((call :: calls).zip (reply :: replies)).filterMap server.told? =
        ([call].zip [reply]).filterMap server.told? ++
          (calls.zip replies).filterMap server.told? := by
      rw [← List.filterMap_append]
      rfl
    rw [List.filterMap_append, hsplit, h.acknowledged, h'.acknowledged]

/-- **The gateway writes what was inserted and says so.**  Whatever the stores answer, over any
number of requests one after the other: only records that INSERTs of the table which are executed
are parsed into are appended, in their order and at most as often; all else are reads; and the
INSERTs that are answered `INSERT 0 1` are, in order, those whose append the store has
acknowledged. -/
theorem session_faithful {calls : List Call} (hreads : ∀ call ∈ calls, call.sql.ReadsOnly) :
    (server.session calls).Ends fun history replies => Faithful server calls history replies := by
  induction calls with
  | nil => exact ⟨.refl _, List.forall_mem_nil _, rfl⟩
  | cons call calls ih =>
      obtain ⟨hcall, hcalls⟩ := List.forall_mem_cons.mp hreads
      have hfirst := @handle_bounded (server.during call) hcall call.now call.request
      refine Prog.Ends.bind (hfirst.imp fun h reply hbounded => ?_)
      refine Prog.Ends.bind ((ih hcalls).imp fun h' replies hrest => ?_)
      simp only [Prog.pure_eq, Prog.Ends, List.append_nil]
      exact hbounded.faithful.cons hrest

end PulpitumPgWireServer

/-! ### A gateway to evaluate on -/

namespace Sample
open DateTime (fromTimestampNanos)
open DataFusion (recordBatch tableSchema)
open Pulpitum.Sample (bucket newYear table year2026)

theorem year2027 : minYear ≤ 2027 ∧ 2027 ≤ maxYear := by decide

/-- The bucket of the sample record. -/
def messages : BucketId :=
  { bucket with
    partitionKey := record.partitionKey
    key := ⟨"year:2026", by decide⟩
    start := newYear 2026 year2026
    endAt := newYear 2027 year2027 }

/-- What a scan returns for `id` and `value`. -/
def idAndValue (records : List Record) : Option (List RecordBatch) :=
  match recordBatch .reference (tableSchema table) [2, 3] records with
  | some (.ok batch) => some [batch]
  | _ => none

/-- The SELECT, with its parameters. -/
def collectMessages : List ParameterValue → Worker (Option (List RecordBatch))
  | [.utf8 _, .timestampNanosecond lo _, .timestampNanosecond hi _] => do
      let r ← readBucket messages ⟨fromTimestampNanos lo, fromTimestampNanos hi⟩ none usizeMax
      return r.toOption.bind idAndValue
  | _ => return none

theorem collectMessages_asks (parameters : List ParameterValue) :
    (collectMessages parameters).Asks IsRead := by
  unfold collectMessages
  split
  · exact (readBucket_asks _ _ _ _).bind fun _ => trivial
  · trivial

/-- DataFusion for the SELECT: its data frame is the list of the parameters. -/
def engine : Engine where
  DataFrame := List ParameterValue
  sql statement := return if statement = selectSql then some [] else none
  withParamValues _ parameters := some parameters
  schema _ := Arrow.pick [2, 3] (tableSchema table)
  collect := collectMessages

theorem readsOnly_engine : engine.ReadsOnly := ⟨fun _ => trivial, collectMessages_asks⟩

/-- The gateway of the table `messages`. -/
def gateway : PulpitumPgWireServer where
  sql := engine
  table := table
  tableName := "messages"
  parse := parser
  parseRfc3339 := parseRfc3339
  encoder := encoder

/-- The bound INSERT and its parameters. -/
def boundPortal : GatewayPortal where
  toPortal := portal
  statement := boundSql
  int8 _ := .ok none
  resultColumnFormat := .unifiedText

/-- The SELECT for 2026, in binary. -/
def selectPortal : GatewayPortal where
  parameterLen := 3
  text _ := .ok (some "general")
  timestamptz i := .ok (some (if i = 1 then messages.start else messages.endAt))
  bytea _ := .ok none
  statement := selectSql
  int8 _ := .ok none
  resultColumnFormat _ := .binary

/-- Two INSERTs and the SELECT; the portals are described before they are executed. -/
def calls : List Call :=
  [.simple literalSql, .describePortal boundPortal, .extended boundPortal,
    .describePortal selectPortal, .extended selectPortal].map fun request =>
      ⟨noon, engine, request⟩

end Sample

set_option maxRecDepth 40000 in
/-- A session of two INSERTs that are acknowledged, and a SELECT for which one record is read. -/
theorem session_faithful_of_calls : ∃ history replies,
    (Sample.gateway.session Sample.calls).Trace history replies ∧
      history.filterMap acknowledged? = [Sample.record, Sample.record] ∧
      PulpitumPgWireServer.Faithful Sample.gateway Sample.calls history replies := by
  have hreads : ∀ call ∈ Sample.calls, call.sql.ReadsOnly := by
    intro call hcall
    obtain ⟨request, -, rfl⟩ := List.mem_map.mp hcall
    exact Sample.readsOnly_engine
  have hfaithful : ∀ {calls history replies}, (∀ call ∈ calls, call.sql.ReadsOnly) →
      (Sample.gateway.session calls).Trace history replies →
      PulpitumPgWireServer.Faithful Sample.gateway calls history replies :=
    fun hreads htrace => (PulpitumPgWireServer.session_faithful hreads).trace htrace
  have htrace : (Sample.gateway.session Sample.calls).Trace
      [⟨.call (.store (.append _ _)), Except.ok ()⟩, ⟨.call (.store (.append _ _)), Except.ok ()⟩,
        ⟨.call (.store (.readRange ..)), Except.ok (.hot [Sample.record])⟩] _ :=
    ⟨_, _, rfl, _, _, rfl, _, _, rfl, rfl, rfl⟩
  exact ⟨_, _, htrace, rfl, hfaithful hreads htrace⟩

end Sidecar
end Pulpitum
