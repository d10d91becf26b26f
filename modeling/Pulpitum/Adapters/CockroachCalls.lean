import Mathlib
import Pulpitum.Support.Prog
import Pulpitum.Adapters.CockroachTransaction

/-!
# Adapters — Cockroach calls

What the calls of `CockroachDurableBucketStore` do with their connections: `transaction`, `migrate`,
`validate_schema`, `state`, `discover_archive_work` and `read_range`, as programs that acquire a
connection, mark it, send statements over it and drop it.  What the statements mean is left open,
and so is what the server answers.

* `sessionProtocol`: `BEGIN` is sent only over a connection marked uncertain, which is marked
  reusable only after a `COMMIT` or `ROLLBACK` was acknowledged.
* `IsCall.follows`: every call follows it, whatever it is answered.
* `attempt_eval`: on the replies of an `Attempt`, the program of an attempt of `transaction` comes
  to its verdict.
-/

namespace Pulpitum
namespace Cockroach

/-- `SchemaMigration`. -/
structure SchemaMigration where
  version : ℤ
  name : String
  sql : String
deriving DecidableEq

/-- `AppliedMigration`. -/
structure AppliedMigration where
  version : ℤ
  name : String
  checksum : String
deriving DecidableEq

/-- `CockroachSchemaError`. -/
inductive CockroachSchemaError where
  | database (message : String)
  | checksumDrift (version : ℤ) (expectedName expectedChecksum actualName actualChecksum : String)
  | unsupportedHistoricalVersion (version firstSupported : ℤ)
  | futureVersion (version latestSupported : ℤ)
  | migrationGap (missing present : ℤ)
  | duplicateVersion (version : ℤ)
  | pendingMigrations (versions : List ℤ)
  | missingColumn (table column : String)
  | primaryKeyMismatch (table : String) (expected actual : List String)
deriving DecidableEq

/-- `ExpectedTable`. -/
structure ExpectedTable where
  name : String
  columns : List String
  primaryKey : List String
deriving DecidableEq

/-- The statements, by what they are for.  None begins or ends a transaction. -/
inductive Statement where
  /-- One of the statements of an operation in a transaction. -/
  | operation (text : String)
  | createMigrationHistory
  | selectAppliedMigrations
  /-- The batch of a migration. -/
  | migration (sql : String)
  | insertMigration (migration : SchemaMigration)
  | selectColumns (table : String)
  | selectPrimaryKey (table : String)
  | selectState (bucket : BucketId)
  | selectCleanups (limit : ℕ)
  | selectCutovers (eligibleBefore : DateTime) (limit : ℕ)
  | selectRouted (bucket : BucketId) (range : TimeRange) (after : Option Cursor) (limit : ℕ)

/-- What is sent over a connection. -/
inductive Sql where
  /-- `BEGIN ISOLATION LEVEL SERIALIZABLE`. -/
  | begin_
  | commit
  | rollback
  | statement (s : Statement)

/-- What a call asks of the pool, of its connection and of its runtime. -/
inductive Ask where
  /-- `pool.acquire().await`. -/
  | acquire
  | markUncertain
  | markReusable
  /-- Send, and await the answer. -/
  | send (sql : Sql)
  /-- Send, and await the answer under a timeout. -/
  | sendWithin (sql : Sql)
  /-- The connection is dropped. -/
  | dropConnection
  | sleep

/-- What it is answered, `R` being the rows of an answer.  No answer within a timeout is
`none`. -/
def Ask.Answer (R : Type) : Ask → Type
  | acquire => Except StoreError Unit
  | send _ => Except PgError R
  | sendWithin _ => Option (Except PgError R)
  | _ => Unit

/-- The program of a call. -/
abbrev Conn (R α : Type) := Prog (Ask.Answer R) α

/-- A program that only sends statements. -/
abbrev Statements (R α : Type) := Prog (fun _ : Statement => Except PgError R) α

namespace Conn

variable {R α ε : Type}

def acquire : Conn R (Except StoreError Unit) := Prog.perform Ask.acquire

def markUncertain : Conn R Unit := Prog.perform Ask.markUncertain

def markReusable : Conn R Unit := Prog.perform Ask.markReusable

def send (sql : Sql) : Conn R (Except PgError R) := Prog.perform (Ask.send sql)

def sendWithin (sql : Sql) : Conn R (Option (Except PgError R)) :=
  Prog.perform (Ask.sendWithin sql)

def dropConnection : Conn R Unit := Prog.perform Ask.dropConnection

def sleep : Conn R Unit := Prog.perform Ask.sleep

/-- Send one statement. -/
def query (s : Statement) : Statements R (Except PgError R) := Prog.perform s

/-- The statements, one after another. -/
def run : Statements R α → Conn R α
  | .ret a => .ret a
  | .ask s k => .ask (.send (.statement s)) fun r => run (k r)

/-- The statements under one timeout, at whichever of them it elapses. -/
def runWithin : Statements R α → Conn R (Option α)
  | .ret a => .ret (some a)
  | .ask s k => .ask (.sendWithin (.statement s)) fun answer =>
      Option.elim answer (.ret none) fun r => runWithin (k r)

/-- `rollback`: the answer was complete and in time. -/
def rollback : Conn R Bool := do
  match ← sendWithin .rollback with
  | some (.ok _) => return true
  | _ => return false

/-- `if rollback(..).await { connection.mark_reusable(); }`. -/
def rollbackAndMark : Conn R Unit := do
  if ← rollback then markReusable

/-! ### `transaction` -/

/-- Sleep and make another attempt, or return. -/
def retryOr (retry : Bool) (result : α) : Conn R (Option α) :=
  if retry then do
    sleep
    return none
  else return some result

/-- `COMMIT`, after the operation returned `v`. -/
def commitAttempt (v : α) (more : Bool) : Conn R (Option (Except DurableBucketStoreError α)) := do
  match ← sendWithin .commit with
  | none =>
      dropConnection
      return some (.error .commitOutcomeUnknown)
  | some (.ok _) =>
      markReusable
      dropConnection
      return some (.ok v)
  | some (.error e) =>
      rollbackAndMark
      dropConnection
      retryOr (isRetryable e && more)
        (.error (if isDbError e then .operationFailed else .commitOutcomeUnknown))

/-- `ROLLBACK`, after the operation failed. -/
def failAttempt (failure : TransactionFailure) (retry : Bool) :
    Conn R (Option (Except DurableBucketStoreError α)) :=
  if retry then do
    if ← rollback then
      markReusable
      dropConnection
      retryOr true (.error .operationFailed)
    else
      dropConnection
      return some (.error .operationFailed)
  else do
    rollbackAndMark
    dropConnection
    return some (.error failure.intoStoreError)

/-- The body of the loop of `transaction`: `none` to make another attempt. -/
def attempt (operation : Statements R (Except TransactionFailure α)) (more : Bool) :
    Conn R (Option (Except DurableBucketStoreError α)) := do
  match ← acquire with
  | .error _ => return some (.error .unavailable)
  | .ok () =>
      markUncertain
      match ← sendWithin .begin_ with
      | none =>
          dropConnection
          return some (.error .operationFailed)
      | some (.error e) =>
          dropConnection
          retryOr (isRetryable e && more) (.error .operationFailed)
      | some (.ok _) =>
          match ← runWithin operation with
          | none =>
              dropConnection
              return some (.error .operationFailed)
          | some (.ok v) => commitAttempt v more
          | some (.error (.database e)) => failAttempt (.database e) (isRetryable e && more)
          | some (.error (.store e)) => failAttempt (.store e) false

/-- A loop of up to `n` attempts, the first with the number `i`; `exhausted` after the last. -/
def attempts (body : Bool → Conn R (Option α)) (exhausted : α) : ℕ → ℕ → Conn R α
  | 0, _ => return exhausted
  | n + 1, i => do
      match ← body (i + 1 < maxTransactionAttempts) with
      | some result => return result
      | none => attempts body exhausted n (i + 1)

/-- `CockroachDurableBucketStore::transaction`. -/
def transaction (operation : Statements R (Except TransactionFailure α)) :
    Conn R (Except DurableBucketStoreError α) :=
  attempts (attempt operation) (.error .operationFailed) maxTransactionAttempts 0

end Conn

/-- What is taken from elsewhere: how errors print, what rows decode to, and the planner of
migrations. -/
structure Decoding (R : Type) where
  showPg : PgError → String
  showStore : StoreError → String
  appliedMigrations : R → List AppliedMigration
  plan : List AppliedMigration → Except CockroachSchemaError (List SchemaMigration)
  columnNames : R → List String
  state : R → Except DurableBucketStoreError BucketState
  work : R → Except DurableBucketStoreError (List BucketId)
  read : R → Except DurableBucketStoreError DurableBucketRead

namespace Conn

variable {R α ε : Type} (D : Decoding R)

/-- `schema_database_error`. -/
def schemaDatabaseError (e : PgError) : CockroachSchemaError := .database (D.showPg e)

/-- `schema_pool_error`. -/
def schemaPoolError (e : StoreError) : CockroachSchemaError := .database (D.showStore e)

/-- `read_applied_migrations`. -/
def readAppliedMigrations : Statements R (Except CockroachSchemaError (List AppliedMigration)) := do
  match ← query .selectAppliedMigrations with
  | .error e => return .error (schemaDatabaseError D e)
  | .ok rows => return .ok (D.appliedMigrations rows)

/-- The loop over the pending migrations, to the first that fails. -/
def applyPending : List SchemaMigration → Statements R (Option PgError)
  | [] => return none
  | migration :: rest => do
      match ← query (.migration migration.sql) with
      | .error e => return some e
      | .ok _ =>
          match ← query (.insertMigration migration) with
          | .error e => return some e
          | .ok _ => applyPending rest

/-- The pending migrations and `COMMIT`.  The connection is held while the call sleeps. -/
def migratePending (pending : List SchemaMigration) (more : Bool) :
    Conn R (Option (Except CockroachSchemaError Unit)) := do
  match ← run (applyPending pending) with
  | some e =>
      rollbackAndMark
      let result ← retryOr (isRetryable e && more) (.error (schemaDatabaseError D e))
      dropConnection
      return result
  | none =>
      match ← send .commit with
      | .ok _ =>
          markReusable
          dropConnection
          return some (.ok ())
      | .error e =>
          if isRetryable e && more then
            let _ ← rollback
            let result ← retryOr true (.error (schemaDatabaseError D e))
            dropConnection
            return result
          else
            dropConnection
            return some (.error (schemaDatabaseError D e))

/-- `ROLLBACK`, after the history could not be read or planned. -/
def giveUp (e : CockroachSchemaError) : Conn R (Option (Except CockroachSchemaError Unit)) := do
  rollbackAndMark
  dropConnection
  return some (.error e)

/-- The body of the loop of `migrate`: `none` to make another attempt. -/
def migrateAttempt (more : Bool) : Conn R (Option (Except CockroachSchemaError Unit)) := do
  match ← acquire with
  | .error e => return some (.error (schemaPoolError D e))
  | .ok () =>
      markUncertain
      match ← send .begin_ with
      | .error e =>
          dropConnection
          if isRetryable e && more then return none
          else return some (.error (schemaDatabaseError D e))
      | .ok _ =>
          match ← run (readAppliedMigrations D) with
          | .error e => giveUp e
          | .ok applied =>
              match D.plan applied with
              | .error e => giveUp e
              | .ok pending => migratePending D pending more

/-- A call that sends statements over one connection, outside any transaction. -/
def withConnection (poolError : StoreError → ε) (body : Statements R (Except ε α)) :
    Conn R (Except ε α) := do
  match ← acquire with
  | .error e => return .error (poolError e)
  | .ok () =>
      let result ← run body
      dropConnection
      return result

/-- `CockroachDurableBucketStore::migrate`. -/
def migrate : Conn R (Except CockroachSchemaError Unit) := do
  let create : Statements R (Except CockroachSchemaError Unit) := do
    match ← query .createMigrationHistory with
    | .error e => return .error (schemaDatabaseError D e)
    | .ok _ => return .ok ()
  match ← withConnection (schemaPoolError D) create with
  | .error e => return .error e
  | .ok () =>
      attempts (migrateAttempt D)
        (.error (.database "migration transaction exhausted its retry budget"))
        maxTransactionAttempts 0

/-- `validate_table`. -/
def validateTable (expected : ExpectedTable) : Statements R (Except CockroachSchemaError Unit) := do
  match ← query (.selectColumns expected.name) with
  | .error e => return .error (schemaDatabaseError D e)
  | .ok rows =>
      match expected.columns.find? fun column => column ∉ D.columnNames rows with
      | some column => return .error (.missingColumn expected.name column)
      | none =>
          match ← query (.selectPrimaryKey expected.name) with
          | .error e => return .error (schemaDatabaseError D e)
          | .ok rows =>
              let actual := D.columnNames rows
              if actual = expected.primaryKey then return .ok ()
              else return .error (.primaryKeyMismatch expected.name expected.primaryKey actual)

/-- The loop over the expected tables. -/
def validateTables : List ExpectedTable → Statements R (Except CockroachSchemaError Unit)
  | [] => return .ok ()
  | table :: rest => do
      match ← validateTable D table with
      | .error e => return .error e
      | .ok () => validateTables rest

/-- `CockroachDurableBucketStore::validate_schema`. -/
def validateSchema (tables : List ExpectedTable) : Conn R (Except CockroachSchemaError Unit) :=
  withConnection (schemaPoolError D) do
    match ← readAppliedMigrations D with
    | .error e => return .error e
    | .ok applied =>
        match D.plan applied with
        | .error e => return .error e
        | .ok [] => validateTables D tables
        | .ok pending => return .error (.pendingMigrations (pending.map SchemaMigration.version))

/-! ### Reads -/

/-- `pool_error`. -/
def poolError (_ : StoreError) : DurableBucketStoreError := .unavailable

/-- `CockroachDurableBucketStore::state`. -/
def state (bucket : BucketId) : Conn R (Except DurableBucketStoreError BucketState) :=
  withConnection poolError do
    match ← query (.selectState bucket) with
    | .error _ => return .error .operationFailed
    | .ok rows => return D.state rows

/-- `CockroachDurableBucketStore::discover_archive_work`. -/
def discoverArchiveWork (scan : ArchiveScan) :
    Conn R (Except DurableBucketStoreError (List ArchiveWork)) :=
  withConnection poolError do
    match ← query (.selectCleanups scan.limit) with
    | .error _ => return .error .operationFailed
    | .ok rows =>
        match D.work rows with
        | .error e => return .error e
        | .ok cleanups =>
            let remaining := scan.limit - cleanups.length
            if remaining = 0 then return .ok (cleanups.map .cleanup)
            else
              match ← query (.selectCutovers scan.eligibleBefore remaining) with
              | .error _ => return .error .operationFailed
              | .ok rows =>
                  match D.work rows with
                  | .error e => return .error e
                  | .ok cutovers => return .ok (cleanups.map .cleanup ++ cutovers.map .cutover)

/-- `CockroachDurableBucketStore::read_range`; `cached` is what the route cache has. -/
def readRange (cached : Option String) (bucket : BucketId) (range : TimeRange)
    (after : Option Cursor) (limit : ℕ) :
      Conn R (Except DurableBucketStoreError DurableBucketRead) :=
  match cached with
  | some objectKey => return .ok (.archive objectKey)
  | none =>
      withConnection poolError do
        match ← query (.selectRouted bucket range after (min limit (2 ^ 63 - 1))) with
        | .error _ => return .error .operationFailed
        | .ok rows => return D.read rows

end Conn

/-! ### The scripted attempt -/

/-- What is received. -/
def Answer.reply : Answer → Option (Except PgError Unit)
  | ok => some (.ok ())
  | error e => some (.error e)
  | timeout => none

/-- The answers of an attempt's script; no answer to a statement. -/
def Attempt.answer {α : Type} (a : Attempt α) : (q : Ask) → q.Answer Unit
  | .acquire => if a.acquired then .ok () else .error (.other "CockroachDB pool is closed")
  | .sendWithin .begin_ => a.beginAnswer.reply
  | .sendWithin .commit => a.commit.reply
  | .sendWithin .rollback => if a.rolledBack then some (.ok ()) else none
  | .sendWithin (.statement _) => none
  | .send _ => .ok ()
  | .markUncertain | .markReusable | .dropConnection | .sleep => ()

/-- Statements that come to the outcome of a script. -/
def OperationAnswer.statements {α : Type} :
    OperationAnswer α → Statements Unit (Except TransactionFailure α)
  | .value v => return .ok v
  | .failed f => return .error f
  | .timeout => do
      match ← Conn.query (.operation "SELECT 1") with
      | .ok _ => return .error (.store .operationFailed)
      | .error e => return .error (.database e)

/-- The result of an attempt, if it is the last. -/
def Verdict.result {α : Type} : Verdict α → Option (Except DurableBucketStoreError α)
  | .retry => none
  | .done result => some result

/-- A retry under the answers of a script. -/
theorem retryOr_eval {α β : Type} (a : Attempt β) (retry : Bool) (result : α) :
    (Conn.retryOr retry result).eval a.answer = if retry then none else some result := by
  cases retry <;> rfl

theorem rollbackAndMark_eval {α β : Type} (a : Attempt β) (k : Unit → Conn Unit α) :
    (Conn.rollbackAndMark >>= k).eval a.answer = (k ()).eval a.answer := by
  obtain ⟨_, _, _, _, rolledBack⟩ := a
  cases rolledBack <;> rfl

theorem failAttempt_eval {α : Type} (a : Attempt α) (failure : TransactionFailure) (retry : Bool) :
    (Conn.failAttempt failure retry : Conn Unit (Option (Except _ α))).eval a.answer =
      if retry then if a.rolledBack then none else some (.error .operationFailed)
      else some (.error failure.intoStoreError) := by
  cases retry with
  | false => exact rollbackAndMark_eval a _
  | true =>
      obtain ⟨_, _, _, _, rolledBack⟩ := a
      cases rolledBack <;> rfl

/-- **The program of an attempt on the replies of a script.** -/
theorem attempt_eval {α : Type} (a : Attempt α) (more : Bool) :
    (Conn.attempt a.operation.statements more).eval a.answer = (attemptOnce a more).result := by
  obtain ⟨acquired, b, op, commit, rolledBack⟩ := a
  cases acquired with
  | false => rfl
  | true =>
  cases b with
  | timeout => rfl
  | error e =>
      refine (retryOr_eval _ _ _).trans ?_
      simp only [attemptOnce]
      cases isRetryable e && more <;> rfl
  | ok =>
  cases op with
  | timeout => rfl
  | value v =>
      cases commit with
      | ok => rfl
      | timeout => rfl
      | error e =>
          refine (rollbackAndMark_eval _ _).trans ((retryOr_eval _ _ _).trans ?_)
          simp only [attemptOnce]
          cases isRetryable e && more <;> cases isDbError e <;> rfl
  | failed f =>
      cases f with
      | store e => exact failAttempt_eval _ _ false
      | database e =>
          refine (failAttempt_eval _ _ _).trans ?_
          simp only [attemptOnce]
          cases isRetryable e && more <;> cases rolledBack <;> rfl

/-! ### The protocol of a session -/

/-- What a call has of the pool: no connection, or one that is marked and over which a transaction
may have been begun. -/
inductive Session where
  | none
  | held (reusable begun : Bool)
deriving DecidableEq

/-- What is sent. -/
def Ask.sql : Ask → Option Sql
  | send sql | sendWithin sql => some sql
  | _ => none

/-- The answer is a complete one, without an error. -/
def Ask.Acknowledged {R : Type} : (q : Ask) → q.Answer R → Bool
  | send _, .ok _ => true
  | sendWithin _, some (.ok _) => true
  | _, _ => false

/-- Whether a transaction may have been begun, after `sql` was sent and answered. -/
def Sql.begunAfter (sql : Sql) (acknowledged begun : Bool) : Bool :=
  match sql with
  | begin_ => true
  | commit | rollback => begun && !acknowledged
  | statement _ => begun

/-- The protocol of a session: `BEGIN` only over a connection that will not be reused, and reuse
only of a connection over which no transaction may be open. -/
def sessionProtocol (R : Type) : Protocol (Ask.Answer R) where
  Mode := Session
  may
    | s, .acquire => s = .none
    | s, .markUncertain => s ≠ .none
    | s, .markReusable => ∃ r, s = .held r false
    | s, .send .begin_ | s, .sendWithin .begin_ => ∃ b, s = .held false b
    | s, .send _ | s, .sendWithin _ => s ≠ .none
    | s, .dropConnection => s ≠ .none
    | _, .sleep => True
  after
    | _, .acquire, .ok () => .held true false
    | _, .acquire, .error _ => .none
    | .held _ b, .markUncertain, _ => .held false b
    | .held _ b, .markReusable, _ => .held true b
    | .held r b, .send sql, a => .held r (sql.begunAfter ((Ask.send sql).Acknowledged a) b)
    | .held r b, .sendWithin sql, a =>
        .held r (sql.begunAfter ((Ask.sendWithin sql).Acknowledged a) b)
    | _, .dropConnection, _ => .none
    | s, _, _ => s

namespace Conn

variable {R α ε : Type}

/-- The program follows the protocol from `s`, and leaves no connection behind. -/
abbrev Sound (s : Session) (p : Conn R α) : Prop :=
  p.Follows (sessionProtocol R) s fun _ s' => s' = Session.none

theorem run_follows {r b : Bool} {p : Statements R α} {post : α → Session → Prop}
    (h : ∀ a, post a (.held r b)) : (run p).Follows (sessionProtocol R) (.held r b) post := by
  induction p with
  | ret a => exact h a
  | ask s k ih => exact ⟨nofun, fun answer => ih answer⟩

theorem runWithin_follows {r b : Bool} {p : Statements R α} {post : Option α → Session → Prop}
    (h : ∀ a, post a (.held r b)) :
    (runWithin p).Follows (sessionProtocol R) (.held r b) post := by
  induction p with
  | ret a => exact h (some a)
  | ask s k ih =>
      refine ⟨nofun, fun answer => ?_⟩
      cases answer with
      | none => exact h none
      | some answer => exact ih answer

/-- After `rollback` returns `true`, no transaction is open. -/
theorem rollback_follows {r b : Bool} {post : Bool → Session → Prop}
    (ht : post true (.held r false)) (hf : post false (.held r b)) :
    (rollback : Conn R Bool).Follows (sessionProtocol R) (.held r b) post := by
  refine ⟨nofun, fun answer => ?_⟩
  rcases answer with _ | _ | _
  · cases b <;> exact hf
  · cases b <;> exact hf
  · cases b <;> exact ht

/-- `ROLLBACK`, the mark after it, and what follows. -/
theorem rollbackAndMark_follows {r b : Bool} {k : Unit → Conn R α}
    {post : α → Session → Prop}
    (h : ∀ r b, (k ()).Follows (sessionProtocol R) (.held r b) post) :
    (rollbackAndMark >>= k).Follows (sessionProtocol R) (.held r b) post := by
  refine .bind (.bind (rollback_follows ⟨⟨r, rfl⟩, fun _ => ?_⟩ ?_))
  · exact h true false
  · exact h r b

/-- The end of an attempt. -/
theorem drop_sound {r b : Bool} {k : Unit → Conn R α} (h : Sound .none (k ())) :
    Sound (.held r b) (dropConnection >>= k) := ⟨nofun, fun _ => h⟩

theorem retryOr_sound {retry : Bool} {result : α} :
    Sound .none (retryOr retry result : Conn R _) := by
  cases retry with
  | false => exact rfl
  | true => exact ⟨trivial, fun _ => rfl⟩

theorem commitAttempt_sound {b : Bool} (v : α) (more : Bool) :
    Sound (.held false b) (commitAttempt v more : Conn R _) := by
  refine ⟨nofun, fun answer => ?_⟩
  rcases answer with _ | e | _
  · exact drop_sound rfl
  · refine rollbackAndMark_follows fun _ _ => ?_
    exact drop_sound retryOr_sound
  · refine ⟨⟨false, ?_⟩, fun _ => ?_⟩
    · cases b <;> rfl
    · cases b <;> exact drop_sound rfl

theorem failAttempt_sound {b : Bool} (failure : TransactionFailure) (retry : Bool) :
    Sound (.held false b) (failAttempt failure retry : Conn R (Option (Except _ α))) := by
  cases retry with
  | false =>
      refine rollbackAndMark_follows fun _ _ => ?_
      exact drop_sound rfl
  | true =>
      refine Prog.Follows.bind (p := rollback) (rollback_follows ?_ ?_)
      · exact ⟨⟨false, rfl⟩, fun _ => drop_sound retryOr_sound⟩
      · exact drop_sound rfl

theorem attempt_sound (operation : Statements R (Except TransactionFailure α)) (more : Bool) :
    Sound .none (attempt operation more) := by
  refine ⟨rfl, fun acquired => ?_⟩
  rcases acquired with _ | ⟨⟨⟩⟩
  · exact rfl
  refine ⟨nofun, fun _ => ⟨⟨false, rfl⟩, fun begun => ?_⟩⟩
  rcases begun with _ | e | _
  · exact drop_sound rfl
  · exact drop_sound retryOr_sound
  refine Prog.Follows.bind (p := runWithin operation)
    (runWithin_follows (r := false) (b := true) fun result => ?_)
  rcases result with _ | (e | e) | v
  · exact drop_sound rfl
  · exact failAttempt_sound _ _
  · exact failAttempt_sound _ _
  · exact commitAttempt_sound v more

/-- A loop of sound attempts is sound. -/
theorem attempts_sound {body : Bool → Conn R (Option α)} {exhausted : α}
    (h : ∀ more, Sound .none (body more)) (n i : ℕ) :
    Sound .none (attempts body exhausted n i) := by
  induction n generalizing i with
  | zero => exact rfl
  | succ n ih =>
      refine .bind ((h _).imp fun result s hs => ?_)
      subst hs
      cases result with
      | none => exact ih (i + 1)
      | some result => exact rfl

theorem giveUp_sound {r b : Bool} (e : CockroachSchemaError) :
    Sound (.held r b) (giveUp e : Conn R _) := by
  refine rollbackAndMark_follows fun _ _ => ?_
  exact drop_sound rfl

/-- Sleeping, or not, before the connection is dropped. -/
theorem retryOr_drop_sound {r b retry : Bool} {result : α} :
    Sound (.held r b) (do
      let result ← retryOr retry result
      dropConnection
      return result : Conn R _) := by
  cases retry with
  | false => exact drop_sound rfl
  | true => exact ⟨trivial, fun _ => drop_sound rfl⟩

variable (D : Decoding R)

theorem migratePending_sound {b : Bool} (pending : List SchemaMigration) (more : Bool) :
    Sound (.held false b) (migratePending D pending more) := by
  refine Prog.Follows.bind (p := run (applyPending pending)) (run_follows fun failed => ?_)
  cases failed with
  | some e =>
      refine rollbackAndMark_follows fun _ _ => ?_
      exact retryOr_drop_sound
  | none =>
      refine ⟨nofun, fun answer => ?_⟩
      rcases answer with e | _
      · simp only [Prog.bind]
        split
        · refine Prog.Follows.bind (p := rollback) ?_
          cases b <;> exact rollback_follows retryOr_drop_sound retryOr_drop_sound
        · exact drop_sound rfl
      · refine ⟨⟨false, ?_⟩, fun _ => ?_⟩
        · cases b <;> rfl
        · cases b <;> exact drop_sound rfl

theorem migrateAttempt_sound (more : Bool) : Sound .none (migrateAttempt D more) := by
  refine ⟨rfl, fun acquired => ?_⟩
  rcases acquired with _ | ⟨⟨⟩⟩
  · exact rfl
  refine ⟨nofun, fun _ => ⟨⟨false, rfl⟩, fun begun => ?_⟩⟩
  rcases begun with e | _
  · refine drop_sound ?_
    split <;> exact rfl
  refine Prog.Follows.bind (p := run (readAppliedMigrations D))
    (run_follows (r := false) (b := true) fun applied => ?_)
  rcases applied with e | applied
  · exact giveUp_sound e
  dsimp only
  cases D.plan applied with
  | error e => exact giveUp_sound e
  | ok pending => exact migratePending_sound D pending more

theorem withConnection_sound (poolError : StoreError → ε) (body : Statements R (Except ε α)) :
    Sound .none (withConnection poolError body) := by
  refine ⟨rfl, fun acquired => ?_⟩
  rcases acquired with _ | ⟨⟨⟩⟩
  · exact rfl
  refine Prog.Follows.bind (p := run body) (run_follows (r := true) (b := false) fun result => ?_)
  exact drop_sound rfl

theorem migrate_sound : Sound .none (migrate D) := by
  refine .bind ((withConnection_sound _ _).imp fun created s hs => ?_)
  subst hs
  rcases created with _ | ⟨⟨⟩⟩
  · exact rfl
  · exact attempts_sound (migrateAttempt_sound D) _ _

end Conn

/-- The calls of the store that use its pool. -/
inductive IsCall {R : Type} (D : Decoding R) : {α : Type} → Conn R α → Prop where
  | transaction {α : Type} (operation : Statements R (Except TransactionFailure α)) :
      IsCall D (Conn.transaction operation)
  | migrate : IsCall D (Conn.migrate D)
  | validateSchema (tables : List ExpectedTable) : IsCall D (Conn.validateSchema D tables)
  | state (bucket : BucketId) : IsCall D (Conn.state D bucket)
  | discoverArchiveWork (scan : ArchiveScan) : IsCall D (Conn.discoverArchiveWork D scan)
  | readRange (cached : Option String) (bucket : BucketId) (range : TimeRange)
      (after : Option Cursor) (limit : ℕ) :
        IsCall D (Conn.readRange D cached bucket range after limit)

/-- **Every call follows the protocol of a session.** -/
theorem IsCall.follows {R α : Type} {D : Decoding R} {p : Conn R α} (h : IsCall D p) :
    p.Follows (sessionProtocol R) Session.none fun _ s => s = Session.none := by
  cases h with
  | transaction operation => exact Conn.attempts_sound (Conn.attempt_sound operation) _ _
  | migrate => exact Conn.migrate_sound D
  | validateSchema _ => exact Conn.withConnection_sound _ _
  | state _ => exact Conn.withConnection_sound _ _
  | discoverArchiveWork _ => exact Conn.withConnection_sound _ _
  | readRange cached =>
      cases cached with
      | some _ => exact rfl
      | none => exact Conn.withConnection_sound _ _

end Cockroach
end Pulpitum
