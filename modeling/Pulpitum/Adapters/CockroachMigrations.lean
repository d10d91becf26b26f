import Mathlib
import Pulpitum.Adapters.CockroachSchema
import Pulpitum.Adapters.CockroachServer

/-!
# Adapters — Cockroach migrations

`migrate` and `validate_schema` of any number of processes over one database.  The processes may
know different lists of migrations, as they do while a new release is rolled out, as long as each
list begins the longest one.

* `migrate_ledger`, `validateSchema_ledger`: what either call commits, and what it was told when it
  returned.
* `committed_migrations`: a transaction of `migrate` takes the history from one beginning of the
  list to its own.
* `migrations_once`: **every migration is executed once, in order**, and a call that returned `Ok`
  found or left all its migrations applied.
-/

namespace Pulpitum
namespace Cockroach

open Serial (Standing)
open Text

/-! ### The database -/

/-- What the migrations make of a database. -/
structure SchemaDb where
  /-- The rows of `pulpitum_schema_migrations`, if there is such a table. -/
  applied : Option (List AppliedMigration)
  /-- The batches that were executed. -/
  executed : List String

/-- A database without any table. -/
def SchemaDb.empty : SchemaDb := ⟨none, []⟩

section Exec

-- the digest that `Sha256` computes, and the answer with some rows
variable {R : Type} (digest : List Byte → List Byte) (rows : List AppliedMigration → R)

/-- `INSERT INTO pulpitum_schema_migrations`, under the constraints of the table. -/
def SchemaDb.insert (m : SchemaMigration) (db : SchemaDb) : Except PgError R × SchemaDb :=
  match db.applied with
  | none => (.error (.db "42P01"), db)
  | some l =>
      if m.version < 0 then (.error (.db "23514"), db)
      else if ∃ r ∈ l, r.version = m.version ∨ r.name = m.name then (.error (.db "23505"), db)
      else (.ok (rows []), { db with applied := some (l ++ [m.applied digest]) })

/-- `SELECT version, name, checksum FROM pulpitum_schema_migrations ORDER BY version`. -/
def SchemaDb.select (db : SchemaDb) : Except PgError R × SchemaDb :=
  match db.applied with
  | none => (.error (.db "42P01"), db)
  | some l => (.ok (rows (l.insertionSort fun a b => a.version ≤ b.version)), db)

/-- What the statements do.  Those that do not write the schema are answered with no rows. -/
def SchemaDb.exec : Statement → SchemaDb → Except PgError R × SchemaDb
  | .createMigrationHistory, db => (.ok (rows []), { db with applied := some (db.applied.getD []) })
  | .selectAppliedMigrations, db => db.select rows
  | .migration sql, db => (.ok (rows []), { db with executed := db.executed ++ [sql] })
  | .insertMigration m, db => db.insert digest rows m
  | _, db => (.ok (rows []), db)

/-- A statement that leaves the history and the schema as they are. -/
def Harmless : Statement → Prop
  | .migration _ | .insertMigration _ => False
  | _ => True

end Exec

/-! ### The calls -/

namespace Conn

variable {R : Type} {D : Decoding R} {vague : PgError → Bool}

/-- The statements of a transaction of `migrate` that is ready to commit: the history was read and
planned, and what was planned was applied. -/
def Migrated (D : Decoding R) (log : Serial.Log Statement (Except PgError R)) : Prop :=
  ∃ rows pending log', log = ⟨.selectAppliedMigrations, .ok rows⟩ :: log' ∧
    D.plan (D.appliedMigrations rows) = .ok pending ∧ (applyPending pending).Trace log' none

/-- A call of `migrate` that returned `Ok` has had a transaction committed, and a call of
`validate_schema` has read a history with nothing left to plan. -/
def UpToDate (D : Decoding R) (result : Except CockroachSchemaError Unit)
    (m : Standing Statement (Except PgError R)) : Prop :=
  result = .ok () → (∃ log, m.sent = some (log, true)) ∨
    ∃ rows, ⟨.selectAppliedMigrations, .ok rows⟩ ∈ m.ran ∧
      D.plan (D.appliedMigrations rows) = .ok []

theorem upToDate_error {e : CockroachSchemaError} {m : Standing Statement (Except PgError R)} :
    UpToDate D (.error e) m := nofun

theorem not_faulty_applyPending {pending : List SchemaMigration}
    {log : Serial.Log Statement (Except PgError R)} (h : (applyPending pending).Trace log none) :
    ¬ Faulty log := by
  induction pending generalizing log with
  | nil =>
      obtain ⟨rfl, -⟩ := h
      rintro ⟨x, hx, -⟩
      cases hx
  | cons m pending ih =>
      obtain ⟨r, log, rfl, h⟩ := h
      cases r with
      | error e => cases h.2
      | ok r =>
          obtain ⟨r', log, rfl, h⟩ := h
          cases r' with
          | error e => cases h.2
          | ok r' =>
              rintro ⟨x, hx, hbad⟩
              rcases List.mem_cons.mp hx with rfl | hx
              · cases hbad
              rcases List.mem_cons.mp hx with rfl | hx
              · cases hbad
              · exact ih h ⟨x, hx, hbad⟩

theorem ledger_giveUp {conn : Serial.Conn Statement (Except PgError R)}
    {sent : Option (Serial.Log Statement (Except PgError R) × Bool)}
    {ran : Serial.Log Statement (Except PgError R)} {e : CockroachSchemaError} :
    Ledger vague (Migrated D) Harmless ⟨conn, sent, ran⟩ (giveUp e)
      (Ended ran (UpToDate D)) :=
  ledger_rollbackAndMark fun _ => ledger_drop upToDate_error

/-- Sleeping, or not, before the connection is dropped. -/
theorem ledger_retryOr_drop {conn : Serial.Conn Statement (Except PgError R)}
    {ran : Serial.Log Statement (Except PgError R)} {retry : Bool} {e : CockroachSchemaError} :
    Ledger vague (Migrated D) Harmless ⟨conn, none, ran⟩ (do
      let result ← retryOr retry (.error e)
      dropConnection
      return result) (Ended ran (UpToDate D)) := by
  refine Prog.Follows.bind (p := retryOr retry (Except.error e))
    (ledger_retryOr (fun _ => ?_) fun _ => ?_)
  · exact ledger_drop rfl
  · exact ledger_drop upToDate_error

theorem migratePending_ledger (hv : ∀ e, vague e = true → isRetryable e = false) {rows : R}
    {ran : Serial.Log Statement (Except PgError R)} {pending : List SchemaMigration}
    (hplan : D.plan (D.appliedMigrations rows) = .ok pending) (more : Bool) :
    Ledger vague (Migrated D) Harmless
      ⟨.opened [⟨.selectAppliedMigrations, .ok rows⟩], none, ran⟩ (migratePending D pending more)
      (Ended ran (UpToDate D)) := by
  refine Prog.Follows.bind (p := run (applyPending pending))
    (run_opened (fun log failed ht => ?_) fun log failed ht hfaulty => ?_)
  · cases failed with
    | some e => exact ledger_rollbackAndMark fun _ => ledger_retryOr_drop
    | none =>
        refine ledger_send (allowed_commit ⟨rows, pending, log, rfl, hplan, ht⟩) fun answer => ?_
        rcases answer with e | _
        · cases hve : vague e with
          | true =>
              simp only [Sql.event, hve, if_true, Prog.bind, hv e hve, Bool.false_and]
              exact ledger_drop upToDate_error
          | false =>
              simp only [Sql.event, hve, Bool.false_eq_true, if_false, Prog.bind]
              split
              · exact Prog.Follows.bind (p := rollback)
                  (ledger_rollback fun _ _ => ledger_retryOr_drop)
              · exact ledger_drop upToDate_error
        · refine ⟨⟨fun _ => trivial, trivial⟩, fun _ => ledger_drop fun _ => ?_⟩
          exact .inl ⟨_, rfl⟩
  · cases failed with
    | some e => exact ledger_rollbackAndMark fun _ => ledger_retryOr_drop
    | none => exact absurd hfaulty (not_faulty_applyPending ht)

theorem migrateAttempt_ledger (hv : ∀ e, vague e = true → isRetryable e = false)
    {ran : Serial.Log Statement (Except PgError R)} (more : Bool) :
    Ledger vague (Migrated D) Harmless ⟨.none, none, ran⟩ (migrateAttempt D more)
      (Ended ran (UpToDate D)) := by
  refine ⟨⟨?_, trivial⟩, fun acquired => ?_⟩
  · rintro (_ | _) <;> exact trivial
  rcases acquired with _ | ⟨⟨⟩⟩
  · exact upToDate_error
  refine ⟨⟨fun _ => trivial, trivial⟩, fun _ => ?_⟩
  refine ledger_send (fun answer => ?_) fun answer => ?_
  · rcases answer with _ | _ | _ <;> exact trivial
  rcases answer with e | _
  · refine ledger_drop ?_
    split
    · exact rfl
    · exact upToDate_error
  refine Prog.Follows.bind (p := run (readAppliedMigrations D))
    (run_opened (fun log applied ht => ?_) fun log applied ht hfaulty => ?_)
  · obtain ⟨answer, _, rfl, ht⟩ := ht
    cases answer with
    | error e =>
        obtain ⟨rfl, rfl⟩ := ht
        exact ledger_giveUp
    | ok rows =>
        obtain ⟨rfl, rfl⟩ := ht
        dsimp only
        cases hplan : D.plan (D.appliedMigrations rows) with
        | error e => exact ledger_giveUp
        | ok pending => exact migratePending_ledger hv hplan more
  · obtain ⟨answer, _, rfl, ht⟩ := ht
    cases answer with
    | error e =>
        obtain ⟨rfl, rfl⟩ := ht
        exact ledger_giveUp
    | ok rows =>
        obtain ⟨rfl, rfl⟩ := ht
        obtain ⟨x, hx, hbad⟩ := hfaulty
        obtain rfl := List.mem_singleton.mp hx
        cases hbad

/-- **What `migrate` commits**: the migrations that were planned for the history it read. -/
theorem migrate_ledger (hv : ∀ e, vague e = true → isRetryable e = false) :
    Ledger vague (Migrated D) Harmless ⟨.none, none, []⟩ (migrate D) (UpToDate D) := by
  refine .bind (withConnection_ledger ⟨trivial, ?_⟩ ?_ ?_)
  · rintro (_ | _) <;> exact trivial
  · exact fun e => upToDate_error
  · rintro log (e | ⟨⟨⟩⟩) -
    · exact upToDate_error
    · exact attempts_ledger (migrateAttempt_ledger hv) upToDate_error _ _

theorem asks_validateTables (tables : List ExpectedTable) :
    (validateTables D tables).Asks Harmless := by
  induction tables with
  | nil => exact trivial
  | cons table rest ih =>
      have htable : (validateTable D table).Asks Harmless := by
        refine ⟨trivial, fun columns => ?_⟩
        cases columns with
        | error e => exact trivial
        | ok columns =>
            simp only [Prog.bind]
            split
            · exact trivial
            · refine ⟨trivial, fun keys => ?_⟩
              cases keys with
              | error e => exact trivial
              | ok keys =>
                  simp only [Prog.bind]
                  split <;> exact trivial
      refine htable.bind fun result => ?_
      rcases result with e | ⟨⟨⟩⟩
      · exact trivial
      · exact ih

/-- **`validate_schema` changes nothing**, and returns `Ok` only after it read a history with
nothing left to plan. -/
theorem validateSchema_ledger (tables : List ExpectedTable) :
    Ledger vague (Migrated D) Harmless ⟨.none, none, []⟩ (validateSchema D tables)
      (UpToDate D) := by
  refine withConnection_ledger ?_ (fun e => upToDate_error) fun log result ht hok => ?_
  · refine ⟨trivial, fun answer => ?_⟩
    cases answer with
    | error e => exact trivial
    | ok rows =>
        simp only [Prog.bind, Prog.pure_eq]
        split
        · exact trivial
        · exact asks_validateTables tables
        · exact trivial
  · obtain ⟨answer, log, rfl, ht⟩ := ht
    cases answer with
    | error e =>
        cases ht.2
        cases hok
    | ok rows =>
        simp only [Prog.bind, Prog.pure_eq] at ht
        split at ht
        · cases ht.2
          cases hok
        · next hplan =>
            exact .inr ⟨rows, List.mem_append_right _ (List.mem_filter.mpr ⟨.head _, rfl⟩), hplan⟩
        · cases ht.2
          cases hok

end Conn

/-! ### The history -/

section History

variable {R : Type} {digest : List Byte → List Byte} {rows : List AppliedMigration → R}
  {all own : List SchemaMigration} {k : ℕ} {db db' : SchemaDb} {D : Decoding R}
  {log : Serial.Log Statement (Except PgError R)}

/-- The first `k` migrations have been executed and recorded, in order, and no other. -/
structure Prefixed (digest : List Byte → List Byte) (all : List SchemaMigration) (k : ℕ)
    (db : SchemaDb) : Prop where
  le : k ≤ all.length
  executed : db.executed = (all.take k).map SchemaMigration.sql
  applied : db.applied.getD [] = (all.take k).map (SchemaMigration.applied digest)

theorem Prefixed.eq_length (h : Prefixed digest all k db) : k = db.executed.length := by
  rw [h.executed, List.length_map, List.length_take, min_eq_left h.le]

/-- A statement that is harmless keeps what was executed and recorded. -/
theorem Prefixed.harmless {s : Statement} {r : Except PgError R} (h : Prefixed digest all k db)
    (hs : Harmless s) (hr : Serial.Replays (SchemaDb.exec digest rows) db [⟨s, r⟩] db') :
    Prefixed digest all k db' := by
  obtain ⟨-, rfl⟩ := hr
  cases s with
  | createMigrationHistory => exact ⟨h.le, h.executed, h.applied⟩
  | selectAppliedMigrations =>
      simp only [SchemaDb.exec, SchemaDb.select]
      split <;> exact h
  | migration sql => exact hs.elim
  | insertMigration m => exact hs.elim
  | _ => exact h

/-- The history that a statement read, up to its order. -/
theorem perm_of_select {answer : R} (hrows : ∀ l, D.appliedMigrations (rows l) = l)
    (h : (SchemaDb.exec digest rows .selectAppliedMigrations db).1 = .ok answer) :
    (D.appliedMigrations answer).Perm (db.applied.getD []) ∧ db.applied.isSome := by
  simp only [SchemaDb.exec, SchemaDb.select] at h
  split at h
  · cases h
  · next l hl =>
      cases h
      rw [hrows, hl]
      exact ⟨List.perm_insertionSort _ l, rfl⟩

theorem exec_select (db : SchemaDb) :
    (SchemaDb.exec digest rows .selectAppliedMigrations db).2 = db := by
  simp only [SchemaDb.exec, SchemaDb.select]
  split <;> rfl

/-- A row that was inserted is the last of the history. -/
theorem insert_eq_ok {m : SchemaMigration} {answer : R}
    (h : (db.insert digest rows m).1 = .ok answer) : ∃ l, db.applied = some l ∧
      (db.insert digest rows m).2 = { db with applied := some (l ++ [m.applied digest]) } := by
  unfold SchemaDb.insert at h ⊢
  split at h
  · cases h
  · next l hl =>
      split_ifs at h
      · rename_i hneg hdup
        exact ⟨l, hl, by simp only [if_neg hneg, if_neg hdup]⟩

/-- The migrations of a log that was answered without an error are executed and recorded. -/
theorem replays_applyPending {pending : List SchemaMigration} {l : List AppliedMigration}
    (ht : (Conn.applyPending pending : Statements R _).Trace log none)
    (hr : Serial.Replays (SchemaDb.exec digest rows) db log db') (hl : db.applied = some l) :
    db'.executed = db.executed ++ pending.map SchemaMigration.sql ∧
      db'.applied = some (l ++ pending.map (SchemaMigration.applied digest)) := by
  induction pending generalizing log db l with
  | nil =>
      obtain ⟨rfl, -⟩ := ht
      obtain rfl := hr
      simp only [List.map_nil, List.append_nil]
      exact ⟨trivial, hl⟩
  | cons m pending ih =>
      obtain ⟨r, log, rfl, ht⟩ := ht
      cases r with
      | error e => cases ht.2
      | ok r =>
          obtain ⟨r', log, rfl, ht⟩ := ht
          cases r' with
          | error e => cases ht.2
          | ok r' =>
              obtain ⟨-, hins, hr⟩ := hr
              obtain ⟨l', hl', hafter⟩ := insert_eq_ok hins
              obtain rfl : l' = l := Option.some.inj (hl'.symm.trans hl)
              have hstate : (SchemaDb.exec digest rows (.insertMigration m)
                  (SchemaDb.exec digest rows (.migration m.sql) db).2).2 =
                  ⟨some (l' ++ [m.applied digest]), db.executed ++ [m.sql]⟩ := hafter
              rw [hstate] at hr
              obtain ⟨hexec, happ⟩ := ih ht hr rfl
              rw [hexec, happ, List.append_assoc, List.append_assoc]
              exact ⟨rfl, rfl⟩

/-- The migrations a process knows begin the list. -/
theorem take_length_of_prefix (h : own <+: all) : all.take own.length = own :=
  (List.prefix_iff_eq_take.mp h).symm

/-- A history of the first migrations that is planned for is no longer than the list, and what is
planned is its rest. -/
theorem planned_of_prefixed {applied : List AppliedMigration} {pending : List SchemaMigration}
    (hall : Ascending all) (hown : own <+: all) (hne : own ≠ [])
    (hplan : ∀ applied, planMigrations digest own applied = some (D.plan applied))
    (h : Prefixed digest all k db) (hperm : applied.Perm (db.applied.getD []))
    (hpending : D.plan applied = .ok pending) :
    k ≤ own.length ∧ all.take k ++ pending = own := by
  have hasc : Ascending own := hall.sublist hown.sublist
  have hp := hplan applied
  rw [hpending] at hp
  rcases planMigrations_cases hne hasc applied with ⟨⟨e, he⟩, -⟩ | ⟨j, hj, hpermj⟩
  · rw [he] at hp
    cases hp
  rw [hj] at hp
  cases hp
  rw [h.applied] at hperm
  have hlength := (hperm.symm.trans hpermj).length_eq
  rw [List.length_map, List.length_map, List.length_take, List.length_take, min_eq_left h.le]
    at hlength
  have htake : all.take k = own.take j := by
    rw [hlength, ← List.take_take, take_length_of_prefix hown]
  rw [htake, List.take_append_drop]
  exact ⟨hlength ▸ min_le_right _ _, rfl⟩

/-- **What a transaction of `migrate` does**: it takes the history from one beginning of the list
to that of its own migrations, which is no shorter. -/
theorem committed_migrations (hall : Ascending all) (hown : own <+: all) (hne : own ≠ [])
    (hrows : ∀ l, D.appliedMigrations (rows l) = l)
    (hplan : ∀ applied, planMigrations digest own applied = some (D.plan applied))
    (h : Prefixed digest all k db) (hlog : Conn.Migrated D log)
    (hr : Serial.Replays (SchemaDb.exec digest rows) db log db') :
    k ≤ own.length ∧ Prefixed digest all own.length db' := by
  obtain ⟨answer, pending, log', rfl, hpending, ht⟩ := hlog
  obtain ⟨hsel, hr⟩ := hr
  rw [exec_select] at hr
  obtain ⟨hperm, hsome⟩ := perm_of_select hrows hsel
  obtain ⟨l, hl⟩ := Option.isSome_iff_exists.mp hsome
  obtain ⟨hk, hdrop⟩ := planned_of_prefixed hall hown hne hplan h hperm hpending
  obtain ⟨hexec, happ⟩ := replays_applyPending ht hr hl
  have happlied := h.applied
  rw [hl] at happlied
  refine ⟨hk, hown.length_le, ?_, ?_⟩
  · rw [hexec, h.executed, ← List.map_append, hdrop, take_length_of_prefix hown]
  · rw [happ]
    show l ++ _ = _
    rw [show l = _ from happlied, ← List.map_append, hdrop, take_length_of_prefix hown]

end History

/-! ### Many processes -/

/-- What a process does with the schema. -/
inductive Duty where
  | migrate
  | validateSchema (tables : List ExpectedTable)

/-- The call of a process. -/
def Duty.call {R : Type} (D : Decoding R) : Duty → Conn R (Except CockroachSchemaError Unit)
  | migrate => Conn.migrate D
  | validateSchema tables => Conn.validateSchema D tables

/-- A release of the program: the migrations it knows, and the decoding with their planner. -/
structure Release (R : Type) (digest : List Byte → List Byte) where
  migrations : List SchemaMigration
  nonempty : migrations ≠ []
  decoding : Decoding R
  plan : ∀ applied, planMigrations digest migrations applied = some (decoding.plan applied)

section Many

variable {R : Type} {digest : List Byte → List Byte} {rows : List AppliedMigration → R}
  {all : List SchemaMigration} {releases : ℕ → Release R digest} {k n i : ℕ} {db db' : SchemaDb}

/-- At least the first `n` migrations have been executed and recorded. -/
def AtLeast (digest : List Byte → List Byte) (all : List SchemaMigration) (n : ℕ) (db : SchemaDb) :
    Prop :=
  ∃ k, n ≤ k ∧ Prefixed digest all k db

variable (hall : Ascending all) (hown : ∀ i, (releases i).migrations <+: all)
  (hrows : ∀ i l, (releases i).decoding.appliedMigrations (rows l) = l)

include hall hown hrows

/-- Whatever takes effect, no migration is taken back. -/
theorem AtLeast.entry {e : Serial.Entry Unit Statement (Except PgError R)}
    (h : AtLeast digest all n db)
    (hgood : e.auto = false → Conn.Migrated (releases e.client).decoding e.log)
    (hauto : e.auto = true → ∃ s r, e.log = [⟨s, r⟩] ∧ Harmless s)
    (hr : Serial.Replays (SchemaDb.exec digest rows) db e.log db') : AtLeast digest all n db' := by
  obtain ⟨k, hn, hk⟩ := h
  cases hcase : e.auto with
  | true =>
      obtain ⟨s, r, hlog, hs⟩ := hauto hcase
      rw [hlog] at hr
      exact ⟨k, hn, hk.harmless hs hr⟩
  | false =>
      obtain ⟨hle, hpre⟩ := committed_migrations hall (hown e.client) (releases e.client).nonempty
        (hrows e.client) (releases e.client).plan hk (hgood hcase) hr
      exact ⟨_, hn.trans hle, hpre⟩

/-- **Migrations are executed once, in order.**  For any number of processes that migrate or
validate one database, however their calls overlap, whichever are retried, lose an answer or are
given up: what has been executed is the beginning of the one list of migrations, each once and in
order, and the history records exactly that.  Once a call has returned `Ok`, all the migrations its
process knows are executed. -/
theorem migrations_once (vague : PgError → Bool) (hv : ∀ e, vague e = true → isRetryable e = false)
    (duties : ℕ → Duty)
    {w : Serial.World (Ask.Answer R) (Except CockroachSchemaError Unit) Unit Statement
      (Except PgError R) SchemaDb}
    (h : Serial.Reaches (fun _ => SchemaDb.exec digest rows) (wire R vague)
      (fun i => (duties i).call (releases i).decoding) (.init .empty) w) :
    ∃ k ≤ all.length,
      w.server.state.executed = (all.take k).map SchemaMigration.sql ∧
      w.server.state.applied.getD [] = (all.take k).map (SchemaMigration.applied digest) ∧
      ∀ i, w.Returned i (.ok ()) → (releases i).migrations.length ≤ k := by
  have hinv : Serial.Inv (fun _ => SchemaDb.exec digest rows) (wire R vague)
      (fun i => Conn.Migrated (releases i).decoding) Harmless
      (fun i => Conn.UpToDate (releases i).decoding) .empty w := by
    refine Serial.Inv.reaches (fun i => ?_) h
    cases duties i with
    | migrate => exact Conn.migrate_ledger hv
    | validateSchema tables => exact Conn.validateSchema_ledger tables
  -- what took effect keeps every beginning of the list
  have hkeeps : ∀ n, ∀ e ∈ w.server.history, ∀ t t', AtLeast digest all n t →
      Serial.Replays (SchemaDb.exec digest rows) t e.log t' → AtLeast digest all n t' :=
    fun n e he t t' ht hr => ht.entry hall hown hrows
      (hinv.filed.good e (List.mem_append_left _ he))
      (hinv.filed.auto e (List.mem_append_left _ he)) hr
  have hempty : AtLeast digest all 0 .empty := ⟨0, le_rfl, Nat.zero_le _, rfl, rfl⟩
  obtain ⟨k, -, hk⟩ := hinv.serial.keeps (hkeeps 0) hempty
  refine ⟨k, hk.le, hk.executed, hk.applied, fun i hret => ?_⟩
  obtain ⟨m, hm⟩ := hret
  -- the entry of which the call was told, and what it left
  have hentry : ∃ e ∈ w.server.history, e.client = i ∧ ∀ t t', AtLeast digest all 0 t →
      Serial.Replays (SchemaDb.exec digest rows) t e.log t' →
        AtLeast digest all (releases i).migrations.length t' := by
    rcases hinv.follows i _ _ hm rfl rfl with ⟨log, hsent⟩ | ⟨answer, hran, hplan⟩
    · obtain ⟨e, he, rfl, hauto, rfl⟩ := hinv.confirmed i _ _ _ hm (.sent hsent)
      refine ⟨e, he, rfl, ?_⟩
      rintro t t' ⟨j, -, hj⟩ hr
      have hgood := hinv.filed.good e (List.mem_append_left _ he) hauto
      exact ⟨_, le_rfl, (committed_migrations hall (hown _) (releases _).nonempty (hrows _)
        (releases _).plan hj hgood hr).2⟩
    · obtain ⟨e, he, rfl, -, hlog⟩ := hinv.confirmed i _ _ _ hm (.ran hran)
      refine ⟨e, he, rfl, ?_⟩
      rintro t t' ⟨j, -, hj⟩ hr
      rw [hlog] at hr
      obtain ⟨hsel, rfl⟩ := hr
      obtain ⟨hperm, -⟩ := perm_of_select (hrows _) hsel
      obtain ⟨-, hall'⟩ := planned_of_prefixed hall (hown _) (releases _).nonempty
        (releases _).plan hj hperm hplan
      rw [exec_select]
      refine ⟨j, ?_, hj⟩
      rw [← hall', List.append_nil, List.length_take]
      exact min_le_left _ _
  obtain ⟨e, he, rfl, hleft⟩ := hentry
  obtain ⟨es₁, es₂, t, t', hes, h₁, hr, h₂⟩ := hinv.serial.of_mem he
  have ht : AtLeast digest all 0 t := h₁.keeps
    (fun e' he' => hkeeps 0 e' (hes ▸ List.mem_append_left _ he')) hempty
  obtain ⟨k', hn, hk'⟩ := h₂.keeps
    (fun e' he' => hkeeps _ e' (hes ▸ List.mem_append_right _ (.tail _ he'))) (hleft t t' ht hr)
  rwa [hk.eq_length, ← hk'.eq_length]

end Many

/-- The planner always comes to an end. -/
theorem plan_total {digest : List Byte → List Byte} {migrations : List SchemaMigration}
    (hne : migrations ≠ []) (h : Ascending migrations) (applied : List AppliedMigration) :
    planMigrations digest migrations applied =
      some ((planMigrations digest migrations applied).getD (.ok [])) := by
  rcases planMigrations_cases hne h applied with ⟨⟨e, he⟩, -⟩ | ⟨k, hk, -⟩
  · rw [he]
    rfl
  · rw [hk]
    rfl

namespace Sample

/-- A migration. -/
def baseline : SchemaMigration := ⟨4, "baseline", "baseline"⟩

theorem ascending_baseline : Ascending [baseline] := List.pairwise_singleton _ _

/-- The release that knows it, with histories that are answered as they are. -/
def release : Release (List AppliedMigration) id where
  migrations := [baseline]
  nonempty := List.cons_ne_nil _ _
  decoding :=
    { showPg := fun _ => ""
      showStore := fun _ => ""
      appliedMigrations := id
      plan := fun applied => (planMigrations id [baseline] applied).getD (.ok [])
      columnNames := fun _ => []
      state := fun _ => .ok .hot
      work := fun _ => .ok []
      read := fun _ => .ok (.hot []) }
  plan := plan_total (List.cons_ne_nil _ _) ascending_baseline

/-- The statements of its transaction, and their answers. -/
def migrated : Serial.Log Statement (Except PgError (List AppliedMigration)) :=
  [⟨.selectAppliedMigrations, .ok []⟩, ⟨.migration "baseline", .ok []⟩,
    ⟨.insertMigration baseline, .ok []⟩]

/-- The table was created, and then the migration applied. -/
def afterMigrate : Serial.World (Ask.Answer (List AppliedMigration))
    (Except CockroachSchemaError Unit) Unit Statement (Except PgError (List AppliedMigration))
    SchemaDb :=
  ⟨⟨⟨some [baseline.applied id], ["baseline"]⟩,
      [⟨0, true, (), [⟨.createMigrationHistory, .ok []⟩]⟩, ⟨0, false, (), migrated⟩], []⟩,
    [⟨some (.ret (.ok ())),
      ⟨.none, some (migrated, true), [⟨.createMigrationHistory, .ok []⟩]⟩⟩]⟩

theorem reaches_afterMigrate :
    Serial.Reaches (fun _ => SchemaDb.exec id id) (wire _ (· = .connection))
      (fun _ => Duty.call release.decoding .migrate) (.init .empty) afterMigrate := by
  have hcreated : Serial.Replays (SchemaDb.exec id id) .empty
      [⟨.createMigrationHistory, .ok []⟩] ⟨some [], []⟩ := ⟨rfl, rfl⟩
  have hmigrated : Serial.Replays (SchemaDb.exec id id) ⟨some [], []⟩ migrated
      ⟨some [baseline.applied id], ["baseline"]⟩ := ⟨rfl, rfl, rfl, rfl⟩
  refine .head .start (Serial.Reaches.answer (r := .ok ()) (.never nofun) ?_)
  refine Serial.Reaches.answer (r := .ok []) (by exact .now (n := ()) (.ran rfl) hcreated) ?_
  refine Serial.Reaches.answer (r := ()) (.never nofun) ?_
  -- the attempt: a connection, `BEGIN`, the history, the migration and its row
  refine Serial.Reaches.answer (r := .ok ()) (.never nofun) ?_
  refine Serial.Reaches.answer (r := ()) (.never nofun) ?_
  refine Serial.Reaches.answer (r := .ok []) (.never nofun) ?_
  refine Serial.Reaches.answer (r := .ok []) (.never nofun) ?_
  refine Serial.Reaches.answer (r := .ok []) (.never nofun) ?_
  refine Serial.Reaches.answer (r := .ok []) (.never nofun) ?_
  have hdue : Serial.Due (wire (List AppliedMigration) (· = .connection)) (.opened migrated)
      .committed false true migrated := .committed
  refine Serial.Reaches.answer (r := .ok []) (by exact .now (n := ()) hdue hmigrated) ?_
  refine Serial.Reaches.answer (r := ()) (.never nofun) ?_
  exact Serial.Reaches.answer (r := ()) (.never nofun) .refl

end Sample

/-- A process has migrated an empty database. -/
theorem migrations_once_of_one :
    Sample.afterMigrate.Returned 0 (.ok ()) ∧ ∃ k ≤ 1,
      Sample.afterMigrate.server.state.executed =
        ([Sample.baseline].take k).map SchemaMigration.sql ∧ 1 ≤ k := by
  have hreturned : Sample.afterMigrate.Returned 0 (.ok ()) := ⟨_, rfl⟩
  have hown : ∀ i, ((fun _ => Sample.release : ℕ → Release _ id) i).migrations <+:
      [Sample.baseline] := fun _ => List.prefix_rfl
  obtain ⟨k, hk, hexecuted, -, hdone⟩ := migrations_once Sample.ascending_baseline hown
    (fun _ _ => rfl) (· = .connection) (fun e he => by rw [of_decide_eq_true he]; rfl)
    (fun _ => .migrate) Sample.reaches_afterMigrate
  exact ⟨hreturned, k, hk, hexecuted, hdone 0 hreturned⟩

end Cockroach
end Pulpitum
