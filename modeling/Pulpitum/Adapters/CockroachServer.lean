import Mathlib
import Pulpitum.Support.Serial
import Pulpitum.Adapters.CockroachCalls

/-!
# Adapters — Cockroach server

The calls of `CockroachDurableBucketStore::transaction` over one database, any number of them at a
time.  The pool hands out connections without an open transaction; what the server answers is left
open, except that a transaction commits only where its statements would be answered alike.

* `wire`: what the questions of a call mean for its connection.
* `attempt_ledger`: an attempt sends `COMMIT` at most once, for statements on which its operation
  returned a value, and reports it truthfully.
* `transaction_serializable`: **the calls take effect one after another**, each at most once.
-/

namespace Pulpitum
namespace Cockroach

open Serial (Standing Event)

section Wire

variable {R : Type}

/-- What is sent over a connection, and answered in time or not, means for it.  A `COMMIT` that is
answered with an error in `vague` may have committed. -/
def Sql.event (vague : PgError → Bool) :
    Sql → Option (Except PgError R) → Event Statement (Except PgError R)
  | .begin_, some (.ok _) => .began
  | .begin_, _ => .broke
  | .commit, some (.ok _) => .committed
  | .commit, some (.error e) => if vague e then .unsure else .refused
  | .commit, none => .unsure
  | .rollback, some (.ok _) => .rolledBack
  | .rollback, _ => .broke
  | .statement s, some (.ok r) => .ran s (.ok r)
  | .statement s, some (.error (.db code)) => .ran s (.error (.db code))
  | .statement s, _ => .lost s

/-- What the questions of a call mean for its connection. -/
def wire (R : Type) (vague : PgError → Bool) :
    Serial.Wire (Ask.Answer R) Statement (Except PgError R) where
  event
    | .acquire, .ok () => .opened
    | .send sql, answer => sql.event vague (some answer)
    | .sendWithin sql, answer => sql.event vague answer
    | .dropConnection, _ => .closed
    | _, _ => .silent
  unseen
    | .send sql | .sendWithin sql => sql.event vague none
    | _ => .silent
  alive r := r.isOk

end Wire

namespace Conn

variable {R α β : Type} {vague : PgError → Bool}
  {Good : Serial.Log Statement (Except PgError R) → Prop} {Auto : Statement → Prop}
  {conn : Serial.Conn Statement (Except PgError R)}
  {sent : Option (Serial.Log Statement (Except PgError R) × Bool)}
  {ran : Serial.Log Statement (Except PgError R)}

/-- The program keeps to the ledger from a standing on, and ends in `post`. -/
abbrev Ledger (vague : PgError → Bool) (Good : Serial.Log Statement (Except PgError R) → Prop)
    (Auto : Statement → Prop) (m : Standing Statement (Except PgError R)) (p : Conn R α)
    (post : α → Standing Statement (Except PgError R) → Prop) : Prop :=
  p.Follows (Serial.ledger (wire R vague) Good Auto) m post

/-! ### Questions -/

section Ask

variable {m : Standing Statement (Except PgError R)} {sql : Sql}
  {post : α → Standing Statement (Except PgError R) → Prop}

theorem ledger_send {k : Except PgError R → Conn R α}
    (ha : ∀ answer, Serial.Allowed Good Auto m (sql.event vague answer))
    (hk : ∀ answer, Ledger vague Good Auto (m.after (wire R vague) (sql.event vague (some answer)))
      (k answer) post) :
    Ledger vague Good Auto m (.ask (.send sql) k) post :=
  ⟨⟨fun answer => ha (some answer), ha none⟩, hk⟩

theorem ledger_sendWithin {k : Option (Except PgError R) → Conn R α}
    (ha : ∀ answer, Serial.Allowed Good Auto m (sql.event vague answer))
    (hk : ∀ answer, Ledger vague Good Auto (m.after (wire R vague) (sql.event vague answer))
      (k answer) post) :
    Ledger vague Good Auto m (.ask (.sendWithin sql) k) post :=
  ⟨⟨fun answer => ha answer, ha none⟩, hk⟩

theorem allowed_statement {s : Statement} (h : m.conn = .idle → Auto s)
    (answer : Option (Except PgError R)) :
    Serial.Allowed Good Auto m ((Sql.statement s).event vague answer) := by
  rcases answer with _ | (_ | _) | _ <;> exact h

/-- `COMMIT` may be sent for a good log. -/
theorem allowed_commit {log : Serial.Log Statement (Except PgError R)} (h : Good log)
    (answer : Option (Except PgError R)) :
    Serial.Allowed Good Auto ⟨.opened log, none, ran⟩ (Sql.commit.event vague answer) := by
  rcases answer with _ | e | _
  · exact ⟨rfl, log, rfl, h⟩
  · simp only [Sql.event]
    split <;> exact ⟨rfl, log, rfl, h⟩
  · exact ⟨rfl, log, rfl, h⟩

end Ask

/-! ### Statements -/

/-- A statement inside a transaction that cannot commit changes nothing. -/
theorem after_broken (s : Statement) (answer : Option (Except PgError R)) :
    (⟨.broken, sent, ran⟩ : Standing Statement (Except PgError R)).after (wire R vague)
      ((Sql.statement s).event vague answer) = ⟨.broken, sent, ran⟩ := by
  rcases answer with _ | (_ | _) | _ <;> rfl

/-- An answer with an error breaks the transaction. -/
theorem after_opened_error {log : Serial.Log Statement (Except PgError R)} (s : Statement)
    (e : PgError) :
    (⟨.opened log, sent, ran⟩ : Standing Statement (Except PgError R)).after (wire R vague)
      ((Sql.statement s).event vague (some (.error e))) = ⟨.broken, sent, ran⟩ := by
  cases e <;> rfl

/-- The log shows an answer with an error. -/
def Faulty (log : Serial.Log Statement (Except PgError R)) : Prop := ∃ x ∈ log, x.2.isOk = false

section Run

variable {p : Statements R α}

theorem run_broken {post : α → Standing Statement (Except PgError R) → Prop}
    (h : ∀ log a, p.Trace log a → post a ⟨.broken, sent, ran⟩) :
    Ledger vague Good Auto ⟨.broken, sent, ran⟩ (run p) post := by
  induction p with
  | ret a => exact h [] a ⟨rfl, rfl⟩
  | ask s k ih =>
      refine ledger_send (allowed_statement nofun) fun answer => ?_
      rw [after_broken]
      exact ih answer fun log a ht => h (⟨s, answer⟩ :: log) a ⟨answer, log, rfl, ht⟩

/-- The statements of a transaction: answered without an error they are its log, and otherwise it
can no longer commit. -/
theorem run_opened {post : α → Standing Statement (Except PgError R) → Prop} :
    ∀ {log : Serial.Log Statement (Except PgError R)},
      (∀ log' a, p.Trace log' a → post a ⟨.opened (log ++ log'), sent, ran⟩) →
      (∀ log' a, p.Trace log' a → Faulty log' → post a ⟨.broken, sent, ran⟩) →
      Ledger vague Good Auto ⟨.opened log, sent, ran⟩ (run p) post := by
  induction p with
  | ret a =>
      intro log h _
      have hret := h [] a ⟨rfl, rfl⟩
      rwa [List.append_nil] at hret
  | ask s k ih =>
      intro log h hf
      refine ledger_send (allowed_statement nofun) fun answer => ?_
      cases answer with
      | error e =>
          rw [after_opened_error]
          refine run_broken fun log' a ht => ?_
          exact hf (⟨s, .error e⟩ :: log') a ⟨_, log', rfl, ht⟩ ⟨_, .head _, rfl⟩
      | ok r =>
          refine ih (.ok r) (fun log' a ht => ?_) fun log' a ht hfaulty => ?_
          · have hask := h (⟨s, .ok r⟩ :: log') a ⟨_, log', rfl, ht⟩
            rwa [List.append_cons] at hask
          · obtain ⟨x, hx, hbad⟩ := hfaulty
            exact hf (⟨s, .ok r⟩ :: log') a ⟨_, log', rfl, ht⟩ ⟨x, .tail _ hx, hbad⟩

theorem runWithin_broken {post : Option α → Standing Statement (Except PgError R) → Prop}
    (hnone : post none ⟨.broken, sent, ran⟩)
    (h : ∀ log a, p.Trace log a → post (some a) ⟨.broken, sent, ran⟩) :
    Ledger vague Good Auto ⟨.broken, sent, ran⟩ (runWithin p) post := by
  induction p with
  | ret a => exact h [] a ⟨rfl, rfl⟩
  | ask s k ih =>
      refine ledger_sendWithin (allowed_statement nofun) fun answer => ?_
      rw [after_broken]
      cases answer with
      | none => exact hnone
      | some answer =>
          exact ih answer fun log a ht => h (⟨s, answer⟩ :: log) a ⟨answer, log, rfl, ht⟩

/-- The same for statements under a timeout. -/
theorem runWithin_opened {post : Option α → Standing Statement (Except PgError R) → Prop}
    (hnone : post none ⟨.broken, sent, ran⟩) :
    ∀ {log : Serial.Log Statement (Except PgError R)},
      (∀ log' a, p.Trace log' a → post (some a) ⟨.opened (log ++ log'), sent, ran⟩) →
      (∀ log' a, p.Trace log' a → Faulty log' → post (some a) ⟨.broken, sent, ran⟩) →
      Ledger vague Good Auto ⟨.opened log, sent, ran⟩ (runWithin p) post := by
  induction p with
  | ret a =>
      intro log h _
      have hret := h [] a ⟨rfl, rfl⟩
      rwa [List.append_nil] at hret
  | ask s k ih =>
      intro log h hf
      refine ledger_sendWithin (allowed_statement nofun) fun answer => ?_
      rcases answer with _ | e | r
      · exact hnone
      · rw [after_opened_error]
        refine runWithin_broken hnone fun log' a ht => ?_
        exact hf (⟨s, .error e⟩ :: log') a ⟨_, log', rfl, ht⟩ ⟨_, .head _, rfl⟩
      · refine ih (.ok r) (fun log' a ht => ?_) fun log' a ht hfaulty => ?_
        · have hask := h (⟨s, .ok r⟩ :: log') a ⟨_, log', rfl, ht⟩
          rwa [List.append_cons] at hask
        · obtain ⟨x, hx, hbad⟩ := hfaulty
          exact hf (⟨s, .ok r⟩ :: log') a ⟨_, log', rfl, ht⟩ ⟨x, .tail _ hx, hbad⟩

/-- Statements outside any transaction: what was answered without an error was run. -/
theorem run_idle {post : α → Standing Statement (Except PgError R) → Prop} (hp : p.Asks Auto) :
    ∀ {ran : Serial.Log Statement (Except PgError R)},
      (∀ log a, p.Trace log a → post a ⟨.idle, sent, ran ++ log.filter (·.2.isOk)⟩) →
      Ledger vague Good Auto ⟨.idle, sent, ran⟩ (run p) post := by
  induction p with
  | ret a =>
      intro ran h
      have hret := h [] a ⟨rfl, rfl⟩
      rwa [List.filter_nil, List.append_nil] at hret
  | ask s k ih =>
      intro ran h
      refine ledger_send (allowed_statement fun _ => hp.1) fun answer => ?_
      rcases answer with e | r
      · have hafter : (⟨.idle, sent, ran⟩ : Standing Statement (Except PgError R)).after
            (wire R vague) ((Sql.statement s).event vague (some (.error e))) =
            ⟨.idle, sent, ran⟩ := by
          cases e <;> rfl
        rw [hafter]
        refine ih _ (hp.2 _) fun log a ht => ?_
        exact h (⟨s, .error e⟩ :: log) a ⟨_, log, rfl, ht⟩
      · refine ih (.ok r) (hp.2 _) fun log a ht => ?_
        have hask := h (⟨s, .ok r⟩ :: log) a ⟨_, log, rfl, ht⟩
        rw [List.filter_cons_of_pos rfl, List.append_cons] at hask
        exact hask

end Run

/-- A call that sends statements over one connection, outside any transaction. -/
theorem withConnection_ledger {ε : Type} {poolError : StoreError → ε}
    {body : Statements R (Except ε α)}
    {post : Except ε α → Standing Statement (Except PgError R) → Prop} (hp : body.Asks Auto)
    (herror : ∀ e, post (.error (poolError e)) ⟨.none, sent, ran⟩)
    (h : ∀ log a, body.Trace log a → post a ⟨.none, sent, ran ++ log.filter (·.2.isOk)⟩) :
    Ledger vague Good Auto ⟨.none, sent, ran⟩ (withConnection poolError body) post := by
  refine ⟨⟨?_, trivial⟩, fun acquired => ?_⟩
  · rintro (_ | _) <;> exact trivial
  rcases acquired with e | ⟨⟨⟩⟩
  · exact herror e
  refine Prog.Follows.bind (p := run body) (run_idle hp fun log a ht => ?_)
  exact ⟨⟨fun _ => trivial, trivial⟩, fun _ => h log a ht⟩

/-! ### The ends of an attempt -/

section Ends

variable {post : α → Standing Statement (Except PgError R) → Prop}

theorem ledger_rollback {post : Bool → Standing Statement (Except PgError R) → Prop}
    (h : ∀ acknowledged conn, post acknowledged ⟨conn, sent, ran⟩) :
    Ledger vague Good Auto ⟨conn, sent, ran⟩ (rollback : Conn R Bool) post := by
  refine ledger_sendWithin (fun answer => ?_) fun answer => ?_
  · rcases answer with _ | _ | _ <;> exact trivial
  · rcases answer with _ | _ | _ <;> cases conn <;> exact h _ _

theorem ledger_rollbackAndMark {k : Unit → Conn R α}
    (h : ∀ conn, Ledger vague Good Auto ⟨conn, sent, ran⟩ (k ()) post) :
    Ledger vague Good Auto ⟨conn, sent, ran⟩ (rollbackAndMark >>= k) post := by
  refine .bind (.bind (ledger_rollback fun acknowledged conn => ?_))
  cases acknowledged with
  | false => exact h conn
  | true => cases conn <;> exact ⟨⟨fun _ => trivial, trivial⟩, fun _ => h _⟩

theorem ledger_drop {k : Unit → Conn R α}
    (h : Ledger vague Good Auto ⟨.none, sent, ran⟩ (k ()) post) :
    Ledger vague Good Auto ⟨conn, sent, ran⟩ (dropConnection >>= k) post := by
  refine ⟨⟨fun _ => trivial, trivial⟩, fun _ => ?_⟩
  cases conn <;> exact h

theorem ledger_retryOr {retry : Bool} {result : α}
    {post : Option α → Standing Statement (Except PgError R) → Prop}
    (hretry : retry = true → post none ⟨conn, sent, ran⟩)
    (h : retry = false → post (some result) ⟨conn, sent, ran⟩) :
    Ledger vague Good Auto ⟨conn, sent, ran⟩ (retryOr retry result : Conn R _) post := by
  cases retry with
  | false => exact h rfl
  | true =>
      refine ⟨⟨fun _ => trivial, trivial⟩, fun _ => ?_⟩
      cases conn <;> exact hretry rfl

/-- An attempt that is made again leaves nothing behind. -/
def Ended (ran : Serial.Log Statement (Except PgError R))
    (post : α → Standing Statement (Except PgError R) → Prop) :
    Option α → Standing Statement (Except PgError R) → Prop
  | none, m => m = ⟨.none, none, ran⟩
  | some result, m => post result m

/-- A loop of attempts ends as its last attempt does. -/
theorem attempts_ledger {body : Bool → Conn R (Option α)} {exhausted : α}
    (h : ∀ more, Ledger vague Good Auto ⟨.none, none, ran⟩ (body more) (Ended ran post))
    (he : post exhausted ⟨.none, none, ran⟩) (n i : ℕ) :
    Ledger vague Good Auto ⟨.none, none, ran⟩ (attempts body exhausted n i) post := by
  induction n generalizing i with
  | zero => exact he
  | succ n ih =>
      refine .bind ((h _).imp fun result m hm => ?_)
      cases result with
      | none =>
          cases hm
          exact ih (i + 1)
      | some result => exact hm

end Ends

/-! ### `transaction` -/

section Transaction

variable {operation : Statements R (Except TransactionFailure α)}

/-- The operation returns a value only if all its statements were answered without an error. -/
def Strict (operation : Statements R (Except TransactionFailure α)) : Prop :=
  ∀ log v, operation.Trace log (.ok v) → ¬ Faulty log

/-- The operation returned a value on these statements. -/
def Completes (operation : Statements R (Except TransactionFailure α))
    (log : Serial.Log Statement (Except PgError R)) : Prop :=
  ∃ v, operation.Trace log (.ok v)

/-- The failure leaves it open whether the call has committed: it says so, or it is the answer to a
`COMMIT` with an error of the server that does. -/
def Unsure (vague : PgError → Bool) (e : DurableBucketStoreError) : Prop :=
  e = .commitOutcomeUnknown ∨ e = .operationFailed ∧ ∃ code, vague (.db code) = true

/-- A call that returns a value has had its statements committed; one that returns a failure has
sent nothing that may have committed, or the failure is unsure. -/
def Told (vague : PgError → Bool) (operation : Statements R (Except TransactionFailure α))
    (result : Except DurableBucketStoreError α) (m : Standing Statement (Except PgError R)) :
    Prop :=
  (∀ v, result = .ok v → ∃ log, m.sent = some (log, true) ∧ operation.Trace log (.ok v)) ∧
    ∀ e, result = .error e → Unsure vague e ∨ m.sent = none

theorem told_failed {e : DurableBucketStoreError} :
    Told vague operation (.error e) (⟨conn, none, ran⟩ : Standing Statement (Except PgError R)) :=
  ⟨nofun, fun _ _ => .inr rfl⟩

theorem told_unsure {e : DurableBucketStoreError} (h : Unsure vague e)
    {m : Standing Statement (Except PgError R)} : Told vague operation (.error e) m := by
  refine ⟨nofun, fun e' he => .inl ?_⟩
  cases he
  exact h

theorem told_unknown {m : Standing Statement (Except PgError R)} :
    Told vague operation (.error .commitOutcomeUnknown) m :=
  told_unsure (.inl rfl)

theorem commitAttempt_ledger (hv : ∀ e, vague e = true → isRetryable e = false)
    {log : Serial.Log Statement (Except PgError R)} {v : α} (ht : operation.Trace log (.ok v))
    (more : Bool) :
    Ledger vague (Completes operation) Auto ⟨.opened log, none, ran⟩ (commitAttempt v more)
      (Ended ran (Told vague operation)) := by
  refine ledger_sendWithin (allowed_commit ⟨v, ht⟩) fun answer => ?_
  rcases answer with _ | e | r
  · exact ledger_drop told_unknown
  · cases hve : vague e with
    | true =>
        -- it may have committed, and is not made again
        simp only [Sql.event, hve, if_true]
        refine ledger_rollbackAndMark fun conn => ledger_drop ?_
        rw [hv e hve]
        refine told_unsure ?_
        cases e with
        | db code => exact .inr ⟨rfl, code, hve⟩
        | connection => exact .inl rfl
    | false =>
        simp only [Sql.event, hve]
        refine ledger_rollbackAndMark fun conn => ledger_drop (ledger_retryOr (fun _ => rfl) ?_)
        intro _
        split
        · exact told_failed
        · exact told_unknown
  · refine ⟨⟨fun _ => trivial, trivial⟩, fun _ => ledger_drop ?_⟩
    refine ⟨fun w hw => ?_, nofun⟩
    cases hw
    exact ⟨log, rfl, ht⟩

theorem failAttempt_ledger (failure : TransactionFailure) (retry : Bool) :
    Ledger vague Good Auto ⟨conn, none, ran⟩ (failAttempt failure retry : Conn R _)
      (Ended ran (Told vague operation)) := by
  cases retry with
  | false => exact ledger_rollbackAndMark fun conn => ledger_drop told_failed
  | true =>
      refine Prog.Follows.bind (p := rollback) (ledger_rollback fun acknowledged conn => ?_)
      cases acknowledged with
      | false => exact ledger_drop told_failed
      | true =>
          refine ⟨⟨fun _ => trivial, trivial⟩, fun _ => ?_⟩
          cases conn <;> exact ledger_drop (ledger_retryOr (fun _ => rfl) nofun)

/-- **An attempt sends `COMMIT` at most once**, for statements on which its operation returned a
value, and says what became of it as far as the answer does. -/
theorem attempt_ledger (hv : ∀ e, vague e = true → isRetryable e = false) (hs : Strict operation)
    (more : Bool) :
    Ledger vague (Completes operation) Auto ⟨.none, none, ran⟩ (attempt operation more)
      (Ended ran (Told vague operation)) := by
  refine ⟨⟨?_, trivial⟩, fun acquired => ?_⟩
  · rintro (_ | _) <;> exact trivial
  rcases acquired with _ | ⟨⟨⟩⟩
  · exact told_failed
  refine ⟨⟨fun _ => trivial, trivial⟩, fun _ => ?_⟩
  refine ledger_sendWithin (fun answer => ?_) fun answer => ?_
  · rcases answer with _ | _ | _ <;> exact trivial
  rcases answer with _ | e | _
  · exact ledger_drop told_failed
  · exact ledger_drop (ledger_retryOr (fun _ => rfl) fun _ => told_failed)
  refine Prog.Follows.bind (p := runWithin operation)
    (runWithin_opened ?_ (fun log a ht => ?_) fun log a ht hfaulty => ?_)
  · exact ledger_drop told_failed
  · rcases a with (e | e) | v
    · exact failAttempt_ledger _ _
    · exact failAttempt_ledger _ _
    · exact commitAttempt_ledger hv ht more
  · rcases a with (e | e) | v
    · exact failAttempt_ledger _ _
    · exact failAttempt_ledger _ _
    · exact absurd hfaulty (hs log v ht)

theorem transaction_ledger (hv : ∀ e, vague e = true → isRetryable e = false)
    (hs : Strict operation) :
    Ledger vague (Completes operation) Auto ⟨.none, none, ran⟩ (transaction operation)
      (Told vague operation) :=
  attempts_ledger (attempt_ledger hv hs) told_failed _ _

end Transaction

end Conn

/-! ### Calls one after another -/

section Order

variable {R N α σ : Type} {exec : N → Statement → σ → Except PgError R × σ}
  {operations : ℕ → Statements R (Except TransactionFailure α)} {s s' : σ}

/-- The operations of the calls are run alone, one after another; each returns a value. -/
def RunInOrder (exec : N → Statement → σ → Except PgError R × σ)
    (operations : ℕ → Statements R (Except TransactionFailure α)) :
    σ → List (ℕ × N × α) → σ → Prop
  | s, [], s' => s' = s
  | s, (i, n, v) :: rest, s' =>
      ∃ t, (operations i).runOn (exec n) s = (.ok v, t) ∧ RunInOrder exec operations t rest s'

/-- Logs that take effect one after another are operations run alone. -/
theorem runInOrder_of_serially {es : List (Serial.Entry N Statement (Except PgError R))}
    (h : Serial.Serially exec s es s')
    (hes : ∀ e ∈ es, Conn.Completes (operations e.client) e.log) :
    ∃ order, RunInOrder exec operations s order s' ∧ order.map Prod.fst = es.map (·.client) ∧
      ∀ e ∈ es, ∀ v, (operations e.client).Trace e.log (.ok v) →
        (e.client, e.context, v) ∈ order := by
  induction es generalizing s with
  | nil => exact ⟨[], h, rfl, nofun⟩
  | cons e es ih =>
      obtain ⟨t, hreplay, hrest⟩ := h
      obtain ⟨order, hrun, hclients, hmem⟩ := ih hrest fun e' he' => hes e' (.tail _ he')
      obtain ⟨v, hv⟩ := hes e (.head _)
      have halone := Serial.runOn_of_trace hv hreplay
      refine ⟨(e.client, e.context, v) :: order, ⟨t, halone, hrun⟩, ?_, ?_⟩
      · rw [List.map_cons, List.map_cons, hclients]
      · rintro e' (_ | ⟨_, he'⟩) w hw
        · have hsame := (Serial.runOn_of_trace hw hreplay).symm.trans halone
          simp only [Prod.mk.injEq, Except.ok.injEq, and_true] at hsame
          rw [hsame]
          exact .head _
        · exact .tail _ (hmem e' he' w hw)

/-- **Concurrent calls of `transaction` take effect one after another.**  Whatever the calls are,
however they overlap, whichever of them are retried, time out or are given up, the database is the
one that some of their operations leave when they are run alone, in some order, each at most once.
A call that returned a value is among them, with that value; a call that returned a failure is not,
unless the failure is `CommitOutcomeUnknown`, or it is `OperationFailed` and the server answers a
`COMMIT` that may have committed with an error of its own.  The operations return a value only if
their statements were answered without an error, and the error that is retried is one of a `COMMIT`
that has not committed. -/
theorem transaction_serializable (exec : N → Statement → σ → Except PgError R × σ)
    (vague : PgError → Bool) (hv : ∀ e, vague e = true → isRetryable e = false)
    (operations : ℕ → Statements R (Except TransactionFailure α))
    (hs : ∀ i, Conn.Strict (operations i)) (db : σ)
    {w : Serial.World (Ask.Answer R) (Except DurableBucketStoreError α) N Statement
      (Except PgError R) σ}
    (h : Serial.Reaches exec (wire R vague) (fun i => Conn.transaction (operations i))
      (.init db) w) :
    ∃ order, RunInOrder exec operations db order w.server.state ∧
      (order.map Prod.fst).Nodup ∧
      (∀ i v, w.Returned i (.ok v) → ∃ n, (i, n, v) ∈ order) ∧
      ∀ i e, w.Returned i (.error e) → i ∈ order.map Prod.fst → Conn.Unsure vague e := by
  have hinv : Serial.Inv exec (wire R vague) (fun i => Conn.Completes (operations i))
      (fun _ => False) (fun i => Conn.Told vague (operations i)) db w :=
    Serial.Inv.reaches (fun i => Conn.transaction_ledger hv (hs i)) h
  -- no call runs a statement outside its transactions
  have hauto : ∀ e ∈ w.server.history, e.auto = false := by
    intro e he
    by_contra hne
    obtain ⟨_, _, -, hfalse⟩ := hinv.filed.auto e (List.mem_append_left _ he) (by simpa using hne)
    exact hfalse
  have howners : Serial.owners w.server.history = w.server.history.map (·.client) := by
    unfold Serial.owners
    rw [List.filter_eq_self.mpr fun e he => by rw [hauto e he]; rfl]
  obtain ⟨order, hrun, hclients, hmem⟩ := runInOrder_of_serially hinv.serial fun e he =>
    hinv.filed.good e (List.mem_append_left _ he) (hauto e he)
  refine ⟨order, hrun, ?_, fun i v hret => ?_, fun i e hret hi => ?_⟩
  · rw [hclients, ← howners]
    exact (hinv.filed.subperm (List.sublist_append_left _ _).subperm).once
  · obtain ⟨m, hm⟩ := hret
    obtain ⟨log, hsent, htrace⟩ := (hinv.follows i _ _ hm rfl).1 v rfl
    obtain ⟨e, he, rfl, -, rfl⟩ := hinv.confirmed i _ _ _ hm (.sent hsent)
    exact ⟨e.context, hmem e he v htrace⟩
  · obtain ⟨m, hm⟩ := hret
    refine ((hinv.follows i _ _ hm rfl).2 e rfl).resolve_right fun hnone => ?_
    rw [hclients] at hi
    obtain ⟨x, hx, rfl⟩ := List.mem_map.mp hi
    obtain ⟨c, sure, hc, hsent⟩ := hinv.filed.sent x (List.mem_append_left _ hx) (hauto x hx)
    rw [hm] at hc
    cases hc
    rw [hnone] at hsent
    cases hsent

end Order

namespace Sample

/-- A statement that returns a counter and increments it. -/
def counter : Unit → Statement → ℕ → Except PgError ℕ × ℕ := fun _ _ n => (.ok n, n + 1)

/-- An operation of that statement. -/
def increment : Statements ℕ (Except TransactionFailure ℕ) := do
  match ← Conn.query (.operation "UPDATE counter SET n = n + 1 RETURNING n - 1") with
  | .ok n => return .ok n
  | .error e => return .error (.database e)

theorem strict_increment : Conn.Strict increment := by
  rintro _ v ⟨r, _, rfl, ht⟩ ⟨x, hx, hbad⟩
  cases r with
  | error e => cases ht.2
  | ok n =>
      obtain rfl := ht.1
      obtain rfl := List.mem_singleton.mp hx
      cases hbad

/-- The statement and its answer. -/
def incremented (n : ℕ) : Serial.Log Statement (Except PgError ℕ) :=
  [⟨.operation "UPDATE counter SET n = n + 1 RETURNING n - 1", .ok n⟩]

/-- The answers to a `COMMIT` that may have committed. -/
def ambiguous (e : PgError) : Bool := e = .connection ∨ e = .db completionUnknown

/-- Two calls have incremented the counter.  The second one was told so with a code that stands for
an unknown outcome, and has failed. -/
def afterTwo : Serial.World (Ask.Answer ℕ) (Except DurableBucketStoreError ℕ) Unit Statement
    (Except PgError ℕ) ℕ :=
  ⟨⟨2, [⟨0, false, (), incremented 0⟩, ⟨1, false, (), incremented 1⟩], []⟩,
    [⟨some (.ret (.ok 0)), ⟨.none, some (incremented 0, true), []⟩⟩,
      ⟨some (.ret (.error .operationFailed)), ⟨.none, some (incremented 1, false), []⟩⟩]⟩

theorem reaches_afterTwo :
    Serial.Reaches counter (wire ℕ ambiguous) (fun _ => Conn.transaction increment)
      (.init 0) afterTwo := by
  refine .head .start (Serial.Reaches.answer (r := .ok ()) (.never nofun) ?_)
  -- `mark_uncertain`, `BEGIN` and the statement
  refine Serial.Reaches.answer (r := ()) (.never nofun) ?_
  refine Serial.Reaches.answer (r := some (.ok 0)) (.never nofun) ?_
  refine Serial.Reaches.answer (r := some (.ok 0)) (.never nofun) ?_
  -- the other call begins, and its statement is answered after the first `COMMIT`
  refine .head .start (.head (.ask (i := 1) (r := .ok ()) rfl (.never nofun)) ?_)
  refine .head (.ask (i := 1) (r := ()) rfl (.never nofun)) ?_
  refine .head (.ask (i := 1) (r := some (.ok 0)) rfl (.never nofun)) ?_
  have hfirst : Serial.Due (wire ℕ ambiguous) (.opened (incremented 0)) .committed false true
      (incremented 0) := .committed
  have hreplays : ∀ n, Serial.Replays (counter ()) n (incremented n) (n + 1) := fun _ => ⟨rfl, rfl⟩
  refine .head (.ask (i := 0) (r := some (.ok 0)) rfl (by exact .now hfirst (hreplays 0))) ?_
  refine .head (.ask (i := 1) (r := some (.ok 1)) rfl (.never nofun)) ?_
  have hsecond : Serial.Due (wire ℕ ambiguous) (.opened (incremented 1)) .unsure false false
      (incremented 1) := .unsure
  refine .head (.ask (i := 1) (r := some (.error (.db completionUnknown))) rfl
    (by exact .now hsecond (hreplays 1))) ?_
  -- `ROLLBACK`, and the connections are dropped
  refine .head (.ask (i := 1) (r := some (.ok 0)) rfl (.never nofun)) ?_
  refine .head (.ask (i := 1) (r := ()) rfl (.never nofun)) ?_
  refine .head (.ask (i := 1) (r := ()) rfl (.never nofun)) ?_
  refine .head (.ask (i := 0) (r := ()) rfl (.never nofun)) ?_
  exact .head (.ask (i := 0) (r := ()) rfl (.never nofun)) .refl

end Sample

/-- Two calls that overlap: both take effect, and one of them has returned a failure. -/
theorem transaction_serializable_of_two :
    Sample.afterTwo.Returned 0 (.ok 0) ∧ Sample.afterTwo.Returned 1 (.error .operationFailed) ∧
      ∃ order, RunInOrder Sample.counter (fun _ => Sample.increment) 0 order 2 ∧
        ∃ n, (0, n, 0) ∈ order := by
  have hreturned : Sample.afterTwo.Returned 0 (.ok 0) := ⟨_, rfl⟩
  have hno : ∀ e, Sample.ambiguous e = true → isRetryable e = false := by
    intro e he
    obtain rfl | rfl := of_decide_eq_true he <;> rfl
  obtain ⟨order, hrun, -, hok, -⟩ := transaction_serializable Sample.counter Sample.ambiguous hno
    (fun _ => Sample.increment) (fun _ => Sample.strict_increment) 0 Sample.reaches_afterTwo
  exact ⟨hreturned, ⟨_, rfl⟩, order, hrun, hok 0 0 hreturned⟩

end Cockroach
end Pulpitum
