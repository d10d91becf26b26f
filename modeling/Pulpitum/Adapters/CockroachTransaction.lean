import Mathlib
import Pulpitum.Ports.Storage

/-!
# Adapters — Cockroach transaction

`CockroachDurableBucketStore::transaction`: up to five attempts, each of which checks a connection
out, sends `BEGIN`, runs the operation, sends `COMMIT`, and after an error `ROLLBACK`.  The
replies are a script; what became of each `COMMIT` is only known as far as its reply says.

* `transaction_spec`: the attempt that decided the result, and that all before it were retried.
* `transaction_truthful_iff`: the result says the truth about what committed exactly when no
  `COMMIT` that is reached is answered with `40003`.
* `ambiguous_commit_reported_failed`: a `COMMIT` answered with `40003` is reported as a definite
  failure.
-/

namespace Pulpitum
namespace Cockroach

/-- A `tokio_postgres::Error`: an error of the server with its SQLSTATE, or a failure of the
connection. -/
inductive PgError where
  | db (code : String)
  | connection
deriving DecidableEq

/-- `T_R_SERIALIZATION_FAILURE`. -/
def serializationFailure : String := "40001"

/-- `T_R_STATEMENT_COMPLETION_UNKNOWN`, the server's code for an ambiguous commit. -/
def completionUnknown : String := "40003"

/-- `is_retryable`. -/
def isRetryable (e : PgError) : Bool := e = .db serializationFailure

/-- `as_db_error().is_some()`. -/
def isDbError : PgError → Bool
  | .db _ => true
  | .connection => false

/-- The answer to `BEGIN` or `COMMIT`. -/
inductive Answer where
  | ok
  | error (e : PgError)
  | timeout
deriving DecidableEq

/-- `TransactionFailure`. -/
inductive TransactionFailure where
  | database (e : PgError)
  | store (e : DurableBucketStoreError)
deriving DecidableEq

/-- `into_store_error`. -/
def TransactionFailure.intoStoreError : TransactionFailure → DurableBucketStoreError
  | database _ => .operationFailed
  | store e => e

/-- The outcome of the operation's statements. -/
inductive OperationAnswer (α : Type) where
  | value (v : α)
  | failed (f : TransactionFailure)
  | timeout
deriving DecidableEq

/-- The replies to one attempt. -/
structure Attempt (α : Type) where
  /-- `acquire` gave a connection. -/
  acquired : Bool
  beginAnswer : Answer
  operation : OperationAnswer α
  commit : Answer
  /-- `ROLLBACK` was acknowledged in time. -/
  rolledBack : Bool
deriving DecidableEq

/-- What an attempt leads to. -/
inductive Verdict (α : Type) where
  | retry
  | done (result : Except DurableBucketStoreError α)

variable {α : Type}

/-- `MAX_TRANSACTION_ATTEMPTS`. -/
def maxTransactionAttempts : ℕ := 5

/-- The body of the loop; `more` says that the attempt is not the last. -/
def attemptOnce (a : Attempt α) (more : Bool) : Verdict α :=
  if !a.acquired then .done (.error .unavailable)
  else match a.beginAnswer with
    | .timeout => .done (.error .operationFailed)
    | .error e => if isRetryable e && more then .retry else .done (.error .operationFailed)
    | .ok => match a.operation with
      | .timeout => .done (.error .operationFailed)
      | .value v => match a.commit with
        | .ok => .done (.ok v)
        | .timeout => .done (.error .commitOutcomeUnknown)
        | .error e =>
            if isRetryable e && more then .retry
            else if isDbError e then .done (.error .operationFailed)
            else .done (.error .commitOutcomeUnknown)
      | .failed (.database e) =>
          if isRetryable e && more then
            if a.rolledBack then .retry else .done (.error .operationFailed)
          else .done (.error (TransactionFailure.database e).intoStoreError)
      | .failed (.store e) => .done (.error (TransactionFailure.store e).intoStoreError)

/-- The loop, with `n` attempts left: the result, and the number of attempts made. -/
def attemptsFrom (script : ℕ → Attempt α) : ℕ → ℕ → Except DurableBucketStoreError α × ℕ
  | 0, attempt => (.error .operationFailed, attempt)
  | n + 1, attempt =>
      match attemptOnce (script attempt) (attempt + 1 < maxTransactionAttempts) with
      | .done result => (result, attempt + 1)
      | .retry => attemptsFrom script n (attempt + 1)

/-- `transaction`, against a script of replies: the result, and the number of attempts made. -/
def transaction (script : ℕ → Attempt α) : Except DurableBucketStoreError α × ℕ :=
  attemptsFrom script maxTransactionAttempts 0

/-! ### What became of the commits -/

/-- The attempt sent `COMMIT`. -/
def Attempt.SentCommit (a : Attempt α) : Prop :=
  a.acquired = true ∧ a.beginAnswer = .ok ∧ ∃ v, a.operation = .value v

/-- The attempt can have committed, or not, as its replies say: an acknowledged `COMMIT` has; one
that timed out, lost the connection or was answered `40003` may have; any other error and an
attempt that sent none have not. -/
def Attempt.Possible (a : Attempt α) (committed : Bool) : Prop :=
  (a.SentCommit → a.commit = .ok → committed = true) ∧
    (committed = true → a.SentCommit ∧
      (a.commit = .ok ∨ a.commit = .timeout ∨ a.commit = .error .connection ∨
        a.commit = .error (.db completionUnknown)))

/-- Which attempts committed, of the `n` that were made. -/
def Consistent (script : ℕ → Attempt α) (n : ℕ) (committed : ℕ → Bool) : Prop :=
  (∀ i < n, (script i).Possible (committed i)) ∧ ∀ i, n ≤ i → committed i = false

/-- The result says the truth about what committed, whatever did. -/
structure Truthful (script : ℕ → Attempt α) : Prop where
  ok : ∀ committed, Consistent script (transaction script).2 committed → ∀ v,
    (transaction script).1 = .ok v → ∃ i, committed i = true ∧ (script i).operation = .value v ∧
      ∀ j, committed j = true → j = i
  unknown : ∀ committed, Consistent script (transaction script).2 committed →
    (transaction script).1 = .error .commitOutcomeUnknown →
      ∀ i j, committed i = true → committed j = true → i = j
  failed : ∀ committed, Consistent script (transaction script).2 committed → ∀ e,
    (transaction script).1 = .error e → e ≠ .commitOutcomeUnknown → ∀ i, committed i = false
  attempts : (transaction script).2 ≤ 5

/-- The attempt is given up and made again: the server answered `40001`, and an operation that
was answered so was also rolled back. -/
def Attempt.Retries (a : Attempt α) : Prop :=
  a.acquired = true ∧
    (a.beginAnswer = .error (.db serializationFailure) ∨
      a.beginAnswer = .ok ∧
        ((∃ v, a.operation = .value v) ∧ a.commit = .error (.db serializationFailure) ∨
          a.operation = .failed (.database (.db serializationFailure)) ∧ a.rolledBack = true))

/-- The attempt's `COMMIT` is answered with `40003`. -/
def Attempt.CommitUnknown (a : Attempt α) : Prop :=
  a.SentCommit ∧ a.commit = .error (.db completionUnknown)

/-! ### One attempt -/

theorem isRetryable_iff {e : PgError} : isRetryable e = true ↔ e = .db serializationFailure := by
  simp [isRetryable]

theorem attemptOnce_eq_retry {a : Attempt α} {more : Bool} :
    attemptOnce a more = .retry ↔ more = true ∧ a.Retries := by
  obtain ⟨acquired, b, op, commit, rolledBack⟩ := a
  unfold attemptOnce Attempt.Retries
  cases acquired with
  | false => simp
  | true =>
    cases b with
    | timeout => simp
    | error e => by_cases h : isRetryable e = true <;> cases more <;> simp_all [isRetryable_iff]
    | ok =>
      cases op with
      | timeout => simp
      | value v =>
        cases commit with
        | ok => simp
        | timeout => simp
        | error e =>
          cases more <;> by_cases h : isRetryable e = true <;> by_cases h' : isDbError e = true <;>
            simp_all [isRetryable_iff]
      | failed f =>
        cases f with
        | store e => simp
        | database e =>
          cases more <;> by_cases h : isRetryable e = true <;> cases rolledBack <;>
            simp_all [isRetryable_iff]

/-- Only an acknowledged `COMMIT` returns a value, and it is the operation's. -/
theorem attemptOnce_eq_ok {a : Attempt α} {more : Bool} {v : α}
    (h : attemptOnce a more = .done (.ok v)) :
    a.SentCommit ∧ a.commit = .ok ∧ a.operation = .value v := by
  unfold attemptOnce at h
  split at h
  · cases h
  rename_i hacq
  split at h
  · cases h
  · split at h <;> cases h
  rename_i hb
  split at h
  · cases h
  · rename_i hop
    split at h
    · rename_i hc
      cases h
      exact ⟨⟨by simpa using hacq, hb, v, hop⟩, hc, hop⟩
    · cases h
    · split at h
      · cases h
      · split at h <;> cases h
  · split at h
    · split at h <;> cases h
    · cases h
  · cases h

/-- An attempt whose `COMMIT` is answered with `40003` ends the loop with a definite failure. -/
theorem attemptOnce_commitUnknown {a : Attempt α} {more : Bool} (h : a.CommitUnknown) :
    attemptOnce a more = .done (.error .operationFailed) := by
  obtain ⟨⟨hacq, hb, v, hop⟩, hc⟩ := h
  have hr : isRetryable (.db completionUnknown) = false := by decide
  simp [attemptOnce, hacq, hb, hop, hc, hr, isDbError]

/-- A definite failure that is not of an ambiguous `COMMIT` has not committed. -/
theorem attemptOnce_eq_error {a : Attempt α} {more : Bool} {e : DurableBucketStoreError}
    (h : attemptOnce a more = .done (.error e)) (he : e ≠ .commitOutcomeUnknown)
    (hu : ¬ a.CommitUnknown) : ¬ a.Possible true := by
  rintro ⟨-, hp⟩
  obtain ⟨⟨hacq, hb, v, hop⟩, hc⟩ := hp rfl
  simp only [attemptOnce, hacq, hb, hop] at h
  rcases hc with hc | hc | hc | hc
  · simp only [hc] at h; cases h
  · simp only [hc] at h; cases h; exact he rfl
  · have hr : isRetryable .connection = false := by decide
    simp [hc, hr, isDbError] at h
    exact he h.symm
  · exact hu ⟨⟨hacq, hb, v, hop⟩, hc⟩

/-- An attempt that is made again has not committed. -/
theorem Attempt.Retries.not_committed {a : Attempt α} (h : a.Retries) : ¬ a.Possible true := by
  rintro ⟨-, hp⟩
  obtain ⟨⟨-, hb, v, hop⟩, hc⟩ := hp rfl
  obtain ⟨-, h | ⟨-, ⟨-, h⟩ | ⟨h, -⟩⟩⟩ := h
  · rw [hb] at h; cases h
  · rw [h] at hc; revert hc; decide
  · rw [hop] at h; cases h

theorem Attempt.CommitUnknown.not_retries {a : Attempt α} (h : a.CommitUnknown) : ¬ a.Retries :=
  fun hr => by
    have h₁ := attemptOnce_eq_retry.mpr ⟨rfl, hr⟩
    rw [attemptOnce_commitUnknown h] at h₁; cases h₁

/-! ### The loop -/

/-- The loop ends with the verdict of one attempt, and all attempts before it were made again. -/
theorem attemptsFrom_spec {script : ℕ → Attempt α} :
    ∀ {n k : ℕ}, k + (n + 1) = maxTransactionAttempts → (∀ j < k, (script j).Retries) →
      ∃ i < maxTransactionAttempts, (∀ j < i, (script j).Retries) ∧ ∃ result,
        attemptOnce (script i) (i + 1 < maxTransactionAttempts) = .done result ∧
          attemptsFrom script (n + 1) k = (result, i + 1) := by
  intro n
  induction n with
  | zero =>
      intro k hk hbefore
      have hlast : decide (k + 1 < maxTransactionAttempts) = false := by simp; omega
      cases hv : attemptOnce (script k) (k + 1 < maxTransactionAttempts) with
      | done result =>
          exact ⟨k, by omega, hbefore, result, hv, by simp only [attemptsFrom, hv]⟩
      | retry => rw [attemptOnce_eq_retry, hlast] at hv; cases hv.1
  | succ n ih =>
      intro k hk hbefore
      cases hv : attemptOnce (script k) (k + 1 < maxTransactionAttempts) with
      | done result =>
          exact ⟨k, by omega, hbefore, result, hv, by simp only [attemptsFrom, hv]⟩
      | retry =>
          obtain ⟨i, hi, hall, result, hr, hloop⟩ := ih (k := k + 1) (by omega) fun j hj => by
            rcases Nat.lt_succ_iff_lt_or_eq.mp hj with hj | rfl
            · exact hbefore j hj
            · exact (attemptOnce_eq_retry.mp hv).2
          refine ⟨i, hi, hall, result, hr, ?_⟩
          rw [attemptsFrom]
          simp only [hv, hloop]

/-- **The attempt that decided**: all attempts before it were made again, and its verdict is the
result. -/
theorem transaction_spec (script : ℕ → Attempt α) :
    ∃ i < maxTransactionAttempts, (∀ j < i, (script j).Retries) ∧ ∃ result,
      attemptOnce (script i) (i + 1 < maxTransactionAttempts) = .done result ∧
        transaction script = (result, i + 1) :=
  attemptsFrom_spec (n := 4) (k := 0) rfl fun _ hj => absurd hj (Nat.not_lt_zero _)

/-- An attempt that is reached and not made again is the one that decided. -/
theorem transaction_eq {script : ℕ → Attempt α} {i : ℕ} (hi : i < maxTransactionAttempts)
    (hbefore : ∀ j < i, (script j).Retries) (hno : ¬ (script i).Retries) :
    ∃ result, attemptOnce (script i) (i + 1 < maxTransactionAttempts) = .done result ∧
      transaction script = (result, i + 1) := by
  obtain ⟨i', hi', hbefore', result, hr, ht⟩ := transaction_spec script
  rcases lt_trichotomy i' i with hlt | rfl | hlt
  · have hmore : decide (i' + 1 < maxTransactionAttempts) = true := by simp; omega
    rw [attemptOnce_eq_retry.mpr ⟨hmore, hbefore i' hlt⟩] at hr; cases hr
  · exact ⟨result, hr, ht⟩
  · exact absurd (hbefore' i hlt) hno

/-- In a consistent history only the attempt that decided can have committed. -/
theorem committed_eq {script : ℕ → Attempt α} {i : ℕ} {committed : ℕ → Bool}
    (hbefore : ∀ j < i, (script j).Retries) (hc : Consistent script (i + 1) committed) {j : ℕ}
    (hj : committed j = true) : j = i := by
  rcases lt_trichotomy j i with hlt | rfl | hlt
  · have := hc.1 j (by omega)
    rw [hj] at this
    exact absurd this (hbefore j hlt).not_committed
  · rfl
  · rw [hc.2 j hlt] at hj; cases hj

/-- **When the outcome is reported truthfully**: exactly when no `COMMIT` that is reached — after
attempts that were all made again — is answered with `40003`. -/
theorem transaction_truthful_iff (script : ℕ → Attempt α) :
    Truthful script ↔ ∀ i < maxTransactionAttempts, (∀ j < i, (script j).Retries) →
      ¬ (script i).CommitUnknown := by
  constructor
  · intro h i hi hbefore hu
    obtain ⟨result, hr, ht⟩ := transaction_eq hi hbefore hu.not_retries
    rw [attemptOnce_commitUnknown hu] at hr
    cases hr
    -- the history in which the ambiguous `COMMIT` did commit is consistent
    have hc : Consistent script (transaction script).2 (fun j => j = i) := by
      rw [ht]
      refine ⟨fun j hj => ⟨fun hs hok => ?_, fun hj' => ?_⟩, fun j hj => by simp; omega⟩
      · rcases Nat.lt_succ_iff_lt_or_eq.mp hj with hlt | rfl
        · obtain ⟨-, hb | ⟨hb, ⟨-, hcommit⟩ | ⟨hop, -⟩⟩⟩ := hbefore j hlt
          · rw [hs.2.1] at hb; cases hb
          · rw [hok] at hcommit; cases hcommit
          · obtain ⟨v, hv⟩ := hs.2.2
            rw [hv] at hop; cases hop
        · simp
      · obtain rfl : j = i := by simpa using hj'
        exact ⟨hu.1, .inr (.inr (.inr hu.2))⟩
    have := h.failed _ hc .operationFailed (by rw [ht]) (by decide) i
    simp at this
  · intro h
    obtain ⟨i, hi, hbefore, result, hr, ht⟩ := transaction_spec script
    refine ⟨fun committed hc v hv => ?_, fun committed hc _ j k hj hk => ?_,
      fun committed hc e he hne j => ?_, ?_⟩
    · rw [ht] at hc hv
      obtain rfl : result = .ok v := hv
      obtain ⟨hs, hcommit, hop⟩ := attemptOnce_eq_ok hr
      exact ⟨i, (hc.1 i (by omega)).1 hs hcommit, hop, fun j hj => committed_eq hbefore hc hj⟩
    · rw [ht] at hc
      rw [committed_eq hbefore hc hj, committed_eq hbefore hc hk]
    · rw [ht] at hc he
      obtain rfl : result = .error e := he
      by_contra hj
      rw [Bool.not_eq_false] at hj
      obtain rfl := committed_eq hbefore hc hj
      have hp := hc.1 j (by omega)
      rw [hj] at hp
      exact attemptOnce_eq_error hr hne (h j hi hbefore) hp
    · rw [ht]; exact hi

/-- An attempt that gets through to `COMMIT`. -/
def Attempt.committing (v : α) (commit : Answer) : Attempt α := ⟨true, .ok, .value v, commit, true⟩

/-- **A commit that may have happened is reported as a definite failure**: the one attempt's
`COMMIT` is answered with `40003`, the transaction returns `OperationFailed`, and it is consistent
with the replies that the attempt committed. -/
theorem ambiguous_commit_reported_failed :
    let script := fun _ : ℕ => Attempt.committing () (.error (.db completionUnknown))
    transaction script = (.error .operationFailed, 1) ∧
      Consistent script 1 (fun i => i = 0) ∧ ¬ Truthful script := by
  intro script
  have hc : Consistent script 1 (fun i => i = 0) := by
    refine ⟨fun i hi => ?_, fun i hi => by simp; omega⟩
    obtain rfl : i = 0 := by omega
    exact ⟨fun _ hok => (by cases hok), fun _ => ⟨⟨rfl, rfl, (), rfl⟩, .inr (.inr (.inr rfl))⟩⟩
  refine ⟨rfl, hc, fun h => ?_⟩
  have := h.failed _ hc .operationFailed rfl (by decide) 0
  simp at this

end Cockroach

end Pulpitum
