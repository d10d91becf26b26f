import Mathlib
import Pulpitum.Ports.InMemory

/-!
# Ports — Locality

An operation of `InMemoryDurableBucketStore` looks at the entry of the bucket it names and at no
other.

* `exec_local`: **the entry of the bucket decides the reply**, and what it is replaced by.
* `Local.reply`, `Local.entry`, `Local.others`: so stores that agree on the bucket answer alike and
  agree on it afterwards, and every other entry is left alone.
-/

namespace Pulpitum
namespace InMemory

variable {α : Type} {op : Store → α × Store} {s t : Store} {b b' : BucketId}

/-- The entry of the bucket decides the reply, and what it is replaced by, if it is. -/
def Local (b : BucketId) (op : Store → α × Store) : Prop :=
  ∀ e : Option Entry, ∃ a : α, (∀ s : Store, s.lookup b = e → op s = (a, s)) ∨
    ∃ e' : Entry, ∀ s : Store, s.lookup b = e → op s = (a, s.insert b e')

namespace Local

theorem reply (h : Local b op) (hst : s.lookup b = t.lookup b) : (op s).1 = (op t).1 := by
  obtain ⟨a, hop | ⟨e', hop⟩⟩ := h (t.lookup b)
  · rw [hop s hst, hop t rfl]
  · rw [hop s hst, hop t rfl]

theorem entry (h : Local b op) (hst : s.lookup b = t.lookup b) :
    (op s).2.lookup b = (op t).2.lookup b := by
  obtain ⟨a, hop | ⟨e', hop⟩⟩ := h (t.lookup b)
  · rw [hop s hst, hop t rfl]
    exact hst
  · rw [hop s hst, hop t rfl, AList.lookup_insert, AList.lookup_insert]

theorem others (h : Local b op) (hb : b' ≠ b) : (op s).2.lookup b' = s.lookup b' := by
  obtain ⟨a, hop | ⟨e', hop⟩⟩ := h (s.lookup b)
  · rw [hop s rfl]
  · rw [hop s rfl, AList.lookup_insert_ne hb]

/-- An operation that only answers. -/
theorem keep (a : α) : Local b fun s => (a, s) := fun _ => ⟨a, .inl fun _ _ => rfl⟩

end Local

theorem orDefault_eq {e : Option Entry} (h : s.lookup b = e) : orDefault s b = e.getD .default := by
  rw [orDefault, h]

theorem append_local (b : BucketId) (r : Record) : Local b (append b r) := by
  intro e
  by_cases hst : (e.getD .default).state ≠ .hot
  · refine ⟨.error (.bucketReadOnly (e.getD .default).state), .inr ⟨e.getD .default, ?_⟩⟩
    intro s h
    unfold append
    rw [orDefault_eq h]
    exact if_pos hst
  · refine ⟨.ok (), .inr ⟨{ e.getD .default with
      records := sortByKey ((e.getD .default).records ++ [r]) }, fun s h => ?_⟩⟩
    unfold append
    rw [orDefault_eq h]
    exact if_neg hst

theorem state_local (b : BucketId) : Local b (state b) :=
  fun e => ⟨.ok ((e.map Entry.state).getD .hot), .inl fun s h => by rw [state, h]⟩

theorem readRange_local (b : BucketId) (range : TimeRange) (after : Option Cursor) (limit : ℕ) :
    Local b (readRange b range after limit) := by
  intro e
  cases e with
  | none => exact ⟨.ok (.hot []), .inl fun s h => by rw [readRange, h]⟩
  | some entry =>
      obtain ⟨state, generation, token, expires, next, records⟩ := entry
      cases state with
      | hot | archiving => exact ⟨_, .inl fun s h => by rw [readRange, h]⟩
      | archived key d => exact ⟨.ok (.archive key), .inl fun s h => by rw [readRange, h]⟩

theorem claimArchive_local (env : Env) (b : BucketId) (d : Duration) :
    Local b (claimArchive env b d) := by
  intro e
  cases hd : leaseDeadline env.second d with
  | error err => exact ⟨.error err, .inl fun s _ => by rw [claimArchive, hd]⟩
  | ok expiresAt =>
      by_cases hc : attemptDue (e.getD .default) env.first ∧ ((e.getD .default).state = .hot ∨
          ((e.getD .default).state = .archiving ∧ leaseExpired (e.getD .default) env.first))
      · cases hg : nextGeneration (e.getD .default).generation with
        | none =>
            refine ⟨.error .operationFailed, .inr ⟨e.getD .default, fun s h => ?_⟩⟩
            simp only [claimArchive, hd, orDefault_eq h, if_pos hc, hg]
        | some g =>
            refine ⟨.ok (some ⟨b, env.token, g⟩), .inr ⟨{ e.getD .default with
              state := .archiving
              generation := g
              archiveOwnerToken := some env.token
              archiveOwnerExpiresAt := some expiresAt
              nextAttemptAt := none }, fun s h => ?_⟩⟩
            simp only [claimArchive, hd, orDefault_eq h, if_pos hc, hg]
      · refine ⟨.ok none, .inr ⟨e.getD .default, fun s h => ?_⟩⟩
        simp only [claimArchive, hd, orDefault_eq h, if_neg hc]

theorem claimCleanup_local (env : Env) (b : BucketId) (d : Duration) :
    Local b (claimCleanup env b d) := by
  intro e
  cases hd : leaseDeadline env.second d with
  | error err => exact ⟨.error err, .inl fun s _ => by rw [claimCleanup, hd]⟩
  | ok expiresAt =>
      cases e with
      | none => exact ⟨.ok none, .inl fun s h => by simp only [claimCleanup, hd, h]⟩
      | some entry =>
          by_cases hc : cleanupPending entry.state ∧ attemptDue entry env.first ∧
              leaseExpired entry env.first
          · cases hg : nextGeneration entry.generation with
            | none =>
                refine ⟨.error .operationFailed, .inl fun s h => ?_⟩
                simp only [claimCleanup, hd, h, if_pos hc, hg]
            | some g =>
                refine ⟨.ok (some ⟨b, env.token, g⟩), .inr ⟨{ entry with
                  generation := g
                  archiveOwnerToken := some env.token
                  archiveOwnerExpiresAt := some expiresAt
                  nextAttemptAt := none }, fun s h => ?_⟩⟩
                simp only [claimCleanup, hd, h, if_pos hc, hg]
          · refine ⟨.ok none, .inl fun s h => ?_⟩
            simp only [claimCleanup, hd, h, if_neg hc]

theorem beginArchive_local (env : Env) (b : BucketId) : Local b (beginArchive env b) := by
  intro e
  by_cases hst : (e.getD .default).state ≠ .hot
  · refine ⟨.error (.archiveNotAllowed (e.getD .default).state), .inr ⟨e.getD .default, ?_⟩⟩
    intro s h
    unfold beginArchive
    rw [orDefault_eq h]
    exact if_pos hst
  · rw [not_not] at hst
    cases hg : nextGeneration (e.getD .default).generation with
    | none =>
        refine ⟨.error .operationFailed, .inr ⟨e.getD .default, fun s h => ?_⟩⟩
        unfold beginArchive
        rw [orDefault_eq h, if_neg (not_not.mpr hst), hg]
    | some g =>
        cases hx : leaseDeadline env.first beginLease with
        | error err =>
            refine ⟨.error err, .inr ⟨(e.getD .default).fence env.token g, fun s h => ?_⟩⟩
            rw [← orDefault_eq h] at hst hg
            rw [beginArchive_eq_fence hst hg hx, orDefault_eq h]
        | ok x =>
            refine ⟨.ok ⟨b, env.token, g⟩, .inr ⟨{ (e.getD .default).fence env.token g with
              archiveOwnerExpiresAt := some x
              nextAttemptAt := none }, fun s h => ?_⟩⟩
            rw [← orDefault_eq h] at hst hg
            rw [beginArchive_eq_ok hst hg hx, orDefault_eq h]

theorem readRange_store (b : BucketId) (range : TimeRange) (after : Option Cursor) (limit : ℕ)
    (s : Store) : (readRange b range after limit s).2 = s := by
  unfold readRange
  split <;> rfl

theorem withSession_eq_stale {session : ArchiveSession}
    {op : Entry → Except DurableBucketStoreError (α × Entry)}
    (h : s.lookup session.bucket = none) :
    withSession session op s = (.error .staleArchiveSession, s) := by
  rw [withSession, h]

theorem withSession_local (session : ArchiveSession)
    (op : Entry → Except DurableBucketStoreError (α × Entry)) :
    Local session.bucket (withSession session op) := by
  intro e
  cases e with
  | none => exact ⟨.error .staleArchiveSession, .inl fun s h => withSession_eq_stale h⟩
  | some entry =>
      cases hop : op entry with
      | error err => exact ⟨.error err, .inl fun s h => by simp only [withSession, h, hop]⟩
      | ok p => exact ⟨.ok p.1, .inr ⟨p.2, fun s h => withSession_eq_ok h hop⟩⟩

section Deadline

variable {session : ArchiveSession} {now : Instant} {d : Duration}
  {op : Store → Except DurableBucketStoreError α × Store}
  {next : Instant → Entry → Except DurableBucketStoreError (α × Entry)}

/-- An operation on a session with a duration. -/
theorem deadline_local (h : op = fun s => match leaseDeadline now d with
      | .error e => (.error e, s)
      | .ok x => withSession session (next x) s) : Local session.bucket op := by
  subst h
  cases leaseDeadline now d with
  | error err => exact .keep _
  | ok x => exact withSession_local session (next x)

theorem deadline_store (h : op = fun s => match leaseDeadline now d with
      | .error e => (.error e, s)
      | .ok x => withSession session (next x) s) (hl : s.lookup session.bucket = none) :
    (op s).2 = s := by
  subst h
  cases leaseDeadline now d with
  | error err => rfl
  | ok x => exact congrArg Prod.snd (withSession_eq_stale hl)

end Deadline

/-- **The entry of the bucket decides what an operation does.** -/
theorem exec_local (env : Env) {q : StoreRequest} (h : q.bucket? = some b) :
    Local b (exec env q) := by
  cases q with
  | append b' r => cases h; exact append_local b r
  | state b' => cases h; exact state_local b
  | discoverArchiveWork => cases h
  | claimArchive b' d => cases h; exact claimArchive_local env b d
  | claimCleanup b' d => cases h; exact claimCleanup_local env b d
  | readRange b' range after limit => cases h; exact readRange_local b range after limit
  | beginArchive b' => cases h; exact beginArchive_local env b
  | renewArchiveLease session d | deferArchive session d | deferCleanup session d =>
      cases h
      exact deadline_local rfl
  | snapshot session | publishArchive session | deleteHotBucket session | abortArchive session =>
      cases h
      exact withSession_local session _

/-- An operation that names no bucket changes nothing. -/
theorem exec_of_bucket_eq_none (env : Env) {q : StoreRequest} (h : q.bucket? = none) (s : Store) :
    (exec env q s).2 = s := by
  cases q with
  | discoverArchiveWork => rfl
  | _ => cases h

/-- An operation leaves the entries of the buckets it does not name alone. -/
theorem exec_lookup_others (env : Env) {q : StoreRequest} (h : q.bucket? ≠ some b) :
    (exec env q s).2.lookup b = s.lookup b := by
  cases hb : q.bucket? with
  | none => rw [exec_of_bucket_eq_none env hb]
  | some b' => exact (exec_local env hb).others fun e => h (e ▸ hb)

end InMemory
end Pulpitum
